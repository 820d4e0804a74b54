/-!
# Settings of a simulation
-/

namespace OpeningHand

/-- How many hands are drawn from each deck, and how. The seeds of the hands are counted on from the one
given; without one, some seed is chosen. Whether hands are drawn in parallel has no influence on the
results. -/
structure Settings where
  iterations : Nat := 1000
  draw : Nat := 7
  seed : Option UInt64 := none
  parallel : Bool := true
deriving DecidableEq, Repr

end OpeningHand
