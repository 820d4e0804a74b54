import OpeningHand.Simulation.Tally

/-!
# Schedules

Trials can be spread over workers. A worker counts some trials into a tally of its own, and the tallies
are merged in pairs until one is left. Which trials go together, and which tallies are merged first, is
decided while the trials run; a schedule says what was decided.
-/

namespace OpeningHand

/-- How trials are spread over workers. A worker may be idle; the tallies of two parts of the work are
merged. -/
inductive Schedule where
  | idle
  | work (trials : List Nat)
  | merge (left right : Schedule)
deriving DecidableEq, Repr

namespace Schedule

def segments : Schedule → List (List Nat)
  | idle => []
  | work trials => [trials]
  | merge left right => left.segments ++ right.segments

def collect (criteria : Nat) (trial : Nat → Except Fault (Option Nat)) : Schedule → Except Fault Tally
  | idle => .ok (.empty criteria)
  | work trials => Tally.collect criteria trial trials
  | merge left right => do
    let tally ← left.collect criteria trial
    let other ← right.collect criteria trial
    return tally.merge other

end Schedule

end OpeningHand
