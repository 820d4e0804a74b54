import OpeningHand.Fault

/-!
# Tallies

A tally counts, for each criterion, the hands for which it was the first one satisfied, and the hands
that satisfy none. Tallies of different hands can be merged.
-/

namespace OpeningHand

/-- The outcomes of some hands, counted: the hits of each criterion, and the hands without one. -/
structure Tally where
  hits : List Nat
  misses : Nat
deriving DecidableEq, Repr

/-- Counts added place by place; counts without a partner stay in the first row and are dropped from
the second one. -/
def addCounts : List Nat → List Nat → List Nat
  | count :: counts, other :: others => (count + other) :: addCounts counts others
  | counts, [] => counts
  | [], _ => []

namespace Tally

def empty (criteria : Nat) : Tally :=
  ⟨List.replicate criteria 0, 0⟩

/-- The tally with one more hand, given by the index of its criterion, which has to be one of those
counted. -/
def record (tally : Tally) : Option Nat → Except Fault Tally
  | some index =>
    if index < tally.hits.length then .ok { tally with hits := tally.hits.modify index (· + 1) }
    else .error (.outOfBounds tally.hits.length index)
  | none => .ok { tally with misses := tally.misses + 1 }

def collect (criteria : Nat) (trial : Nat → Except Fault (Option Nat)) (trials : List Nat) :
    Except Fault Tally :=
  trials.foldlM (fun tally i => do
    let outcome ← trial i
    tally.record outcome) (.empty criteria)

def merge (tally other : Tally) : Tally :=
  ⟨addCounts tally.hits other.hits, tally.misses + other.misses⟩

def total (tally : Tally) : Nat :=
  tally.hits.foldr (· + ·) 0 + tally.misses

@[simp] theorem hits_empty (criteria : Nat) : (empty criteria).hits = List.replicate criteria 0 := rfl

@[simp] theorem misses_empty (criteria : Nat) : (empty criteria).misses = 0 := rfl

@[simp] theorem collect_nil (criteria : Nat) (trial : Nat → Except Fault (Option Nat)) :
    collect criteria trial [] = .ok (empty criteria) := rfl

end Tally

end OpeningHand
