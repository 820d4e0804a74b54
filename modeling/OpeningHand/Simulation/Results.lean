import OpeningHand.Binary64
import OpeningHand.Fault

/-!
# Results of a simulation

Results are tables of counts, with a row for each criterion and a column for each deck. They may come
from elsewhere, so nothing is taken for granted about their shape: asking for an entry that is not
there is a fault.
-/

namespace OpeningHand

/-- The counts of a simulation, and what it was run with. A hand counts for the first criterion that it
satisfies, in the row of the criterion and the column of the deck. -/
structure Results where
  iterations : Nat
  draw : Nat
  seed : UInt64
  criteria : List String
  deckSizes : List Nat
  matchCounts : List (List Nat)
  noMatchCounts : List Nat
deriving DecidableEq, Repr

def entryAt {α : Type} (row : List α) (index : Nat) : Except Fault α :=
  match row[index]? with
  | some entry => .ok entry
  | none => .error (.outOfBounds row.length index)

namespace Results

def deckCount (results : Results) : Nat :=
  results.deckSizes.length

def count (results : Results) (criterion deck : Nat) : Except Fault Nat := do
  let row ← entryAt results.matchCounts criterion
  entryAt row deck

/-- The count of the first criterion of a given name, if there is one. -/
def countByName (results : Results) (name : String) (deck : Nat) : Except Fault (Option Nat) :=
  match results.criteria.idxOf? name with
  | some criterion => do
    let count ← results.count criterion deck
    return some count
  | none => .ok none

def noMatch (results : Results) (deck : Nat) : Except Fault Nat :=
  entryAt results.noMatchCounts deck

def ratio (results : Results) (count : Nat) : Binary64 :=
  if results.iterations = 0 then .zero
  else (Binary64.ofNat count).div (Binary64.ofNat results.iterations)

def hands (results : Results) : Nat :=
  (results.matchCounts.map (·.foldr (· + ·) 0)).foldr (· + ·) 0 +
    results.noMatchCounts.foldr (· + ·) 0

end Results

end OpeningHand
