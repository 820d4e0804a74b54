/-!
# Faults

The few situations in which a computation has no answer at all, as opposed to a rule text or a deck
list that is merely malformed. Each has a message for the reader of a failed run.
-/

namespace OpeningHand

/-- Why a computation broke off. Memory is limited only where room for a list of known length is asked
for beforehand: nothing stops a list that grows entry by entry, or a recursion that goes deep. -/
inductive Fault where
  | absentCard (card : String)
  | emptyRange
  | productOverflow
  | capacityOverflow
  | widthOverflow
  | outOfBounds (length index : Nat)
  | endlessReference
deriving DecidableEq, Repr

def Fault.message : Fault → String
  | absentCard card => "card [" ++ card ++ "] is not in the set"
  | emptyRange => "cannot sample empty range"
  | productOverflow => "attempt to multiply with overflow"
  | capacityOverflow => "capacity overflow"
  | widthOverflow => "Formatting argument out of range"
  | outOfBounds length index =>
    "index out of bounds: the len is " ++ toString length ++ " but the index is " ++ toString index
  | endlessReference => "references between matchers never end"

end OpeningHand
