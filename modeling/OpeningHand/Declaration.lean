import OpeningHand.Pattern

/-!
# Declarations

A line of a rule text declares a pattern under a name. A criterion is a declaration that hands are
tested against; the others are there to be referred to.
-/

namespace OpeningHand

structure Declaration where
  name : String
  isCriterion : Bool
  pattern : Pattern
deriving DecidableEq, Repr

namespace Declaration

/-- The written form: the name between angle brackets, doubled for a criterion, and the pattern. -/
def render (declaration : Declaration) : List Char :=
  if declaration.isCriterion then
    "<<".toList ++ declaration.name.toList ++ ">>: ".toList ++ declaration.pattern.render
  else
    '<' :: declaration.name.toList ++ ">: ".toList ++ declaration.pattern.render

end Declaration

end OpeningHand
