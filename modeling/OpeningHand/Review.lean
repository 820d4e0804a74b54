import OpeningHand.Evaluation

/-!
# Reviews

A review says what is wrong with the references of a rule book, and which of its cards cannot turn
up.
-/

namespace OpeningHand

/-- Something wrong with a reference: nothing is declared under its name, or the pattern declared there
refers to the name again, directly or not. -/
inductive ReferenceError where
  | undeclared (name : String)
  | cyclic (name : String)
deriving DecidableEq, Repr

def ReferenceError.message : ReferenceError → String
  | undeclared name => "Matcher <" ++ name ++ "> not found"
  | cyclic name => "Matcher <" ++ name ++ "> refers to itself"

/-- What was found in a review. Cards that are in no deck are noted as often as patterns mention them. -/
structure Review where
  errors : List ReferenceError
  unlisted : List Card
deriving DecidableEq, Repr

namespace Review

def empty : Review := ⟨[], []⟩

/-- Whether no error was found; unlisted cards are no errors. -/
def isOk (review : Review) : Bool :=
  review.errors.isEmpty

def errorMessages (review : Review) : List String :=
  review.errors.map (·.message)

def warningMessages (review : Review) : List String :=
  review.unlisted.map fun card => "Card [" ++ card ++ "] not found in deck"

end Review

namespace Pattern

/-- The names in a pattern that lead nowhere. -/
def undeclared (context : Context) (pattern : Pattern) : List String :=
  pattern.references.filter fun name => (context.resolve name).isNone

/-- The cards in a pattern that cannot turn up. -/
def unlisted (context : Context) (pattern : Pattern) : List Card :=
  pattern.cards.filter fun card => !context.knows card

/-- The review of a row of patterns: what is wrong in each of them, from left to right. -/
def review (context : Context) (patterns : List Pattern) : Review :=
  ⟨(patterns.flatMap (undeclared context)).map .undeclared, patterns.flatMap (unlisted context)⟩

end Pattern

end OpeningHand
