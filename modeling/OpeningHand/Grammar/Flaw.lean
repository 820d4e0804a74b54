import OpeningHand.Fault
import OpeningHand.Grammar.Cursor

/-!
# What can be wrong with a declaration

Each place where reading a declaration may stop has a flaw of its own, which says what was expected
there.
-/

namespace OpeningHand

inductive Flaw where
  | nameOpening
  | nameEmpty
  | nameClosing
  | criterionClosing
  | colon
  | trailing
  | countTooLarge
  | cardEmpty
  | cardClosing
  | referenceEmpty
  | referenceClosing
  | groupClosing
  | patternOpening
  | connective
  | sameConnective (symbol : Char)
  | compoundEmpty
  | functionEmpty
  | unknownFunction (name : String)
  | rowOpening
  | rowClosing
  | rowEmpty
  | notSingle
  | argumentOpening
  | argumentClosing
  | argumentNegative
  | argumentMalformed
  | argumentTooLarge
deriving DecidableEq, Repr

def Flaw.message : Flaw → String
  | nameOpening => "'<' expected to open a matcher name declaration"
  | nameEmpty => "matcher name should not be empty"
  | nameClosing => "'>' expected to close a matcher name declaration"
  | criterionClosing => "'>>' expected to close a criteria name declaration"
  | colon => "':' expected after matcher name declaration"
  | trailing => "unexpected character after matcher declaration"
  | countTooLarge => "repetition count is too large"
  | cardEmpty => "card name should not be empty"
  | cardClosing => "']' expected to close a card matcher"
  | referenceEmpty => "matcher reference should not be empty"
  | referenceClosing => "'>' expected to close a matcher reference"
  | groupClosing => "')' expected to close a compound matcher"
  | patternOpening => "either '[', '<', '(' or '@' expected to declare a matcher"
  | connective => "either '&' or '|' expected to assemble several matchers"
  | sameConnective symbol => "'" ++ symbol.toString ++ "' expected"
  | compoundEmpty => "you should declare at least one matcher"
  | functionEmpty => "function name should not be empty"
  | unknownFunction name => "unknown function @" ++ name
  | rowOpening => "'(' expected (matchers list)"
  | rowClosing => "')' expected to close matchers list"
  | rowEmpty => "you shall provide at least one matcher"
  | notSingle => "@not expects exactly one matcher"
  | argumentOpening => "'(' expected (open function arg)"
  | argumentClosing => "')' expected (close function arg)"
  | argumentNegative => "1st arg must be a positive integer"
  | argumentMalformed => "1st arg must be a valid integer"
  | argumentTooLarge => "1st arg cannot exceed matchers size"

/-- Why there is no declaration to a text: it is none, or it asks for what cannot be computed. -/
inductive ReadFailure where
  | malformed (diagnostic : Diagnostic Flaw)
  | fault (fault : Fault)
deriving DecidableEq, Repr

def Cursor.refuse {α : Type} (cursor : Cursor) (flaw : Flaw) : Except ReadFailure α :=
  .error (.malformed (cursor.diagnostic flaw))

end OpeningHand
