import OpeningHand.DeckList
import OpeningHand.Grammar.Reader
import OpeningHand.Review
import OpeningHand.RuleBook.Cycles

/-!
# Rule books

A rule book holds the declarations of a rule text: all patterns by name, and the criteria in the
order in which hands are tested against them. Its review, and the names hidden because they refer back
to themselves, are those of the last validation.
-/

namespace OpeningHand

/-- The declarations of a rule text, with reports on the lines that are none. Hidden names are not
resolved, because they refer back to themselves. Every card may turn up if there are no cards to compare
with. -/
structure RuleBook where
  patterns : Registry
  criteria : List Declaration
  parseErrors : List (Diagnostic Flaw)
  review : Review
  cards : Option (List Card)
  hidden : List String
deriving DecidableEq, Repr

namespace RuleBook

def empty : RuleBook := ⟨.empty, [], [], .empty, none, []⟩

/-- The rule book with one more declaration. It replaces a pattern of the same name, though not a
criterion of the same name. -/
def add (book : RuleBook) (declaration : Declaration) : RuleBook :=
  { book with
    patterns := book.patterns.insert declaration.name declaration.pattern
    criteria :=
      if declaration.isCriterion then book.criteria ++ [declaration] else book.criteria }

/-- What a name refers to, unless it is hidden. -/
def resolve (book : RuleBook) (name : String) : Option Pattern :=
  if book.hidden.contains name then none else book.patterns.get? name

def knows (book : RuleBook) (card : Card) : Bool :=
  match book.cards with
  | none => true
  | some cards => cards.contains card

def context (book : RuleBook) : Context :=
  ⟨book.resolve, book.knows⟩

/-- The rule book with a new review and with the names hidden that refer back to themselves. -/
def validate (book : RuleBook) : RuleBook :=
  let cyclic := book.patterns.cyclicNames
  let found := Pattern.review { book with hidden := [] }.context book.patterns.patterns
  { book with
    review := { found with errors := found.errors ++ cyclic.map .cyclic }
    hidden := cyclic }

/-- Validation where the cards that may turn up are those of the decks, main and side. -/
def validateAgainst (book : RuleBook) (decks : List DeckList) : RuleBook :=
  { book with cards := some (decks.flatMap DeckList.cardNames) }.validate

/-- Whether a line is malformed or a reference is wrong. -/
def hasErrors (book : RuleBook) : Bool :=
  !book.parseErrors.isEmpty || !book.review.isOk

/-- The rule book after one more line of a text, given with its number. Comments and lines without
text count for nothing, and a malformed line is only noted. -/
def addLine (book : RuleBook) (line : List Char × Nat) : Except Fault RuleBook :=
  let text := Text.trim line.1
  if Text.isComment text then .ok book
  else
    match Declaration.read text with
    | .ok declaration => .ok (book.add declaration)
    | .error (.malformed diagnostic) =>
      .ok { book with parseErrors := book.parseErrors ++ [diagnostic.atLine line.2] }
    | .error (.fault fault) => .error fault

def read (text : List Char) : Except Fault RuleBook := do
  let book ← ((Text.lines text).zipIdx 1).foldlM addLine empty
  return book.validate

/-- How deep lookups can be nested on the way through a stream. A lookup of the same name inside its
own pattern comes to an end only if cards have been used in between, or if the stream has run dry. -/
def depth (book : RuleBook) (stream : List Split) : Nat :=
  book.patterns.size * ((stream.map (·.remaining.size)).foldl max 0 + 2)

def evaluate (book : RuleBook) (pattern : Pattern) : Step := fun stream =>
  book.context.step (book.depth stream) pattern stream

def satisfies (book : RuleBook) (hand : Pile) (pattern : Pattern) : Except Fault Bool := do
  let stream ← book.evaluate pattern [.ofHand hand]
  return !stream.isEmpty

def firstPassing (test : Declaration → Except Fault Bool) :
    List Declaration → Except Fault (Option Nat)
  | [] => .ok none
  | declaration :: others => do
    if ← test declaration then return some 0
    let later ← firstPassing test others
    return later.map (· + 1)

def firstMatch (book : RuleBook) (hand : Pile) : Except Fault (Option Nat) :=
  firstPassing (fun criterion => book.satisfies hand criterion.pattern) book.criteria

def firstCriterion (book : RuleBook) (hand : Pile) : Except Fault (Option Declaration) := do
  let index ← book.firstMatch hand
  return index.bind (book.criteria[·]?)

end RuleBook

end OpeningHand
