import OpeningHand.Pile
import OpeningHand.Text.Lines
import OpeningHand.Text.Numeral

/-!
# Deck lists

A deck list names, line by line, how many copies of which card are in the main deck or on the side.
A line may put the card on the side with "SB" in front, say the number of copies, with or without an x
behind it, and name an edition between square brackets. From a line that begins with "sideboard" on,
all cards are on the side.
-/

namespace OpeningHand

structure DeckEntry where
  isMain : Bool
  edition : Option (List Char)
  count : Nat
  card : Card
deriving DecidableEq, Repr

namespace DeckEntry

/-- Whether a line is about the main deck, and the line without what says so. -/
def splitSide (line : List Char) : Bool × List Char :=
  match line with
  | 'S' :: 'B' :: ':' :: rest => (false, Text.trimStart rest)
  | 'S' :: 'B' :: rest => if Text.startsBlank rest then (false, Text.trimStart rest) else (true, line)
  | _ => (true, line)

/-- The number of copies at the beginning of a text, and the text behind it. Digits are a number of
copies only with a blank behind them, or behind an x that follows them, and if the number is not too
large; otherwise they belong to the name and there is one copy. -/
def splitCount (text : List Char) : Nat × List Char :=
  let after :=
    match text.dropWhile Char.isDigit with
    | 'x' :: rest => rest
    | rest => rest
  if Text.startsBlank after then
    match Text.readNumeral? (text.takeWhile Char.isDigit) with
    | some count => (count, Text.trimStart after)
    | none => (1, text)
  else (1, text)

/-- The edition between brackets at the beginning of a text, and the name behind it. The edition ends
at the last closing bracket; without a name behind that, the brackets belong to the name. -/
def splitEdition (text : List Char) : Option (List Char) × List Char :=
  match text with
  | '[' :: rest =>
    let name := Text.trimStart (rest.reverse.takeWhile (· != ']')).reverse
    if rest.contains ']' && !name.isEmpty then
      (some ((rest.reverse.dropWhile (· != ']')).drop 1).reverse, name)
    else (none, text)
  | _ => (none, text)

def read? (line : List Char) : Option DeckEntry :=
  let line := Text.trim line
  if Text.isComment line then none
  else
    let (isMain, text) := splitSide line
    let (count, text) := splitCount text
    let (edition, name) := splitEdition text
    if name.isEmpty then none else some ⟨isMain, edition, count, .ofName name⟩

/-- The copies of the card, one by one. No bound is set to the room that they take. -/
def copies (entry : DeckEntry) : List Card :=
  List.replicate entry.count entry.card

end DeckEntry

/-- The cards of a deck. Hands are drawn from the main deck alone. -/
structure DeckList where
  main : Pile
  side : Pile
deriving DecidableEq, Repr

namespace DeckList

def empty : DeckList := ⟨.empty, .empty⟩

def isSideHeader (line : List Char) : Bool :=
  "sideboard".toList.isPrefixOf (Text.lowercase (Text.trim line))

/-- The cards of some lines, main deck first, where `onSide` says whether a header has been read
already. -/
def collect (onSide : Bool) : List (List Char) → List Card × List Card
  | [] => ([], [])
  | line :: lines =>
    if isSideHeader line then collect true lines
    else
      match DeckEntry.read? line with
      | none => collect onSide lines
      | some entry =>
        let (main, side) := collect onSide lines
        if entry.isMain && !onSide then (entry.copies ++ main, side)
        else (main, entry.copies ++ side)

def read (text : List Char) : DeckList :=
  let (main, side) := collect false (Text.lines text)
  ⟨⟨main⟩, ⟨side⟩⟩

/-- The different cards of the deck, main or side, in the order of their names. -/
def cardNames (deck : DeckList) : List Card :=
  (Pile.mk (deck.main.cards ++ deck.side.cards)).sorted.eraseReps

@[simp] theorem collect_nil (onSide : Bool) : collect onSide [] = ([], []) := rfl

@[simp] theorem read_nil : read [] = empty := rfl

end DeckList

end OpeningHand
