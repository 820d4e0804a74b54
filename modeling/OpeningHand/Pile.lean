import OpeningHand.Card
import OpeningHand.Fault
import OpeningHand.Random.Shuffle

/-!
# Piles of cards

A pile is a row of cards, one entry for each copy; its top is its end. Piles are values: taking a card
away gives another pile, so that the many ways of using a hand never disturb each other.
-/

namespace OpeningHand

/-- Cards in a row, with repetition. -/
structure Pile where
  cards : List Card
deriving DecidableEq, Repr

namespace Pile

def empty : Pile := ⟨[]⟩

def size (pile : Pile) : Nat := pile.cards.length

def isEmpty (pile : Pile) : Bool := pile.cards.isEmpty

def has (pile : Pile) (card : Card) : Bool := pile.cards.contains card

def count (pile : Pile) (card : Card) : Nat := pile.cards.count card

def add (pile : Pile) (card : Card) : Pile := ⟨pile.cards ++ [card]⟩

/-- One copy less of the card, the lowest one; a card that is not there cannot be taken. -/
def remove (pile : Pile) (card : Card) : Except Fault Pile :=
  match pile.cards.idxOf? card with
  | some index => .ok ⟨pile.cards.eraseIdx index⟩
  | none => .error (.absentCard card)

/-- Cards are taken off the top of a stack and put on those drawn before, one by one, until as many as
asked for have been taken or none is left. -/
def drawOnto (stack drawn : Array Card) : Nat → Array Card
  | 0 => drawn
  | number + 1 =>
    match stack.back? with
    | some card => drawOnto stack.pop (drawn.push card) number
    | none => drawn

def draw (pile : Pile) (number : Nat) : Pile :=
  ⟨(drawOnto pile.cards.toArray #[] number).toList⟩

def shuffle {γ : Type} [Picker γ] (pile : Pile) (source : γ) : Pile × γ :=
  let (cards, source) := Picker.shuffle source pile.cards
  (⟨cards⟩, source)

def sorted (pile : Pile) : List Card :=
  pile.cards.mergeSort (fun a b => decide (a ≤ b))

/-- Whether both piles hold the same cards equally often, in whatever order. -/
def sameCards (pile other : Pile) : Bool := pile.sorted == other.sorted

def render (pile : Pile) : String :=
  "[" ++ String.intercalate ", " pile.cards ++ "]"

@[simp] theorem size_empty : empty.size = 0 := rfl

@[simp] theorem has_empty (card : Card) : empty.has card = false := rfl

@[simp] theorem cards_add (pile : Pile) (card : Card) :
    (pile.add card).cards = pile.cards ++ [card] := rfl

/-- What is drawn is the upper end of the stack, turned around. -/
theorem toList_drawOnto (stack drawn : Array Card) (number : Nat) :
    (drawOnto stack drawn number).toList = drawn.toList ++ stack.toList.reverse.take number := by
  induction number generalizing stack drawn with
  | zero => simp [drawOnto]
  | succ number ih =>
    rw [drawOnto]
    cases htop : stack.back? with
    | none => simp [Array.back?_eq_none_iff.mp htop]
    | some card =>
      obtain ⟨lower, rfl⟩ := Array.back?_eq_some_iff.mp htop
      simp [ih]

@[simp] theorem cards_draw (pile : Pile) (number : Nat) :
    (pile.draw number).cards = pile.cards.reverse.take number := by
  simp [draw, toList_drawOnto]

/-- A pile has exactly the cards that stand in its row. -/
@[simp] theorem has_eq_true_iff (pile : Pile) (card : Card) :
    pile.has card = true ↔ card ∈ pile.cards := by
  simp [has]

theorem remove_of_has {pile : Pile} {card : Card} (h : pile.has card) :
    pile.remove card = .ok ⟨pile.cards.erase card⟩ := by
  have hmem : card ∈ pile.cards := (has_eq_true_iff pile card).mp h
  obtain ⟨index, hindex⟩ := Option.isSome_iff_exists.mp (List.isSome_idxOf?.mpr hmem)
  rw [remove, hindex, List.erase_eq_eraseIdx, hindex]

theorem remove_of_not_has {pile : Pile} {card : Card} (h : pile.has card = false) :
    pile.remove card = .error (.absentCard card) := by
  have hindex : pile.cards.idxOf? card = none := List.idxOf?_eq_none_iff.mpr (by simpa [has] using h)
  rw [remove, hindex]

end Pile

end OpeningHand
