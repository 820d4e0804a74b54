import OpeningHand.Pile

/-!
# Splits of a hand

While a pattern is looked for, every way of having used some cards of a hand is a split: the cards
still there, and the cards used so far in the order of their use.
-/

namespace OpeningHand

/-- A hand in two piles. -/
structure Split where
  remaining : Pile
  selected : Pile
deriving DecidableEq, Repr

namespace Split

def ofHand (hand : Pile) : Split :=
  ⟨hand, .empty⟩

def has (split : Split) (card : Card) : Bool :=
  split.remaining.has card

/-- The split after one more card is used; there has to be a copy of it. -/
def select (split : Split) (card : Card) : Except Fault Split := do
  let remaining ← split.remaining.remove card
  return ⟨remaining, split.selected.add card⟩

@[simp] theorem remaining_ofHand (hand : Pile) : (ofHand hand).remaining = hand := rfl

@[simp] theorem selected_ofHand (hand : Pile) : (ofHand hand).selected = .empty := rfl

theorem select_of_has {split : Split} {card : Card} (h : split.has card) :
    split.select card =
      .ok ⟨⟨split.remaining.cards.erase card⟩, split.selected.add card⟩ := by
  rw [select, Pile.remove_of_has h]
  rfl

end Split

end OpeningHand
