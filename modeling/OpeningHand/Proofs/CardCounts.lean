import Mathlib.Data.List.Perm.Subperm
import Mathlib.Data.List.Infix
import OpeningHand.Proofs.DealtHands

/-!
# Piles by their counts

Apart from the order of its cards, a pile is known by how often it has each card. This module says what each
operation does to the counts, and to the order where it keeps one: sorting forgets nothing else, drawing takes the
upper end off card by card, and taking a card away leaves everything around its lowest copy as it was.
-/

namespace OpeningHand.Pile

variable {pile other : Pile} {card : Card}

/-! ### Sorting -/

theorem sorted_perm (pile : Pile) : pile.sorted.Perm pile.cards :=
  List.mergeSort_perm _ _

theorem pairwise_sorted (pile : Pile) : pile.sorted.Pairwise (· ≤ ·) := by
  refine (List.pairwise_mergeSort ?_ ?_ pile.cards).imp fun hle => of_decide_eq_true hle
  · intro a b c hab hbc
    exact decide_eq_true (String.le_trans (of_decide_eq_true hab) (of_decide_eq_true hbc))
  · intro a b
    simpa using String.le_total a b

/-- Piles with the same cards in another order are sorted alike. -/
theorem sorted_eq_iff_perm : pile.sorted = other.sorted ↔ pile.cards.Perm other.cards := by
  constructor
  · intro h
    have hperm := pile.sorted_perm.symm
    rw [h] at hperm
    exact hperm.trans other.sorted_perm
  · intro h
    have hperm := (pile.sorted_perm.trans h).trans other.sorted_perm.symm
    exact hperm.eq_of_pairwise (fun _ _ _ _ => String.le_antisymm) pile.pairwise_sorted
      other.pairwise_sorted

theorem sameCards_iff_perm : pile.sameCards other = true ↔ pile.cards.Perm other.cards := by
  rw [sameCards, beq_iff_eq, sorted_eq_iff_perm]

theorem sameCards_iff_count :
    pile.sameCards other = true ↔ ∀ card, pile.count card = other.count card := by
  rw [sameCards_iff_perm, List.perm_iff_count]
  rfl

/-! ### Drawing -/

theorem size_draw (pile : Pile) (number : ℕ) : (pile.draw number).size = min number pile.size := by
  simp [size]

/-- Who draws more cards draws the same ones first. -/
theorem draw_isPrefix (pile : Pile) {number more : ℕ} (h : number ≤ more) :
    (pile.draw number).cards <+: (pile.draw more).cards := by
  rw [cards_draw, cards_draw]
  exact List.take_prefix_take_left h

theorem count_draw_le (pile : Pile) (number : ℕ) (card : Card) :
    (pile.draw number).count card ≤ pile.count card :=
  (pile.draw_subperm number).count_le card

/-! ### Taking a card away -/

/-- The lowest copy of a card is left out, and everything around it stays. -/
theorem remove_eq_ok_of_has (h : pile.has card = true) :
    ∃ below above, pile.cards = below ++ card :: above ∧ card ∉ below ∧
      pile.remove card = .ok ⟨below ++ above⟩ := by
  obtain ⟨below, above, hbelow, hcards, herase⟩ :=
    List.exists_erase_eq ((has_eq_true_iff pile card).mp h)
  exact ⟨below, above, hcards, hbelow, by rw [remove_of_has h, herase]⟩

theorem exists_remove_eq_error_iff :
    (∃ fault, pile.remove card = .error fault) ↔ pile.has card = false := by
  constructor
  · rintro ⟨fault, hfault⟩
    cases hhas : pile.has card with
    | false => rfl
    | true =>
      rw [remove_of_has hhas] at hfault
      cases hfault
  · intro habsent
    exact ⟨_, remove_of_not_has habsent⟩

/-- Whoever puts a card on a pile can take it away again, if only a copy further down. -/
theorem exists_remove_add (pile : Pile) (card : Card) :
    ∃ back, (pile.add card).remove card = .ok back ∧ back.cards.Perm pile.cards := by
  have hhas : (pile.add card).has card = true := by simp
  obtain ⟨below, above, hcards, -, hremove⟩ := remove_eq_ok_of_has hhas
  refine ⟨_, hremove, (List.perm_cons card).mp ?_⟩
  have hsplit : (card :: (below ++ above)).Perm (pile.cards ++ [card]) := by
    rw [← cards_add, hcards]
    exact List.perm_middle.symm
  exact hsplit.trans (List.perm_append_singleton card pile.cards)

/-- Two piles are the same cards exactly if they have each card equally often. A shuffle keeps the cards; a draw
takes as many as there are from the upper end, in their order from the top; only a card that is there can be taken
away, and then its lowest copy is; and a card put on a pile can be taken away again. -/
theorem operations_respect_counts {γ : Type} [Picker γ] (pile other : Pile) (card : Card)
    (number more : ℕ) (source : γ) :
    (pile.sameCards other = true ↔ ∀ card, pile.count card = other.count card) ∧
    (pile.shuffle source).1.sameCards pile = true ∧
    (pile.draw number).size = min number pile.size ∧
    (pile.draw number).cards = pile.cards.reverse.take number ∧
    (number ≤ more → (pile.draw number).cards <+: (pile.draw more).cards) ∧
    (pile.draw number).count card ≤ pile.count card ∧
    ((∃ fault, pile.remove card = .error fault) ↔ pile.has card = false) ∧
    (pile.has card = true → ∃ below above, pile.cards = below ++ card :: above ∧ card ∉ below ∧
      pile.remove card = .ok ⟨below ++ above⟩) ∧
    ∃ back, (pile.add card).remove card = .ok back ∧ back.sameCards pile = true := by
  obtain ⟨back, hremove, hback⟩ := exists_remove_add pile card
  exact ⟨sameCards_iff_count, sameCards_iff_perm.mpr (pile.shuffle_perm source),
    pile.size_draw number, pile.cards_draw number, pile.draw_isPrefix, pile.count_draw_le number card,
    exists_remove_eq_error_iff, remove_eq_ok_of_has, back, hremove, sameCards_iff_perm.mpr hback⟩

def forestPile : Pile := ⟨["island", "forest", "swamp", "forest"]⟩

/-- A forest is on top of the pile, and the one below it is taken away. -/
theorem operations_respect_counts_forests : (1 ≤ 2 ∧ forestPile.has "forest" = true) ∧
    (forestPile.draw 1).cards <+: (forestPile.draw 2).cards ∧
    ∃ below above, forestPile.cards = below ++ "forest" :: above ∧ "forest" ∉ below ∧
      forestPile.remove "forest" = .ok ⟨below ++ above⟩ := by
  have hhas : forestPile.has "forest" = true := by decide
  obtain ⟨-, -, -, -, hprefix, -, -, hremove, -⟩ :=
    operations_respect_counts forestPile empty "forest" 1 2 (Generator.ofSeed 7)
  exact ⟨⟨by decide, hhas⟩, hprefix (by decide), hremove hhas⟩

example : (forestPile.draw 3).cards = ["forest", "swamp", "forest"] := by decide

example : forestPile.remove "forest" = .ok ⟨["island", "swamp", "forest"]⟩ := by rfl

end OpeningHand.Pile
