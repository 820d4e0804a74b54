import Mathlib.Data.List.Perm.Subperm
import OpeningHand.Simulation

/-!
# What a deck deals

Every swap of a shuffle leaves the same cards in another order, so a hand has no card more often than the
main deck has it, whatever the source of the picks. The cards of the side are listed with those of the main deck, but
never dealt.
-/

namespace OpeningHand

namespace Shuffle

variable {α : Type}

theorem swapIfInBounds_perm (items : Array α) (slot other : ℕ) :
    (items.swapIfInBounds slot other).Perm items := by
  rw [Array.swapIfInBounds_def]
  split_ifs
  · exact Array.swap_perm _ _
  · exact .refl items
  · exact .refl items

theorem swapDown_perm (items : Array α) (top : ℕ) (picks : List ℕ) :
    (swapDown items top picks).Perm items := by
  induction top generalizing items picks with
  | zero =>
    rw [swapDown_zero]
  | succ top ih =>
    cases picks with
    | nil => rw [swapDown_nil]
    | cons pick picks =>
      rw [swapDown_succ_cons]
      exact (ih _ picks).trans (swapIfInBounds_perm items (top + 1) pick)

/-- Whatever the picks, the row keeps its items. -/
theorem arrange_perm (items : List α) (picks : List ℕ) : (arrange items picks).Perm items :=
  Array.perm_iff_toList_perm.mp (swapDown_perm items.toArray (items.length - 1) picks)

end Shuffle

variable {γ : Type} [Picker γ]

theorem Pile.shuffle_perm (pile : Pile) (source : γ) : (pile.shuffle source).1.cards.Perm pile.cards :=
  Shuffle.arrange_perm pile.cards _

theorem Pile.draw_subperm (pile : Pile) (number : ℕ) : (pile.draw number).cards.Subperm pile.cards := by
  rw [cards_draw]
  exact (List.take_sublist number _).subperm.trans (List.reverse_perm pile.cards).subperm

namespace DeckList

variable {deck : DeckList} {card : Card}

/-- A hand takes its cards from the main deck, each copy at most once. -/
theorem deal_subperm (deck : DeckList) (draw : ℕ) (source : γ) :
    (deck.deal draw source).1.cards.Subperm deck.main.cards :=
  (Pile.draw_subperm _ draw).trans (deck.main.shuffle_perm source).subperm

/-! ### The names of the cards -/

theorem mem_eraseRepsBy_loop {last item : Card} {items earlier : List Card} :
    item ∈ List.eraseRepsBy.loop (· == ·) last items earlier ↔
      item ∈ earlier ∨ item = last ∨ item ∈ items := by
  induction items generalizing last earlier with
  | nil => simp [List.eraseRepsBy.loop, or_comm]
  | cons next items ih =>
    rw [List.eraseRepsBy.loop]
    split
    · next heq =>
      rw [ih, eq_of_beq heq, List.mem_cons]
      tauto
    · rw [ih, List.mem_cons, List.mem_cons]
      tauto

theorem mem_eraseReps {cards : List Card} : card ∈ cards.eraseReps ↔ card ∈ cards := by
  cases cards with
  | nil => rfl
  | cons first cards =>
    rw [List.eraseReps, List.eraseRepsBy, mem_eraseRepsBy_loop, List.mem_cons]
    simp

/-- The cards that a deck names are those of its main deck and those of its side. -/
theorem mem_cardNames_iff : card ∈ deck.cardNames ↔ card ∈ deck.main.cards ∨ card ∈ deck.side.cards := by
  rw [cardNames, mem_eraseReps, Pile.sorted, List.mem_mergeSort, List.mem_append]

end DeckList

/-- The cards that may turn up are those that some deck names. -/
theorem RuleBook.knows_validateAgainst (book : RuleBook) (decks : List DeckList) (card : Card) :
    (book.validateAgainst decks).knows card = false ↔
      ∀ deck ∈ decks, card ∉ deck.main.cards ∧ card ∉ deck.side.cards := by
  change (decks.flatMap DeckList.cardNames).contains card = false ↔ _
  rw [List.contains_eq_mem, decide_eq_false_iff_not, List.mem_flatMap]
  simp only [DeckList.mem_cardNames_iff]
  grind

end OpeningHand
