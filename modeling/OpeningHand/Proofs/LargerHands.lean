import Mathlib
import OpeningHand.Proofs.CardDemands
import OpeningHand.Proofs.SimulationCounts

/-!
# Larger hands

A deck is shuffled before anything is known about the number of cards to draw. So the larger hand of a
trial has all the cards of the smaller one, and it satisfies every criterion without absences that the
smaller one satisfies. The first criterion satisfied may be another one, but only an earlier one.
-/

namespace OpeningHand

theorem Pile.bag_draw_le (pile : Pile) {number more : ℕ} (h : number ≤ more) :
    (pile.draw number).bag ≤ (pile.draw more).bag := by
  rw [Pile.bag, Pile.bag, cards_draw, cards_draw, Multiset.coe_le]
  exact (List.take_sublist_take_left h).subperm

theorem DeckList.bag_hand_le (γ : Type) [Picker γ] (deck : DeckList) (settings : Settings) {more : ℕ}
    (h : settings.draw ≤ more) (seed : UInt64) (d i : ℕ) : (deck.hand γ settings seed d i).bag ≤
      (deck.hand γ { settings with draw := more } seed d i).bag :=
  Pile.bag_draw_le _ h

namespace RuleBook

/-- No pattern of the rule book has an absence in it. -/
structure Affirms (book : RuleBook) : Prop where
  patterns : ∀ pattern ∈ book.patterns.patterns, pattern.affirms = true
  criteria : ∀ criterion ∈ book.criteria, criterion.pattern.affirms = true

def EarlySatisfied (book : RuleBook) (hand : Pile) (count : ℕ) : Prop :=
  ∃ index < count, book.FirstSatisfied hand index

instance (book : RuleBook) (hand : Pile) (count : ℕ) : Decidable (book.EarlySatisfied hand count) :=
  inferInstanceAs (Decidable (∃ index < count, book.FirstSatisfied hand index))

variable {book : RuleBook} {hand larger : Pile}

theorem earlySatisfied_succ_iff {count : ℕ} : book.EarlySatisfied hand (count + 1) ↔
    book.EarlySatisfied hand count ∨ book.FirstSatisfied hand count :=
  Nat.exists_lt_succ_right

theorem not_firstSatisfied_of_early {count : ℕ} (h : book.EarlySatisfied hand count) :
    ¬book.FirstSatisfied hand count := by
  obtain ⟨index, hindex, hfirst⟩ := h
  intro hlater
  have hsame := (firstMatch_eq_some_iff.mpr hfirst).symm.trans (firstMatch_eq_some_iff.mpr hlater)
  exact hindex.ne (Option.some.inj (Except.ok.inj hsame))

/-! ### One hand inside another -/

theorem Affirms.affirmative (h : book.Affirms) {criterion : Declaration}
    (hcriterion : criterion ∈ book.criteria) : book.context.Affirmative criterion.pattern := by
  refine Context.affirmative_of_affirms (fun name found hfound => ?_) (h.criteria criterion hcriterion)
  exact h.patterns found (Registry.mem_patterns_of_get? (resolve_eq_some_iff.mp hfound).1)

/-- More cards never break a criterion. -/
theorem Affirms.not_satisfies_false (h : book.Affirms) (hle : hand.bag ≤ larger.bag)
    {criterion : Declaration} (hcriterion : criterion ∈ book.criteria)
    (hsatisfied : book.satisfies hand criterion.pattern = .ok true) :
    book.satisfies larger criterion.pattern ≠ .ok false := by
  intro hbroken
  obtain ⟨out, hout, hsome⟩ := exists_of_bind_eq_ok hsatisfied
  obtain ⟨more, hmore, hnone⟩ := exists_of_bind_eq_ok hbroken
  obtain ⟨⟩ : more = [] := by simpa using Except.ok.inj hnone
  refine (h.affirmative hcriterion).ne_nil_of_le hle ⟨_, hout⟩ ⟨_, hmore⟩ ?_ rfl
  rintro rfl
  cases hsome

theorem Affirms.earlySatisfied_of_le (h : book.Affirms) (hle : hand.bag ≤ larger.bag)
    (htested : ∃ outcome, book.firstMatch larger = .ok outcome) {count : ℕ}
    (hearly : book.EarlySatisfied hand count) : book.EarlySatisfied larger count := by
  obtain ⟨index, hindex, ⟨criterion, hfound, hsatisfied⟩, -⟩ := hearly
  have hbroken := h.not_satisfies_false hle (List.mem_of_getElem? hfound) hsatisfied
  obtain ⟨outcome, houtcome⟩ := htested
  cases outcome with
  | none =>
    have hnone := firstMatch_eq_none_iff.mp houtcome
    exact (hbroken (hnone criterion (List.mem_of_getElem? hfound))).elim
  | some other =>
    have hfirst := firstMatch_eq_some_iff.mp houtcome
    refine ⟨other, ?_, hfirst⟩
    -- Otherwise the criterion would stand before the first one that the larger hand satisfies.
    by_contra hlater
    have hmem : criterion ∈ book.criteria.take other := by
      apply List.mem_of_getElem? (i := index)
      rw [List.getElem?_take_of_lt (by omega), hfound]
    exact hbroken (hfirst.before criterion hmem)

theorem Affirms.noneSatisfied_of_le (h : book.Affirms) (hle : hand.bag ≤ larger.bag)
    (htested : ∃ outcome, book.firstMatch hand = .ok outcome) (hnone : book.NoneSatisfied larger) :
    book.NoneSatisfied hand := by
  obtain ⟨outcome, houtcome⟩ := htested
  cases outcome with
  | none => exact firstMatch_eq_none_iff.mp houtcome
  | some index =>
    obtain ⟨⟨criterion, hfound, hsatisfied⟩, -⟩ := firstMatch_eq_some_iff.mp houtcome
    have hmem := List.mem_of_getElem? hfound
    exact (h.not_satisfies_false hle hmem hsatisfied (hnone criterion hmem)).elim

/-! ### The counts of two simulations -/

variable {γ : Type} [Picker γ] {settings : Settings} {seed : UInt64} {deck : DeckList} {d : ℕ}

/-- The counts of the first criteria add up to the hands that satisfy one of them. -/
theorem sum_hitCount_eq_countP (count : ℕ) :
    ((List.range count).map (book.hitCount γ settings seed deck d)).sum =
      (List.range settings.iterations).countP fun i =>
        book.EarlySatisfied (deck.hand γ settings seed d i) count := by
  induction count with
  | zero =>
    rw [eq_comm, List.range_zero, List.map_nil, List.sum_nil, List.countP_eq_zero]
    intro i _ hearly
    obtain ⟨index, hindex, -⟩ := of_decide_eq_true hearly
    exact Nat.not_lt_zero index hindex
  | succ count ih =>
    rw [List.range_succ, List.map_append, List.sum_append, ih, List.map_singleton,
      List.sum_singleton, eq_comm]
    apply countP_eq_add_of_disjoint
    · intro i
      simp only [decide_eq_true_iff]
      exact earlySatisfied_succ_iff
    · intro i
      simp only [decide_eq_true_iff]
      exact not_firstSatisfied_of_early

section Draws

variable (h : book.Affirms) {more : ℕ} (hmore : settings.draw ≤ more)
include h hmore

theorem Affirms.missCount_le (htestable : book.Testable γ settings seed deck d) :
    book.missCount γ { settings with draw := more } seed deck d ≤
      book.missCount γ settings seed deck d := by
  apply List.countP_mono_left
  intro i hi
  simp only [decide_eq_true_iff]
  exact h.noneSatisfied_of_le (deck.bag_hand_le γ settings hmore seed d i)
    (htestable i (List.mem_range.mp hi))

theorem Affirms.sum_hitCount_le (htestable : book.Testable γ { settings with draw := more } seed deck d)
    (count : ℕ) : ((List.range count).map (book.hitCount γ settings seed deck d)).sum ≤
      ((List.range count).map (book.hitCount γ { settings with draw := more } seed deck d)).sum := by
  rw [sum_hitCount_eq_countP, sum_hitCount_eq_countP]
  apply List.countP_mono_left
  intro i hi
  simp only [decide_eq_true_iff]
  exact h.earlySatisfied_of_le (deck.bag_hand_le γ settings hmore seed d i)
    (htestable i (List.mem_range.mp hi))

end Draws

/-- Without absences, drawing more cards never hurts. From every deck there are at most as many hands
without a criterion, and the first criteria, however many of them, claim at least as many hands together.
Both simulations have results in a validated rule book. -/
theorem draw_more_misses_fewer (γ : Type) [Picker γ] (h : book.Affirms)
    (hseed : settings.seed = some seed) {more : ℕ} (hmore : settings.draw ≤ more) (otherSeed : UInt64)
    (decks : List DeckList) :
    (book.Validated → ∃ results later, book.simulate settings otherSeed decks γ = .ok results ∧
      book.simulate { settings with draw := more } otherSeed decks γ = .ok later) ∧
    ∀ results later, book.simulate settings otherSeed decks γ = .ok results →
      book.simulate { settings with draw := more } otherSeed decks γ = .ok later → ∀ d < decks.length,
        (∃ misses fewer, results.noMatch d = .ok misses ∧ later.noMatch d = .ok fewer ∧
          fewer ≤ misses) ∧
        ∃ column column', results.column d = .ok column ∧ later.column d = .ok column' ∧
          column.length = book.criteria.length ∧ column'.length = book.criteria.length ∧
          ∀ c < book.criteria.length, (column.take (c + 1)).sum ≤ (column'.take (c + 1)).sum := by
  have hseed' : { settings with draw := more }.seed = some seed := hseed
  constructor
  · intro hvalidated
    exact ⟨_, _, hvalidated.simulate_eq_ok hseed otherSeed decks,
      hvalidated.simulate_eq_ok hseed' otherSeed decks⟩
  · intro results later hresults hlater d hd
    obtain ⟨htestable, rfl⟩ := (simulate_eq_ok_iff hseed).mp hresults
    obtain ⟨htestable', rfl⟩ := (simulate_eq_ok_iff hseed').mp hlater
    have hexact := exact_exactResults γ book settings seed decks
    have hexact' := exact_exactResults γ book { settings with draw := more } seed decks
    have hdeck : decks[d]? = some decks[d] := List.getElem?_eq_getElem hd
    refine ⟨⟨_, _, hexact.noMatch d _ hdeck, hexact'.noMatch d _ hdeck,
      h.missCount_le hmore (htestable d _ hdeck)⟩, _, _, hexact.column d _ hdeck,
      hexact'.column d _ hdeck, by simp, by simp, ?_⟩
    intro c hc
    have hcount : min (c + 1) book.criteria.length = c + 1 := Nat.min_eq_left hc
    rw [← List.map_take, ← List.map_take, List.take_range, hcount]
    exact h.sum_hitCount_le hmore (htestable' d _ hdeck) (c + 1)

theorem draw_more_misses_fewer_pair : pairBook.Affirms ∧ pairSettings.draw ≤ 3 ∧
    pairBook.simulate pairSettings 0 pairDecks = .ok pairResults ∧
    ∃ later, pairBook.simulate { pairSettings with draw := 3 } 0 pairDecks = .ok later ∧
      ∃ fewer column, later.noMatch 0 = .ok fewer ∧ fewer ≤ 3 ∧ later.column 0 = .ok column ∧
        1 ≤ (column.take 2).sum := by
  have haffirms : pairBook.Affirms := by
    constructor
    · have hpatterns : pairBook.patterns.patterns = [.all [.card "x", .card "y"], .card "x"] := by cbv
      intro pattern hpattern
      rw [hpatterns] at hpattern
      rcases List.mem_pair.mp hpattern with rfl | rfl <;> rfl
    · intro criterion hcriterion
      rcases List.mem_pair.mp hcriterion with rfl | rfl <;> rfl
  have hdraw : pairSettings.draw ≤ 3 := by decide
  have hresults : pairBook.simulate pairSettings 0 pairDecks = .ok pairResults := by decide +kernel
  have hseed : pairSettings.seed = some 18446744073709551614 := rfl
  obtain ⟨hexist, hcounts⟩ := draw_more_misses_fewer Generator haffirms hseed hdraw 0 pairDecks
  obtain ⟨_, later, -, hlater⟩ := hexist (.validate _)
  obtain ⟨⟨misses, fewer, hmisses, hfewer, hle⟩, column, column', hcolumn, hcolumn', -, -, hsums⟩ :=
    hcounts _ _ hresults hlater 0 (by decide)
  obtain rfl : 3 = misses := Except.ok.inj hmisses
  obtain rfl : [1, 0] = column := Except.ok.inj hcolumn
  exact ⟨haffirms, hdraw, hresults, later, hlater, fewer, column', hfewer, hle, hcolumn',
    hsums 1 (by decide)⟩

end RuleBook

end OpeningHand
