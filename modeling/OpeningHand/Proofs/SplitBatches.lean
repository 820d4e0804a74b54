import Mathlib
import OpeningHand.Proofs.SimulationCounts

/-!
# Batches that are split

The trials of a batch are numbered through, from one deck to the next one, and the seeds of their generators
are counted on with them, around the end of the machine numbers if need be. So no two trials share a generator
unless there are more trials than seeds. And it makes no difference where one deck ends and the next one
begins: many hands from one deck are fewer hands from each of several copies of it.
-/

namespace OpeningHand

def Settings.generator (settings : Settings) (seed : UInt64) (d i : ℕ) : Generator :=
  .ofTrial (seed + (d * settings.iterations).toUInt64) i.toUInt64

/-- A range falls into windows of equal width. -/
theorem range_mul_eq_flatMap (k n : ℕ) :
    List.range (k * n) = (List.range k).flatMap fun d => (List.range n).map (d * n + ·) := by
  induction k with
  | zero => rw [Nat.zero_mul, List.range_zero, List.flatMap_nil]
  | succ k ih =>
    rw [Nat.succ_mul, List.range_add, ih, List.range_succ, List.flatMap_append, List.flatMap_singleton]

theorem countP_range_mul (k n : ℕ) (p : ℕ → Bool) : (List.range (k * n)).countP p =
    ((List.range k).map fun d => (List.range n).countP fun i => p (d * n + i)).sum := by
  rw [range_mul_eq_flatMap, List.countP_flatMap]
  simp only [Function.comp_def, List.countP_map]

theorem forall_lt_mul_iff {k n : ℕ} {p : ℕ → Prop} :
    (∀ j < k * n, p j) ↔ ∀ d < k, ∀ i < n, p (d * n + i) := by
  simp only [← List.mem_range, range_mul_eq_flatMap, List.forall_mem_flatMap, List.forall_mem_map]

/-! ### The seeds of a batch -/

section Seeds

variable (settings : Settings) (seed : UInt64) {decks d d' i i' : ℕ}

theorem seed_generator (d i : ℕ) :
    (settings.generator seed d i).seed = seed + .ofNat (d * settings.iterations + i) := by
  rw [Settings.generator, Generator.seed_ofTrial, UInt64.ofNat_add, UInt64.add_assoc]

theorem index_lt (hd : d < decks) (hi : i < settings.iterations) :
    d * settings.iterations + i < decks * settings.iterations :=
  calc d * settings.iterations + i
    _ < d * settings.iterations + settings.iterations := Nat.add_lt_add_left hi _
    _ = (d + 1) * settings.iterations := (Nat.succ_mul ..).symm
    _ ≤ decks * settings.iterations := Nat.mul_le_mul_right _ hd

theorem index_div (hi : i < settings.iterations) :
    (d * settings.iterations + i) / settings.iterations = d := by
  rw [Nat.mul_comm, Nat.mul_add_div (Nat.zero_lt_of_lt hi), Nat.div_eq_of_lt hi, Nat.add_zero]

/-- As long as there are no more trials than seeds, their numbers are told apart by their seeds. -/
theorem eq_of_seed_generator_eq (hsize : decks * settings.iterations ≤ UInt64.size) (hd : d < decks)
    (hi : i < settings.iterations) (hd' : d' < decks) (hi' : i' < settings.iterations)
    (h : (settings.generator seed d i).seed = (settings.generator seed d' i').seed) :
    d = d' ∧ i = i' := by
  rw [seed_generator, seed_generator] at h
  have hofNat := (UInt64.add_right_inj seed).mp h
  have hindex : d * settings.iterations + i = d' * settings.iterations + i' := by
    have hlt := (index_lt settings hd hi).trans_le hsize
    have hlt' := (index_lt settings hd' hi').trans_le hsize
    rw [← UInt64.toNat_ofNat_of_lt' hlt, hofNat, UInt64.toNat_ofNat_of_lt' hlt']
  obtain rfl : d = d' :=
    calc d = (d * settings.iterations + i) / settings.iterations := (index_div settings hi).symm
      _ = (d' * settings.iterations + i') / settings.iterations := by rw [hindex]
      _ = d' := index_div settings hi'
  exact ⟨rfl, Nat.add_left_cancel hindex⟩

/-- With more trials, two of them share a seed. -/
theorem mul_le_size_of_injective
    (h : ∀ d < decks, ∀ i < settings.iterations, ∀ d' < decks, ∀ i' < settings.iterations,
      (settings.generator seed d i).seed = (settings.generator seed d' i').seed → d = d' ∧ i = i') :
    decks * settings.iterations ≤ UInt64.size := by
  have hinjective : Function.Injective fun trial : Fin decks × Fin settings.iterations =>
      (settings.generator seed trial.1 trial.2).seed.toFin := by
    rintro ⟨d, i⟩ ⟨d', i'⟩ hseed
    obtain ⟨hd, hi⟩ := h d d.isLt i i.isLt d' d'.isLt i' i'.isLt (UInt64.toFin_inj.mp hseed)
    exact Prod.ext (Fin.ext hd) (Fin.ext hi)
  have hcard := Fintype.card_le_of_injective _ hinjective
  rwa [Fintype.card_prod, Fintype.card_fin, Fintype.card_fin, Fintype.card_fin] at hcard

end Seeds

namespace RuleBook

/-! ### One deck and copies of it -/

variable {γ : Type} [Picker γ] {book : RuleBook} {settings : Settings} {seed : UInt64} {deck : DeckList}
  {k n : ℕ}

/-- The hands of a deck are those of its copies, one copy after the other. -/
theorem hand_split (d i : ℕ) : deck.hand γ { settings with iterations := k * n } seed 0 (d * n + i) =
    deck.hand γ { settings with iterations := n } seed d i := by
  simp only [DeckList.hand, Nat.zero_mul, Nat.add_zero, Nat.add_assoc]

theorem testable_split : book.Testable γ { settings with iterations := k * n } seed deck 0 ↔
    ∀ d < k, book.Testable γ { settings with iterations := n } seed deck d := by
  simp only [Testable, forall_lt_mul_iff, hand_split]

theorem hitCount_split (index : ℕ) :
    book.hitCount γ { settings with iterations := k * n } seed deck 0 index =
      ((List.range k).map fun d =>
        book.hitCount γ { settings with iterations := n } seed deck d index).sum := by
  simp only [hitCount, countP_range_mul, hand_split]

theorem missCount_split : book.missCount γ { settings with iterations := k * n } seed deck 0 =
    ((List.range k).map fun d =>
      book.missCount γ { settings with iterations := n } seed deck d).sum := by
  simp only [missCount, countP_range_mul, hand_split]

/-- Copies of a deck differ in their numbers only. -/
theorem map_zipIdx_replicate (copy : DeckList → ℕ → ℕ) :
    ((List.replicate k deck).zipIdx.map fun (deck, d) => copy deck d) =
      (List.range k).map (copy deck) := by
  apply List.ext_getElem
  · simp
  · simp

theorem simulate_replicate_eq_ok_iff {otherSeed : UInt64} {results : Results}
    (hseed : settings.seed = some seed) :
    book.simulate settings otherSeed (List.replicate k deck) γ = .ok results ↔
      (∀ d < k, book.Testable γ settings seed deck d) ∧
        results = book.exactResults γ settings seed (List.replicate k deck) := by
  have htestable : (∀ d copy, (List.replicate k deck)[d]? = some copy →
      book.Testable γ settings seed copy d) ↔ ∀ d < k, book.Testable γ settings seed deck d := by
    constructor
    · intro h d hd
      exact h d deck (by rw [List.getElem?_replicate, if_pos hd])
    · intro h d copy hcopy
      rw [List.getElem?_replicate] at hcopy
      split at hcopy
      · next hd =>
        obtain rfl := Option.some.inj hcopy
        exact h d hd
      · cases hcopy
  rw [simulate_eq_ok_iff hseed, htestable]

/-- A deck is one copy of itself. -/
theorem simulate_singleton_eq_ok_iff {otherSeed : UInt64} {results : Results}
    (hseed : settings.seed = some seed) : book.simulate settings otherSeed [deck] γ = .ok results ↔
      book.Testable γ settings seed deck 0 ∧ results = book.exactResults γ settings seed [deck] := by
  rw [← List.replicate_one, simulate_replicate_eq_ok_iff hseed]
  simp only [Nat.lt_one_iff, forall_eq]

theorem matchCounts_replicate : (book.exactResults γ settings seed (List.replicate k deck)).matchCounts =
    (List.range book.criteria.length).map fun index =>
      (List.range k).map fun d => book.hitCount γ settings seed deck d index := by
  rw [matchCounts_exactResults]
  exact List.map_congr_left fun index _ =>
    map_zipIdx_replicate fun deck d => book.hitCount γ settings seed deck d index

theorem noMatchCounts_replicate :
    (book.exactResults γ settings seed (List.replicate k deck)).noMatchCounts =
      (List.range k).map fun d => book.missCount γ settings seed deck d := by
  rw [noMatchCounts_exactResults]
  exact map_zipIdx_replicate fun deck d => book.missCount γ settings seed deck d

/-- The trials of a batch are those with these generators. No two of them share a seed exactly if there are
no more trials than seeds. Many hands from one deck can be tested exactly if fewer hands from each of its
copies can be, and then the counts for the deck are the sums of those for its copies. -/
theorem simulate_split (γ : Type) [Picker γ] (settings : Settings) (seed : UInt64) :
    (∀ (book : RuleBook) deck d i,
      book.numberedTrial γ settings deck (seed + (d * settings.iterations).toUInt64) i =
        book.trial deck settings.draw (Picker.ofSeed (settings.generator seed d i).seed : γ)) ∧
    (∀ decks, decks * settings.iterations ≤ UInt64.size ↔
      ∀ d < decks, ∀ i < settings.iterations, ∀ d' < decks, ∀ i' < settings.iterations,
        (settings.generator seed d i).seed = (settings.generator seed d' i').seed → d = d' ∧ i = i') ∧
    ∀ (book : RuleBook) deck otherSeed k n, settings.seed = some seed →
      let whole := book.simulate { settings with iterations := k * n } otherSeed [deck] γ
      let parts := book.simulate { settings with iterations := n } otherSeed (List.replicate k deck) γ
      ((∃ results, whole = .ok results) ↔ ∃ results, parts = .ok results) ∧
      (book.Validated → ∃ results, whole = .ok results) ∧
      ∀ results pieces, whole = .ok results → parts = .ok pieces →
        results.matchCounts = pieces.matchCounts.map (fun row => [row.sum]) ∧
        results.noMatchCounts = [pieces.noMatchCounts.sum] ∧
        (∀ row ∈ pieces.matchCounts, row.length = k) ∧ pieces.noMatchCounts.length = k := by
  refine ⟨fun book deck d i => rfl, fun decks => ⟨?_, mul_le_size_of_injective settings seed⟩, ?_⟩
  · intro hsize d hd i hi d' hd' i' hi'
    exact eq_of_seed_generator_eq settings seed hsize hd hi hd' hi'
  · intro book deck otherSeed k n hseed whole parts
    have hwholeSeed : { settings with iterations := k * n }.seed = some seed := hseed
    have hpartsSeed : { settings with iterations := n }.seed = some seed := hseed
    have hwhole (results : Results) : whole = .ok results ↔
        book.Testable γ { settings with iterations := k * n } seed deck 0 ∧
          results = book.exactResults γ { settings with iterations := k * n } seed [deck] :=
      simulate_singleton_eq_ok_iff hwholeSeed
    have hparts (results : Results) : parts = .ok results ↔
        (∀ d < k, book.Testable γ { settings with iterations := n } seed deck d) ∧
          results = book.exactResults γ { settings with iterations := n } seed (.replicate k deck) :=
      simulate_replicate_eq_ok_iff hpartsSeed
    refine ⟨?_, ?_, ?_⟩
    · simp only [hwhole, hparts, testable_split, exists_and_left, exists_eq, and_true]
    · intro hvalidated
      exact ⟨_, (hwhole _).mpr ⟨hvalidated.testable, rfl⟩⟩
    · intro results pieces hresults hpieces
      obtain ⟨-, rfl⟩ := (hwhole results).mp hresults
      obtain ⟨-, rfl⟩ := (hparts pieces).mp hpieces
      rw [← List.replicate_one, matchCounts_replicate, matchCounts_replicate, noMatchCounts_replicate,
        noMatchCounts_replicate]
      refine ⟨?_, ?_, ?_, ?_⟩
      · rw [List.map_map]
        refine List.map_congr_left fun index _ => ?_
        rw [List.range_one, List.map_singleton, hitCount_split]
        rfl
      · rw [List.range_one, List.map_singleton, missCount_split]
      · rw [List.forall_mem_map]
        intro index _
        rw [List.length_map, List.length_range]
      · rw [List.length_map, List.length_range]

/-- Four hands from a deck, or two from each of two copies of it; the seeds wrap around between them. -/
theorem simulate_split_pair :
    (pairSettings.generator 18446744073709551614 0 3).seed ≠
      (pairSettings.generator 18446744073709551614 1 0).seed ∧
    ∃ pieces, pairBook.simulate { pairSettings with iterations := 2 } 0
        (.replicate 2 ⟨⟨["x", "y", "y"]⟩, .empty⟩) = .ok pieces ∧
      [[1], [0]] = pieces.matchCounts.map (fun row => [row.sum]) ∧ [3] = [pieces.noMatchCounts.sum] := by
  obtain ⟨-, hseeds, hsplit⟩ := simulate_split Generator pairSettings 18446744073709551614
  constructor
  · intro h
    obtain ⟨hd, -⟩ := (hseeds 2).mp (by decide) 0 (by decide) 3 (by decide) 1 (by decide) 0 (by decide) h
    cases hd
  · have hwhole : pairBook.simulate { pairSettings with iterations := 2 * 2 } 0
        [⟨⟨["x", "y", "y"]⟩, .empty⟩] =
          .ok ⟨4, 2, 18446744073709551614, ["both", "one"], [3], [[1], [0]], [3]⟩ := by decide +kernel
    obtain ⟨hboth, -, hcounts⟩ := hsplit pairBook ⟨⟨["x", "y", "y"]⟩, .empty⟩ 0 2 2 rfl
    obtain ⟨pieces, hpieces⟩ := hboth.mp ⟨_, hwhole⟩
    obtain ⟨hhits, hmisses, -, -⟩ := hcounts _ pieces hwhole hpieces
    exact ⟨pieces, hpieces, hhits, hmisses⟩

end RuleBook

end OpeningHand
