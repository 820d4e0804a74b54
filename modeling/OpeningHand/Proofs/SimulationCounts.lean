import Mathlib
import OpeningHand.Proofs.HandPartition
import OpeningHand.Proofs.TallyCounts
import OpeningHand.Proofs.ValidatedBooks

/-!
# What the results of a simulation count

Every hand of a simulation has a number, and with it a seed: the hands of a deck come after those of the
decks before it. The entry of a criterion and a deck is the number of hands from that deck that satisfy
the criterion, but none before it; so every hand is counted once in the column of its deck, and a column
depends on its own deck and the place of the deck only. Counting itself never goes wrong. If there are no
results, some hand could not be tested, because of references that never end.
-/

namespace OpeningHand

theorem mapM_eq_ok_iff {ε α β : Type} {f : α → Except ε β} {row : List α} {values : List β} :
    row.mapM f = .ok values ↔ List.Forall₂ (fun a b => f a = .ok b) row values := by
  induction row generalizing values with
  | nil =>
    rw [List.forall₂_nil_left_iff]
    exact ⟨fun h => (Except.ok.inj h).symm, fun h => h ▸ rfl⟩
  | cons a row ih =>
    rw [List.mapM_cons, List.forall₂_cons_left_iff]
    constructor
    · intro h
      obtain ⟨b, hb, h⟩ := exists_of_bind_eq_ok h
      obtain ⟨others, hothers, h⟩ := exists_of_bind_eq_ok h
      exact ⟨b, others, hb, ih.mp hothers, (Except.ok.inj h).symm⟩
    · rintro ⟨b, others, hb, hothers, rfl⟩
      rw [hb, ih.mpr hothers]
      rfl

theorem Ensures.mapM {α β : Type} {f : α → Except Fault β} {good : β → Prop} {row : List α}
    (h : ∀ a ∈ row, Ensures good (f a)) :
    Ensures (fun values => ∀ b ∈ values, good b) (row.mapM f) := by
  induction row with
  | nil => exact List.forall_mem_nil good
  | cons a row ih =>
    obtain ⟨ha, hrow⟩ := List.forall_mem_cons.mp h
    rw [List.mapM_cons]
    apply ha.bind
    intro b hb
    apply (ih hrow).bind
    intro others hothers
    exact List.forall_mem_cons.mpr ⟨hb, hothers⟩

/-! ### The first criterion that a hand satisfies -/

namespace RuleBook

section FirstPassing

variable {test : Declaration → Except Fault Bool} {declaration : Declaration}
  {declarations : List Declaration}

theorem firstPassing_cons_of_true (h : test declaration = .ok true) :
    firstPassing test (declaration :: declarations) = .ok (some 0) := by
  rw [firstPassing, h]
  rfl

theorem firstPassing_cons_of_false (h : test declaration = .ok false) :
    firstPassing test (declaration :: declarations) =
      firstPassing test declarations >>= fun later => .ok (later.map (· + 1)) := by
  rw [firstPassing, h]
  rfl

theorem firstPassing_cons_of_error {fault : Fault} (h : test declaration = .error fault) :
    firstPassing test (declaration :: declarations) = .error fault := by
  rw [firstPassing, h]
  rfl

theorem bind_map_succ_eq_ok_iff {first : Except Fault (Option Nat)} {outcome : Option Nat} :
    (first >>= fun later => .ok (later.map (· + 1))) = .ok outcome ↔
      ∃ later, first = .ok later ∧ later.map (· + 1) = outcome := by
  cases first <;> simp [Bind.bind, Except.bind]

theorem firstPassing_eq_some_iff {index : Nat} : firstPassing test declarations = .ok (some index) ↔
    (∃ declaration, declarations[index]? = some declaration ∧ test declaration = .ok true) ∧
      ∀ declaration ∈ declarations.take index, test declaration = .ok false := by
  induction declarations generalizing index with
  | nil => simp [firstPassing]
  | cons declaration declarations ih =>
    cases htest : test declaration with
    | error fault =>
      rw [firstPassing_cons_of_error htest]
      cases index <;> simp [htest]
    | ok passes =>
      cases passes with
      | true =>
        rw [firstPassing_cons_of_true htest]
        cases index <;> simp [htest]
      | false =>
        rw [firstPassing_cons_of_false htest, bind_map_succ_eq_ok_iff]
        cases index <;> simp [htest, ih]

theorem firstPassing_eq_none_iff : firstPassing test declarations = .ok none ↔
    ∀ declaration ∈ declarations, test declaration = .ok false := by
  induction declarations with
  | nil => simp [firstPassing]
  | cons declaration declarations ih =>
    cases htest : test declaration with
    | error fault => simp [firstPassing_cons_of_error htest, htest]
    | ok passes =>
      cases passes with
      | true => simp [firstPassing_cons_of_true htest, htest]
      | false =>
        rw [firstPassing_cons_of_false htest, bind_map_succ_eq_ok_iff, List.forall_mem_cons, ← ih]
        simp [htest]

/-- If the tests end as they should, there is an outcome, and it is about one of those tested. -/
theorem firstPassing_ensures
    (h : ∀ declaration ∈ declarations, Ensures (fun _ => True) (test declaration)) :
    Ensures (fun outcome => ∀ index ∈ outcome, index < declarations.length)
      (firstPassing test declarations) := by
  induction declarations with
  | nil => exact fun index hindex => nomatch hindex
  | cons declaration declarations ih =>
    obtain ⟨hdeclaration, hdeclarations⟩ := List.forall_mem_cons.mp h
    rw [firstPassing]
    apply hdeclaration.bind
    rintro passes -
    cases passes with
    | true =>
      rintro index ⟨⟩
      exact Nat.succ_pos _
    | false =>
      apply (ih hdeclarations).bind
      intro later hlater index hindex
      obtain ⟨before, hbefore, rfl⟩ := Option.map_eq_some_iff.mp hindex
      exact Nat.succ_lt_succ (hlater before hbefore)

end FirstPassing

/-- The hand satisfies the criterion with the index, and none before it. -/
structure FirstSatisfied (book : RuleBook) (hand : Pile) (index : Nat) : Prop where
  satisfied : ∃ criterion, book.criteria[index]? = some criterion ∧
    book.satisfies hand criterion.pattern = .ok true
  before : ∀ criterion ∈ book.criteria.take index, book.satisfies hand criterion.pattern = .ok false

def NoneSatisfied (book : RuleBook) (hand : Pile) : Prop :=
  ∀ criterion ∈ book.criteria, book.satisfies hand criterion.pattern = .ok false

variable {book : RuleBook} {hand : Pile}

theorem firstMatch_eq_some_iff {index : Nat} :
    book.firstMatch hand = .ok (some index) ↔ book.FirstSatisfied hand index := by
  rw [firstMatch, firstPassing_eq_some_iff]
  exact ⟨fun h => ⟨h.1, h.2⟩, fun h => ⟨h.satisfied, h.before⟩⟩

theorem firstMatch_eq_none_iff : book.firstMatch hand = .ok none ↔ book.NoneSatisfied hand :=
  firstPassing_eq_none_iff

instance (index : Nat) : Decidable (book.FirstSatisfied hand index) :=
  decidable_of_iff _ firstMatch_eq_some_iff

instance : Decidable (book.NoneSatisfied hand) :=
  decidable_of_iff _ firstMatch_eq_none_iff

theorem firstMatch_ensures (book : RuleBook) (hand : Pile) :
    Ensures (fun outcome => ∀ index ∈ outcome, index < book.criteria.length) (book.firstMatch hand) := by
  apply firstPassing_ensures
  intro criterion _
  apply (book.context.step_careful _ _ _).bind
  exact fun _ _ => trivial

/-- An outcome is about one of the criteria, so that it can be counted. -/
theorem countable_firstMatch_iff : Tally.Countable book.criteria.length (book.firstMatch hand) ↔
    ∃ outcome, book.firstMatch hand = .ok outcome := by
  constructor
  · rintro ⟨outcome, houtcome, -⟩
    exact ⟨outcome, houtcome⟩
  · rintro ⟨outcome, houtcome⟩
    have hensures := book.firstMatch_ensures hand
    rw [houtcome] at hensures
    exact ⟨outcome, houtcome, hensures⟩

theorem Validated.exists_satisfies (h : book.Validated) (hand : Pile) (pattern : Pattern) :
    ∃ passes, book.satisfies hand pattern = .ok passes := by
  rw [satisfies, (h.evaluate_follows pattern).answer]
  exact ⟨_, rfl⟩

/-- In a validated rule book every hand can be tested. -/
theorem Validated.exists_firstMatch (h : book.Validated) (hand : Pile) :
    ∃ outcome, book.firstMatch hand = .ok outcome := by
  rw [firstMatch]
  induction book.criteria with
  | nil => exact ⟨none, rfl⟩
  | cons criterion criteria ih =>
    obtain ⟨passes, hpasses⟩ := h.exists_satisfies hand criterion.pattern
    obtain ⟨outcome, houtcome⟩ := ih
    cases passes with
    | true => exact ⟨some 0, firstPassing_cons_of_true hpasses⟩
    | false => exact ⟨_, by rw [firstPassing_cons_of_false hpasses, houtcome]; rfl⟩

end RuleBook

/-! ### Counting never goes wrong -/

namespace Tally

variable {criteria : Nat} {trial : Nat → Except Fault (Option Nat)} {trials : List Nat}

theorem record_ensures {tally : Tally} {outcome : Option Nat}
    (h : ∀ index ∈ outcome, index < tally.hits.length) :
    Ensures (fun next => next.hits.length = tally.hits.length) (tally.record outcome) := by
  cases outcome with
  | none => exact rfl
  | some index =>
    rw [record, if_pos (h index rfl)]
    exact List.length_modify ..

theorem collect_ensures
    (h : ∀ i ∈ trials, Ensures (fun outcome => ∀ index ∈ outcome, index < criteria) (trial i)) :
    Ensures (fun tally => tally.hits.length = criteria) (collect criteria trial trials) := by
  -- The last trial is recorded last, in a tally that still has an entry for every criterion.
  induction trials using List.reverseRecOn with
  | nil => exact List.length_replicate
  | append_singleton trials i ih =>
    obtain ⟨htrials, hi⟩ := List.forall_mem_append.mp h
    rw [collect_concat]
    apply (ih htrials).bind
    rintro tally rfl
    apply (hi i List.mem_cons_self).bind
    exact fun outcome houtcome => record_ensures houtcome

theorem sum_modify_succ {counts : List Nat} {index : Nat} (h : index < counts.length) :
    (counts.modify index (· + 1)).sum = counts.sum + 1 := by
  induction counts generalizing index with
  | nil => exact absurd h (Nat.not_lt_zero index)
  | cons count counts ih =>
    cases index with
    | zero => simp [Nat.add_right_comm]
    | succ index => simp [ih (Nat.lt_of_succ_lt_succ h), Nat.add_assoc]

theorem total_of_record_eq_ok {tally next : Tally} {outcome : Option Nat}
    (h : tally.record outcome = .ok next) : next.total = tally.total + 1 := by
  cases outcome with
  | none =>
    obtain rfl := Except.ok.inj h
    rfl
  | some index =>
    rw [record] at h
    split at h
    · next hindex =>
      obtain rfl := Except.ok.inj h
      calc (tally.hits.modify index (· + 1)).sum + tally.misses
          _ = tally.hits.sum + 1 + tally.misses := by rw [sum_modify_succ hindex]
          _ = tally.hits.sum + tally.misses + 1 := Nat.add_right_comm ..
    · cases h

theorem total_of_collect_eq_ok {tally : Tally} (h : collect criteria trial trials = .ok tally) :
    tally.total = trials.length := by
  induction trials using List.reverseRecOn generalizing tally with
  | nil =>
    obtain rfl : empty criteria = tally := Except.ok.inj h
    exact List.sum_replicate_nat
  | append_singleton trials i ih =>
    rw [collect_concat] at h
    obtain ⟨before, hbefore, h⟩ := exists_of_bind_eq_ok h
    obtain ⟨outcome, -, hrecord⟩ := exists_of_bind_eq_ok h
    rw [total_of_record_eq_ok hrecord, ih hbefore, List.length_append, List.length_singleton]

end Tally

theorem Schedule.collect_ensures {criteria : Nat} {trial : Nat → Except Fault (Option Nat)}
    (schedule : Schedule)
    (h : ∀ i ∈ schedule.segments.flatten,
      Ensures (fun outcome => ∀ index ∈ outcome, index < criteria) (trial i)) :
    Ensures (fun _ => True) (schedule.collect criteria trial) := by
  induction schedule with
  | idle => exact trivial
  | work trials =>
    rw [segments, List.flatten_singleton] at h
    exact (Tally.collect_ensures h).imp fun _ _ => trivial
  | merge left right ihleft ihright =>
    rw [segments, List.flatten_append, List.forall_mem_append] at h
    apply (ihleft h.1).bind
    rintro tally -
    apply (ihright h.2).bind
    exact fun _ _ => trivial

/-! ### The results -/

def DeckList.hand (γ : Type) [Picker γ] (deck : DeckList) (settings : Settings) (seed : UInt64)
    (d i : Nat) : Pile :=
  (deck.deal settings.draw
    (Picker.ofSeed (.ofNat (seed.toNat + d * settings.iterations + i)) : γ)).1

def Results.column (results : Results) (d : Nat) : Except Fault (List Nat) :=
  results.matchCounts.mapM fun row => entryAt row d

namespace RuleBook

section Counts

variable (γ : Type) [Picker γ] (book : RuleBook) (settings : Settings) (seed : UInt64) (deck : DeckList)
  (d : Nat)

def hitCount (index : Nat) : Nat :=
  (List.range settings.iterations).countP fun i => book.FirstSatisfied (deck.hand γ settings seed d i) index

def missCount : Nat :=
  (List.range settings.iterations).countP fun i => book.NoneSatisfied (deck.hand γ settings seed d i)

def exactTally : Tally :=
  ⟨(List.range book.criteria.length).map (book.hitCount γ settings seed deck d),
    book.missCount γ settings seed deck d⟩

def Testable : Prop :=
  ∀ i < settings.iterations, ∃ outcome, book.firstMatch (deck.hand γ settings seed d i) = .ok outcome

end Counts

variable {γ : Type} [Picker γ] {book : RuleBook} {settings : Settings} {seed : UInt64} {deck : DeckList}
  {d : Nat}

theorem numberedTrial_eq_firstMatch (i : Nat) :
    book.numberedTrial γ settings deck (seed + (d * settings.iterations).toUInt64) i =
      book.firstMatch (deck.hand γ settings seed d i) := by
  have hseed : seed + (d * settings.iterations).toUInt64 + i.toUInt64 =
      .ofNat (seed.toNat + d * settings.iterations + i) := by
    rw [UInt64.ofNat_add, UInt64.ofNat_add, UInt64.ofNat_toNat]
  rw [numberedTrial, trial, Picker.ofTrial, hseed, DeckList.hand]

theorem tally_eq_ok_iff {tally : Tally} :
    book.tally γ settings deck (seed + (d * settings.iterations).toUInt64) = .ok tally ↔
      book.Testable γ settings seed deck d ∧ tally = book.exactTally γ settings seed deck d := by
  have htrial : book.numberedTrial γ settings deck (seed + (d * settings.iterations).toUInt64) =
      fun i => book.firstMatch (deck.hand γ settings seed d i) :=
    funext numberedTrial_eq_firstMatch
  have htally : Tally.ofTrials book.criteria.length
      (fun i => book.firstMatch (deck.hand γ settings seed d i)) (.range settings.iterations) =
        book.exactTally γ settings seed deck d := by
    simp only [Tally.ofTrials, firstMatch_eq_some_iff, firstMatch_eq_none_iff]
    rfl
  rw [RuleBook.tally, htrial, Tally.collect_eq_ok_iff, htally]
  simp only [List.mem_range, countable_firstMatch_iff]
  rfl

theorem tallies_eq_ok_iff {decks : List DeckList} {tallies : List Tally} :
    book.tallies γ settings seed decks = .ok tallies ↔
      (∀ d deck, decks[d]? = some deck → book.Testable γ settings seed deck d) ∧
        tallies = decks.zipIdx.map fun (deck, d) => book.exactTally γ settings seed deck d := by
  have hentries : (∀ entry ∈ decks.zipIdx, book.Testable γ settings seed entry.1 entry.2) ↔
      ∀ d deck, decks[d]? = some deck → book.Testable γ settings seed deck d := by
    simp only [Prod.forall, List.mem_zipIdx_iff_getElem?]
    exact forall_comm
  have hvalues : List.Forall₂ (fun entry tally => tally = book.exactTally γ settings seed entry.1 entry.2)
      decks.zipIdx tallies ↔
        tallies = decks.zipIdx.map fun (deck, d) => book.exactTally γ settings seed deck d := by
    rw [eq_comm, ← List.forall₂_eq_eq_eq, List.forall₂_map_left_iff]
    simp only [eq_comm]
  rw [RuleBook.tallies, mapM_eq_ok_iff]
  simp only [tally_eq_ok_iff, List.forall₂_and_left, hentries, hvalues]

def exactResults (γ : Type) [Picker γ] (book : RuleBook) (settings : Settings) (seed : UInt64)
    (decks : List DeckList) : Results :=
  book.results settings seed decks
    (decks.zipIdx.map fun (deck, d) => book.exactTally γ settings seed deck d)

theorem simulate_eq_ok_iff_getD {otherSeed : UInt64} {decks : List DeckList} {results : Results} :
    book.simulate settings otherSeed decks γ = .ok results ↔
      (∀ d deck, decks[d]? = some deck → book.Testable γ settings (settings.seed.getD otherSeed) deck d) ∧
        results = book.exactResults γ settings (settings.seed.getD otherSeed) decks := by
  rw [simulate]
  constructor
  · intro h
    obtain ⟨tallies, htallies, h⟩ := exists_of_bind_eq_ok h
    obtain ⟨htestable, rfl⟩ := tallies_eq_ok_iff.mp htallies
    exact ⟨htestable, (Except.ok.inj h).symm⟩
  · rintro ⟨htestable, rfl⟩
    exact congrArg (· >>= _) (tallies_eq_ok_iff.mpr ⟨htestable, rfl⟩)

theorem simulate_eq_ok_iff {otherSeed : UInt64} {decks : List DeckList} {results : Results}
    (hseed : settings.seed = some seed) : book.simulate settings otherSeed decks γ = .ok results ↔
      (∀ d deck, decks[d]? = some deck → book.Testable γ settings seed deck d) ∧
        results = book.exactResults γ settings seed decks := by
  rw [simulate_eq_ok_iff_getD, hseed]
  rfl

theorem Validated.testable (h : book.Validated) : book.Testable γ settings seed deck d :=
  fun _ _ => h.exists_firstMatch _

theorem Validated.simulate_eq_ok (h : book.Validated) (hseed : settings.seed = some seed)
    (otherSeed : UInt64) (decks : List DeckList) :
    book.simulate settings otherSeed decks γ = .ok (book.exactResults γ settings seed decks) :=
  (simulate_eq_ok_iff hseed).mpr ⟨fun _ _ _ => h.testable, rfl⟩

theorem matchCounts_exactResults {decks : List DeckList} :
    (book.exactResults γ settings seed decks).matchCounts =
      (List.range book.criteria.length).map fun index =>
        decks.zipIdx.map fun (deck, d) => book.hitCount γ settings seed deck d index := by
  apply List.map_congr_left
  intro index hindex
  -- Every tally has an entry for the criterion, so no deck is left out of its row.
  rw [List.filterMap_map, ← List.filterMap_eq_map]
  apply List.filterMap_congr
  rintro ⟨deck, d⟩ -
  simp [exactTally, List.mem_range.mp hindex]

theorem noMatchCounts_exactResults {decks : List DeckList} :
    (book.exactResults γ settings seed decks).noMatchCounts =
      decks.zipIdx.map fun (deck, d) => book.missCount γ settings seed deck d :=
  List.map_map

/-- Each hand of a deck is counted once. -/
theorem Testable.sum_hitCount (h : book.Testable γ settings seed deck d) :
    ((List.range book.criteria.length).map (book.hitCount γ settings seed deck d)).sum +
      book.missCount γ settings seed deck d = settings.iterations := by
  have htotal := Tally.total_of_collect_eq_ok (tally_eq_ok_iff.mpr ⟨h, rfl⟩)
  rwa [List.length_range] at htotal

end RuleBook

theorem entryAt_of_getElem? {α : Type} {row : List α} {index : Nat} {entry : α}
    (h : row[index]? = some entry) : entryAt row index = .ok entry := by
  rw [entryAt, h]

/-- The results say of every criterion and every deck which number of the hands that come from the deck
satisfy the criterion, but none before it. -/
structure Results.Exact (γ : Type) [Picker γ] (book : RuleBook) (settings : Settings) (seed : UInt64)
    (decks : List DeckList) (results : Results) : Prop where
  rows : results.matchCounts.length = book.criteria.length
  columns : ∀ row ∈ results.matchCounts, row.length = decks.length
  misses : results.noMatchCounts.length = decks.length
  count : ∀ d deck, decks[d]? = some deck → ∀ index < book.criteria.length,
    results.count index d = .ok (book.hitCount γ settings seed deck d index)
  noMatch : ∀ d deck, decks[d]? = some deck →
    results.noMatch d = .ok (book.missCount γ settings seed deck d)
  column : ∀ d deck, decks[d]? = some deck → results.column d =
    .ok ((List.range book.criteria.length).map (book.hitCount γ settings seed deck d))

namespace RuleBook

theorem exact_exactResults (γ : Type) [Picker γ] (book : RuleBook) (settings : Settings) (seed : UInt64)
    (decks : List DeckList) : (book.exactResults γ settings seed decks).Exact γ book settings seed decks where
  rows := by simp [matchCounts_exactResults]
  columns := by simp [matchCounts_exactResults]
  misses := by simp [noMatchCounts_exactResults]
  count d deck hdeck index hindex := by
    have hrow : (book.exactResults γ settings seed decks).matchCounts[index]? =
        some (decks.zipIdx.map fun (deck, d) => book.hitCount γ settings seed deck d index) := by
      simp [matchCounts_exactResults, hindex]
    rw [Results.count, entryAt_of_getElem? hrow]
    exact entryAt_of_getElem? (by simp [hdeck])
  noMatch d deck hdeck := entryAt_of_getElem? (by simp [noMatchCounts_exactResults, hdeck])
  column d deck hdeck := by
    rw [Results.column, mapM_eq_ok_iff, matchCounts_exactResults, List.forall₂_map_left_iff,
      List.forall₂_map_right_iff, List.forall₂_same]
    intro index _
    exact entryAt_of_getElem? (by simp [hdeck])

/-- Counting adds no fault to those of the evaluation of a pattern. -/
theorem simulate_ensures (γ : Type) [Picker γ] (book : RuleBook) (settings : Settings)
    (otherSeed : UInt64) (decks : List DeckList) :
    Ensures (fun _ => True) (book.simulate settings otherSeed decks γ) := by
  have htallies : Ensures (fun _ => True)
      (book.tallies γ settings (settings.seed.getD otherSeed) decks) := by
    apply (Ensures.mapM fun entry _ => Tally.collect_ensures fun i _ => ?_).imp fun _ _ => trivial
    exact book.firstMatch_ensures _
  exact htallies.bind fun _ _ => trivial

/-- The settings allow by default to spread the trials over workers. How this is done has no influence on the
results, as long as every deck has each of its trials in its schedule once. -/
theorem simulateOn_eq_simulate (γ : Type) [Picker γ] (book : RuleBook) {settings : Settings}
    {schedules : Nat → Schedule}
    (h : ∀ d, (schedules d).segments.flatten.Perm (.range settings.iterations)) (otherSeed : UInt64)
    (decks : List DeckList) :
    book.simulateOn settings otherSeed decks schedules γ = book.simulate settings otherSeed decks γ := by
  have htally (deck : DeckList) (d : Nat) (base : UInt64) :
      book.scheduledTally γ settings deck base (schedules d) = book.tally γ settings deck base := by
    have htrial (i : Nat) := book.firstMatch_ensures
      (deck.deal settings.draw (Picker.ofTrial base i.toUInt64 : γ)).1
    have hsequential : Ensures _ (book.tally γ settings deck base) :=
      Tally.collect_ensures fun i _ => htrial i
    rw [scheduledTally]
    split
    · have hscheduled := (schedules d).collect_ensures fun i _ => htrial i
      exact hscheduled.eq_of_ok_iff hsequential fun tally => Schedule.collect_eq_ok_iff_collect (h d)
    · rfl
  simp only [simulateOn, htally]
  rfl

/-- With a seed in the settings, the results are there exactly if every hand can be tested, which is so
in a validated rule book, and nothing but an endless reference ever prevents it. They count each hand of
a deck once, by the outcome of its trial, which is the first criterion that the hand satisfies; the column
of a deck does not depend on the other decks, and no results on the way in which trials are spread over
workers. -/
theorem simulate_counts (γ : Type) [Picker γ] (book : RuleBook) {settings : Settings} {seed : UInt64}
    (hseed : settings.seed = some seed) (otherSeed : UInt64) (decks : List DeckList) :
    (∀ deck d i outcome, book.trial deck settings.draw
        (Picker.ofSeed (.ofNat (seed.toNat + d * settings.iterations + i)) : γ) = .ok outcome ↔
      match outcome with
      | some index => book.FirstSatisfied (deck.hand γ settings seed d i) index
      | none => book.NoneSatisfied (deck.hand γ settings seed d i)) ∧
    (∀ fault, book.simulate settings otherSeed decks γ = .error fault → fault = .endlessReference) ∧
    ((∃ results, book.simulate settings otherSeed decks γ = .ok results) ↔
      ∀ d deck, decks[d]? = some deck → book.Testable γ settings seed deck d) ∧
    (book.Validated → ∃ results, book.simulate settings otherSeed decks γ = .ok results) ∧
    (∀ schedules, (∀ d, (schedules d).segments.flatten.Perm (.range settings.iterations)) →
      book.simulateOn settings otherSeed decks schedules γ = book.simulate settings otherSeed decks γ) ∧
    ∀ results, book.simulate settings otherSeed decks γ = .ok results →
      results.Exact γ book settings seed decks ∧
      (∀ d < decks.length, ∃ column misses, results.column d = .ok column ∧
        results.noMatch d = .ok misses ∧ column.sum + misses = settings.iterations) ∧
      ∀ others other, book.simulate settings otherSeed others γ = .ok other →
        ∀ d deck, decks[d]? = some deck → others[d]? = some deck →
          other.column d = results.column d ∧ other.noMatch d = results.noMatch d := by
  refine ⟨?_, ?_, ?_, ?_, fun schedules h => simulateOn_eq_simulate γ book h otherSeed decks, ?_⟩
  · intro deck d i outcome
    cases outcome with
    | none => exact firstMatch_eq_none_iff
    | some index => exact firstMatch_eq_some_iff
  · intro fault h
    have hensures := book.simulate_ensures γ settings otherSeed decks
    rwa [h] at hensures
  · constructor
    · rintro ⟨results, h⟩
      exact ((simulate_eq_ok_iff hseed).mp h).1
    · exact fun htestable => ⟨_, (simulate_eq_ok_iff hseed).mpr ⟨htestable, rfl⟩⟩
  · intro hvalidated
    refine ⟨_, (simulate_eq_ok_iff hseed).mpr ⟨fun d deck _ i _ => ?_, rfl⟩⟩
    exact hvalidated.exists_firstMatch _
  · intro results h
    obtain ⟨htestable, rfl⟩ := (simulate_eq_ok_iff hseed).mp h
    have hexact := exact_exactResults γ book settings seed decks
    refine ⟨hexact, ?_, ?_⟩
    · intro d hd
      have hdeck : decks[d]? = some decks[d] := List.getElem?_eq_getElem hd
      exact ⟨_, _, hexact.column d _ hdeck, hexact.noMatch d _ hdeck,
        (htestable d _ hdeck).sum_hitCount⟩
    · intro others other hother d deck hdeck hdeck'
      obtain ⟨-, rfl⟩ := (simulate_eq_ok_iff hseed).mp hother
      have hexact' := exact_exactResults γ book settings seed others
      rw [hexact.column d deck hdeck, hexact.noMatch d deck hdeck, hexact'.column d deck hdeck',
        hexact'.noMatch d deck hdeck']
      exact ⟨rfl, rfl⟩

def pairBook : RuleBook :=
  ((empty.add ⟨"both", true, .all [.card "x", .card "y"]⟩).add ⟨"one", true, .card "x"⟩).validate

/-- Four hands from each deck; the seeds wrap around after the second hand. -/
def pairSettings : Settings where
  iterations := 4
  draw := 2
  seed := some 18446744073709551614

def pairDecks : List DeckList :=
  [⟨⟨["x", "y", "y"]⟩, .empty⟩, ⟨⟨["x", "x", "z"]⟩, .empty⟩]

def pairResults : Results :=
  ⟨4, 2, 18446744073709551614, ["both", "one"], [3, 3], [[1, 0], [0, 4]], [3, 0]⟩

theorem simulate_counts_pair :
    pairBook.simulate pairSettings 0 pairDecks = .ok pairResults ∧
      pairBook.simulateOn pairSettings 0 pairDecks
        (fun d => if d = 0 then .merge (.work [2, 3]) (.work [0, 1]) else .work [0, 1, 2, 3]) =
          .ok pairResults ∧
      pairResults.Exact Generator pairBook pairSettings 18446744073709551614 pairDecks ∧
      ∀ d < 2, ∃ column misses, pairResults.column d = .ok column ∧
        pairResults.noMatch d = .ok misses ∧ column.sum + misses = 4 := by
  have hresults : pairBook.simulate pairSettings 0 pairDecks = .ok pairResults := by decide +kernel
  have hseed : pairSettings.seed = some 18446744073709551614 := rfl
  obtain ⟨-, -, -, -, hscheduled, hcounts⟩ := simulate_counts Generator pairBook hseed 0 pairDecks
  obtain ⟨hexact, hconserved, -⟩ := hcounts pairResults hresults
  refine ⟨hresults, (hscheduled _ fun d => ?_).trans hresults, hexact, hconserved⟩
  split <;> decide

end RuleBook

end OpeningHand
