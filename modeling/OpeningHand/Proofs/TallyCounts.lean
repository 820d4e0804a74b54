import Mathlib.Data.List.Induction
import Mathlib.Data.List.Perm.Basic
import Mathlib.Data.List.Count
import OpeningHand.Proofs.Outcomes
import OpeningHand.Simulation

/-!
# What a tally counts

Recording trials one after the other leads to a tally in which each criterion has as many hits as there
are trials with it as their outcome. The order of the trials does not matter for these numbers, and two
tallies that count the same criteria can be merged without loss. So every schedule for the same trials
leads to the same tally.
-/

namespace OpeningHand

/-- Two tests that never pass together pass as often as either of them does. -/
theorem countP_eq_add_of_disjoint {α : Type} {first second either : α → Bool} {row : List α}
    (heither : ∀ a, either a = true ↔ first a = true ∨ second a = true)
    (hdisjoint : ∀ a, first a = true → ¬second a = true) :
    row.countP either = row.countP first + row.countP second := by
  induction row with
  | nil => rfl
  | cons a row ih =>
    have hsome : either a = (first a || second a) := by
      rw [Bool.eq_iff_iff, Bool.or_eq_true]
      exact heither a
    rw [List.countP_cons, List.countP_cons, List.countP_cons, ih, hsome]
    cases hfirst : first a with
    | false =>
      rw [Bool.false_or, if_neg Bool.false_ne_true, Nat.add_zero, Nat.add_assoc]
    | true =>
      rw [Bool.eq_false_iff.mpr (hdisjoint a hfirst), Bool.true_or]
      exact Nat.add_right_comm ..

namespace Tally

/-- The trial has an outcome, and a criterion in it is one of those counted. -/
def Countable (criteria : Nat) (result : Except Fault (Option Nat)) : Prop :=
  ∃ outcome, result = .ok outcome ∧ ∀ index ∈ outcome, index < criteria

def ofTrials (criteria : Nat) (trial : Nat → Except Fault (Option Nat)) (trials : List Nat) : Tally where
  hits := (List.range criteria).map fun index => trials.countP fun i => trial i = .ok (some index)
  misses := trials.countP fun i => trial i = .ok none

variable {criteria : Nat} {trial : Nat → Except Fault (Option Nat)} {trials others : List Nat}

theorem length_hits_ofTrials : (ofTrials criteria trial trials).hits.length = criteria := by
  rw [ofTrials, List.length_map, List.length_range]

theorem ofTrials_nil : ofTrials criteria trial [] = empty criteria := by
  simp [ofTrials, empty]

theorem ofTrials_perm (h : trials.Perm others) :
    ofTrials criteria trial trials = ofTrials criteria trial others := by
  simp only [ofTrials, h.countP_eq]

theorem addCounts_map (indices : List Nat) (count other : Nat → Nat) :
    addCounts (indices.map count) (indices.map other) =
      indices.map fun index => count index + other index := by
  induction indices with
  | nil => rfl
  | cons index indices ih => rw [List.map_cons, List.map_cons, List.map_cons, addCounts, ih]

/-- Tallies of the same criteria are merged without loss. -/
theorem merge_ofTrials : (ofTrials criteria trial trials).merge (ofTrials criteria trial others) =
    ofTrials criteria trial (trials ++ others) := by
  simp only [merge, ofTrials, addCounts_map, List.countP_append]

theorem modify_map_range (count : Nat → Nat) (index : Nat) :
    ((List.range criteria).map count).modify index (· + 1) =
      (List.range criteria).map fun other => count other + if index = other then 1 else 0 := by
  apply List.ext_getElem
  · simp
  · intro place _ _
    rw [List.getElem_modify]
    split <;> simp_all

theorem record_ofTrials {i : Nat} {outcome : Option Nat} (h : trial i = .ok outcome)
    (hindex : ∀ index ∈ outcome, index < criteria) :
    (ofTrials criteria trial trials).record outcome =
      .ok (ofTrials criteria trial (trials ++ [i])) := by
  cases outcome with
  | none => simp [record, ofTrials, h]
  | some index =>
    have hlt : index < (ofTrials criteria trial trials).hits.length := by
      rw [length_hits_ofTrials]
      exact hindex index rfl
    rw [record, if_pos hlt]
    simp [ofTrials, h, modify_map_range, List.countP_singleton]

theorem lt_of_record_eq_ok {tally next : Tally} {outcome : Option Nat}
    (h : tally.record outcome = .ok next) : ∀ index ∈ outcome, index < tally.hits.length := by
  rintro index rfl
  rw [record] at h
  split at h
  · assumption
  · cases h

theorem collect_concat (i : Nat) : collect criteria trial (trials ++ [i]) =
    collect criteria trial trials >>= fun tally => trial i >>= tally.record := by
  simp [collect]

/-- Trials lead to a tally exactly if each of them can be counted, and the tally says how many of them
have which outcome. -/
theorem collect_eq_ok_iff {tally : Tally} : collect criteria trial trials = .ok tally ↔
    (∀ i ∈ trials, Countable criteria (trial i)) ∧ tally = ofTrials criteria trial trials := by
  induction trials using List.reverseRecOn generalizing tally with
  | nil =>
    rw [collect_nil, ofTrials_nil]
    constructor
    · rintro ⟨⟩
      exact ⟨List.forall_mem_nil _, rfl⟩
    · rintro ⟨-, rfl⟩
      rfl
  | append_singleton trials i ih =>
    rw [collect_concat]
    constructor
    · intro h
      obtain ⟨before, hbefore, h⟩ := exists_of_bind_eq_ok h
      obtain ⟨outcome, houtcome, hrecord⟩ := exists_of_bind_eq_ok h
      obtain ⟨htrials, rfl⟩ := ih.mp hbefore
      have hindex := lt_of_record_eq_ok hrecord
      rw [length_hits_ofTrials] at hindex
      rw [record_ofTrials houtcome hindex] at hrecord
      refine ⟨List.forall_mem_append.mpr ⟨htrials, ?_⟩, (Except.ok.inj hrecord).symm⟩
      exact List.forall_mem_singleton.mpr ⟨outcome, houtcome, hindex⟩
    · rintro ⟨hall, rfl⟩
      obtain ⟨htrials, hlast⟩ := List.forall_mem_append.mp hall
      obtain ⟨outcome, houtcome, hindex⟩ := hlast i List.mem_cons_self
      rw [ih.mpr ⟨htrials, rfl⟩, houtcome]
      exact record_ofTrials houtcome hindex

end Tally

namespace Schedule

variable {criteria : Nat} {trial : Nat → Except Fault (Option Nat)}

/-- A schedule leads to a tally exactly if every trial in it can be counted, and then to the numbers of
all its trials. -/
theorem collect_eq_ok_iff {schedule : Schedule} {tally : Tally} :
    schedule.collect criteria trial = .ok tally ↔
      (∀ i ∈ schedule.segments.flatten, Tally.Countable criteria (trial i)) ∧
        tally = Tally.ofTrials criteria trial schedule.segments.flatten := by
  induction schedule generalizing tally with
  | idle =>
    rw [collect, ← Tally.collect_nil criteria trial]
    exact Tally.collect_eq_ok_iff
  | work trials =>
    rw [collect, segments, List.flatten_singleton]
    exact Tally.collect_eq_ok_iff
  | merge left right ihleft ihright =>
    rw [collect, segments, List.flatten_append, List.forall_mem_append]
    constructor
    · intro h
      obtain ⟨first, hfirst, h⟩ := exists_of_bind_eq_ok h
      obtain ⟨second, hsecond, h⟩ := exists_of_bind_eq_ok h
      obtain ⟨hleft, rfl⟩ := ihleft.mp hfirst
      obtain ⟨hright, rfl⟩ := ihright.mp hsecond
      refine ⟨⟨hleft, hright⟩, ?_⟩
      rw [← Tally.merge_ofTrials]
      exact (Except.ok.inj h).symm
    · rintro ⟨⟨hleft, hright⟩, rfl⟩
      rw [ihleft.mpr ⟨hleft, rfl⟩, ihright.mpr ⟨hright, rfl⟩, ← Tally.merge_ofTrials]
      rfl

/-- The tally of a schedule for some trials is the one they lead to in any order. -/
theorem collect_eq_ok_iff_collect {schedule : Schedule} {trials : List Nat}
    (h : schedule.segments.flatten.Perm trials) {tally : Tally} :
    schedule.collect criteria trial = .ok tally ↔ Tally.collect criteria trial trials = .ok tally := by
  rw [collect_eq_ok_iff, Tally.collect_eq_ok_iff, Tally.ofTrials_perm h]
  have hall : (∀ i ∈ schedule.segments.flatten, Tally.Countable criteria (trial i)) ↔
      ∀ i ∈ trials, Tally.Countable criteria (trial i) :=
    forall_congr' fun i => imp_congr_left h.mem_iff
  rw [hall]

/-- However the trials are cut into segments, and however the segments and any idle workers are merged,
the tally is the one of all trials in their order, which is that of the rule book for its own trials. -/
theorem collect_iff_sequential {iterations : Nat} {segments : List (List Nat)}
    (hcut : segments.flatten = List.range iterations) {schedule : Schedule}
    (hschedule : schedule.segments.Perm segments) :
    (∀ criteria trial tally, schedule.collect criteria trial = .ok tally ↔
      Tally.collect criteria trial (.range iterations) = .ok tally) ∧
    (∀ criteria trial, (∀ i < iterations, Tally.Countable criteria (trial i)) →
      ∃ tally, schedule.collect criteria trial = .ok tally ∧
        Tally.collect criteria trial (.range iterations) = .ok tally) ∧
    ∀ (γ : Type) [Picker γ] (book : RuleBook) (settings : Settings) deck base tally,
      settings.iterations = iterations →
      (schedule.collect book.criteria.length (book.numberedTrial γ settings deck base) = .ok tally ↔
        book.tally γ settings deck base = .ok tally) := by
  have hperm : schedule.segments.flatten.Perm (.range iterations) := hcut ▸ hschedule.flatten
  refine ⟨fun criteria trial tally => collect_eq_ok_iff_collect hperm,
    fun criteria trial hall => ?_, ?_⟩
  · have hsequential : Tally.collect criteria trial (.range iterations) = .ok _ :=
      Tally.collect_eq_ok_iff.mpr ⟨fun i hi => hall i (List.mem_range.mp hi), rfl⟩
    exact ⟨_, (collect_eq_ok_iff_collect hperm).mpr hsequential, hsequential⟩
  · rintro γ _ book settings deck base tally rfl
    exact collect_eq_ok_iff_collect hperm

/-- Five trials in three segments, one of them empty, with idle workers in between and a tree of merges
that begins with the last segment. -/
theorem collect_iff_sequential_idle :
    (merge (merge (work [2, 3, 4]) idle) (merge (work []) (merge (work [0, 1]) idle))).collect 2
      (fun i => .ok (if i < 3 then some (i % 2) else none)) = .ok ⟨[2, 1], 2⟩ := by
  have hcut : [[0, 1], [], [2, 3, 4]].flatten = List.range 5 := rfl
  have hsegments : (merge (merge (work [2, 3, 4]) idle)
      (merge (work []) (merge (work [0, 1]) idle))).segments.Perm [[0, 1], [], [2, 3, 4]] := by decide
  exact ((collect_iff_sequential hcut hsegments).1 _ _ _).mpr (by decide)

end Schedule

end OpeningHand
