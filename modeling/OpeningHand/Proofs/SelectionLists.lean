import Mathlib.Data.Nat.Choose.Basic
import OpeningHand.Selection

/-!
# What the list of selections holds

The selections are the increasing rows of as many indices as asked for, listed in lexicographic order. There
are as many of them as the binomial coefficient says: by the two parts of the list, this is Pascal's rule.
-/

namespace OpeningHand.Selection

variable {start len size : Nat} {selection : List Nat}

theorem mem_indicesFrom_size_zero : selection ∈ indicesFrom start len 0 ↔
    selection.length = 0 ∧ selection.Pairwise (· < ·) ∧
      ∀ index ∈ selection, start ≤ index ∧ index < start + len := by
  rw [indicesFrom_size_zero, List.mem_singleton, List.length_eq_zero_iff]
  constructor
  · rintro rfl
    exact ⟨rfl, .nil, List.forall_mem_nil _⟩
  · exact And.left

/-- The selections are the increasing rows of as many indices. -/
theorem mem_indicesFrom_iff : selection ∈ indicesFrom start len size ↔
    selection.length = size ∧ selection.Pairwise (· < ·) ∧
      ∀ index ∈ selection, start ≤ index ∧ index < start + len := by
  induction len generalizing start size selection with
  | zero =>
    cases size with
    | zero => exact mem_indicesFrom_size_zero
    | succ size =>
      rw [indicesFrom_len_zero]
      refine iff_of_false List.not_mem_nil ?_
      rintro ⟨hlength, -, hbounds⟩
      obtain ⟨index, rest, rfl⟩ := List.exists_cons_of_length_eq_add_one hlength
      have hbound := hbounds index List.mem_cons_self
      omega
  | succ len ih =>
    cases size with
    | zero => exact mem_indicesFrom_size_zero
    | succ size =>
      rw [indicesFrom_succ, List.mem_append, List.mem_map, ih]
      simp only [ih]
      constructor
      · rintro (⟨rest, ⟨hlength, hsorted, hbounds⟩, rfl⟩ | ⟨hlength, hsorted, hbounds⟩)
        · refine ⟨by rw [List.length_cons, hlength], ?_, ?_⟩
          · exact hsorted.cons fun index hindex => (hbounds index hindex).1
          · intro index hindex
            rcases List.mem_cons.mp hindex with rfl | hindex
            · omega
            · have hbound := hbounds index hindex
              omega
        · refine ⟨hlength, hsorted, fun index hindex => ?_⟩
          have hbound := hbounds index hindex
          omega
      · rintro ⟨hlength, hsorted, hbounds⟩
        obtain ⟨first, rest, rfl⟩ := List.exists_cons_of_length_eq_add_one hlength
        obtain ⟨hfirst, hrest⟩ := List.pairwise_cons.mp hsorted
        have hbound := hbounds first List.mem_cons_self
        -- An index that is not the first one possible leaves the selection to the second part.
        by_cases hstart : first = start
        · subst hstart
          refine .inl ⟨rest, ⟨Nat.succ.inj hlength, hrest, fun index hindex => ?_⟩, rfl⟩
          have hlt := hfirst index hindex
          have hlimit := hbounds index (List.mem_cons_of_mem _ hindex)
          omega
        · refine .inr ⟨hlength, hsorted, fun index hindex => ?_⟩
          rcases List.mem_cons.mp hindex with rfl | hindex
          · omega
          · have hlt := hfirst index hindex
            have hlimit := hbounds index (List.mem_cons_of_mem _ hindex)
            omega

/-- Selections with the index `start` come first, and those behind them begin with a larger one. -/
theorem pairwise_indicesFrom (start len size : Nat) :
    (indicesFrom start len size).Pairwise (· < ·) := by
  induction len generalizing start size with
  | zero =>
    cases size with
    | zero => exact List.pairwise_singleton _ _
    | succ size => exact .nil
  | succ len ih =>
    cases size with
    | zero => exact List.pairwise_singleton _ _
    | succ size =>
      rw [indicesFrom_succ, List.pairwise_append]
      refine ⟨?_, ih _ _, ?_⟩
      · rw [List.pairwise_map]
        exact (ih (start + 1) size).imp fun hlt => List.cons_lt_cons_iff.mpr (.inr ⟨rfl, hlt⟩)
      · intro selection hselection other hother
        obtain ⟨rest, -, rfl⟩ := List.mem_map.mp hselection
        obtain ⟨hlength, -, hbounds⟩ := mem_indicesFrom_iff.mp hother
        obtain ⟨first, others, rfl⟩ := List.exists_cons_of_length_eq_add_one hlength
        have hfirst := (hbounds first List.mem_cons_self).1
        exact List.cons_lt_cons_iff.mpr (.inl hfirst)

/-- All selections of a given size from the indices below `len`, each once, in lexicographic order. -/
structure Enumerates (len size : Nat) (selections : List (List Nat)) : Prop where
  mem_iff : ∀ selection, selection ∈ selections ↔ selection.length = size ∧
    selection.Pairwise (· < ·) ∧ ∀ index ∈ selection, index < len
  sorted : selections.Pairwise (· < ·)

theorem enumerates_indices (len size : Nat) : Enumerates len size (indices len size) := by
  refine ⟨fun selection => ?_, pairwise_indicesFrom 0 len size⟩
  rw [indices, mem_indicesFrom_iff]
  simp only [Nat.zero_le, Nat.zero_add, true_and]

theorem length_indicesFrom (start len size : Nat) :
    (indicesFrom start len size).length = len.choose size := by
  induction len generalizing start size with
  | zero => cases size <;> rfl
  | succ len ih =>
    cases size with
    | zero => rw [indicesFrom_size_zero, Nat.choose_zero_right, List.length_singleton]
    | succ size =>
      rw [indicesFrom_succ, List.length_append, List.length_map, ih, ih, Nat.choose_succ_succ]

/-! ### The search with one row -/

mutual

/-- A search that has one row of indices puts it behind those found before when it is long enough, and
otherwise goes on with each index from `start` on put behind the row. -/
def collect (len size start : Nat) (current : List Nat) (found : List (List Nat)) : List (List Nat) :=
  if current.length = size then found ++ [current] else collectEach len size start current found
termination_by (len - start, 1)

def collectEach (len size start : Nat) (current : List Nat) (found : List (List Nat)) :
    List (List Nat) :=
  if start < len then
    collectEach len size (start + 1) current
      (collect len size (start + 1) (current ++ [start]) found)
  else found
termination_by (len - start, 0)

end

theorem collectEach_eq {left start : Nat} {current : List Nat} (hleft : start + left = len)
    (hcurrent : current.length < size) (found : List (List Nat)) :
    collectEach len size start current found =
      found ++ (indicesFrom start left (size - current.length)).map (current ++ ·) := by
  obtain ⟨more, hmore⟩ := Nat.exists_eq_add_of_lt hcurrent
  have hsize : size - current.length = more + 1 := by omega
  induction left generalizing start current found more with
  | zero =>
    have hend : ¬start < len := by omega
    rw [collectEach, if_neg hend, hsize, indicesFrom_len_zero, List.map_nil, List.append_nil]
  | succ left ih =>
    have hstart : start < len := by omega
    have hnext : start + 1 + left = len := by omega
    have hlength : (current ++ [start]).length = current.length + 1 := by simp
    -- The longer row is complete, or shorter than the size and there is one index less to go.
    have hlonger : collect len size (start + 1) (current ++ [start]) found =
        found ++ (indicesFrom (start + 1) left more).map (current ++ [start] ++ ·) := by
      rw [collect]
      split
      · obtain rfl : more = 0 := by omega
        rw [indicesFrom_size_zero, List.map_singleton, List.append_nil]
      · obtain ⟨fewer, rfl⟩ : ∃ fewer, more = fewer + 1 := Nat.exists_eq_succ_of_ne_zero (by omega)
        have hrest : size - (current ++ [start]).length = fewer + 1 := by omega
        rw [ih hnext (by omega) found fewer (by omega) hrest, hrest]
    rw [collectEach, if_pos hstart, hlonger, ih hnext hcurrent _ more hmore hsize, hsize,
      indicesFrom_succ, List.map_append, List.map_map, List.append_assoc]
    simp only [List.append_assoc, Function.comp_def, List.singleton_append]

theorem collect_eq_indices (len size : Nat) : collect len size 0 [] [] = indices len size := by
  rw [collect, indices]
  split
  · next hsize =>
    obtain rfl : 0 = size := hsize
    exact (indicesFrom_size_zero 0 len).symm
  · next hsize =>
    rw [collectEach_eq (Nat.zero_add len) (Nat.pos_of_ne_zero fun h => hsize h.symm)]
    exact List.map_id _

/-- The list of selections is what the search finds, in its order. -/
theorem list_eq_collect (len size : Nat) :
    list len size = (reserve size indexBytes).map fun _ => collect len size 0 [] [] := by
  rw [collect_eq_indices, list]
  cases reserve size indexBytes <;> rfl

theorem length_of_mem_indices (h : selection ∈ indices len size) : selection.length = size :=
  (((enumerates_indices len size).mem_iff selection).mp h).1

theorem lt_of_mem_indices (h : selection ∈ indices len size) : ∀ index ∈ selection, index < len :=
  (((enumerates_indices len size).mem_iff selection).mp h).2.2

/-- The list of selections is as long as the binomial coefficient. -/
theorem length_indices (len size : Nat) : (indices len size).length = len.choose size :=
  length_indicesFrom 0 len size

/-- If neither nothing nor everything is selected, there is a choice. -/
theorem two_le_length_indices (hpos : 0 < size) (hlt : size < len) :
    2 ≤ (indices len size).length := by
  rw [length_indices]
  cases size with
  | zero => cases hpos
  | succ size =>
    cases len with
    | zero => cases hlt
    | succ len =>
      have hwith : 0 < len.choose size := Nat.choose_pos (by omega)
      have hwithout : 0 < len.choose (size + 1) := Nat.choose_pos (by omega)
      rw [Nat.choose_succ_succ]
      exact Nat.add_le_add hwith hwithout

end OpeningHand.Selection
