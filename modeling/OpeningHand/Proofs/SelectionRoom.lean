import Mathlib
import OpeningHand.Proofs.DeclarationSoundness

/-!
# How many selections there is room for

The count of selections goes through the binomial coefficients from the left, and its products grow up to
the last one. As long as the result needs no more than the memory there is, no product on the way is too
large. So whether the selections can be listed depends on their number alone, and a short row never has
too many. A list by itself only needs room for the size of its selections, and with that room it holds all of
them.
-/

namespace OpeningHand

namespace Selection

variable {n k : ℕ}

/-! ### The products of a count -/

/-- What is multiplied up in one step of the count is divided out in the next one. -/
theorem countFrom_choose_eq_ok_iff {steps i value : ℕ} :
    countFrom n steps i (n.choose i) = .ok value ↔
      (∀ j, i < j → j ≤ i + steps → n.choose j * j < countLimit) ∧ value = n.choose (i + steps) := by
  induction steps generalizing i with
  | zero =>
    rw [countFrom, Except.ok.injEq, eq_comm]
    exact ⟨fun h => ⟨fun j hj hle => by omega, h⟩, And.right⟩
  | succ steps ih =>
    have hproduct : n.choose i * (n - i) = n.choose (i + 1) * (i + 1) :=
      (Nat.choose_succ_right_eq n i).symm
    have hshift : i + 1 + steps = i + (steps + 1) := by omega
    rw [countFrom, hproduct, Nat.mul_div_cancel _ (Nat.succ_pos i)]
    split
    · next hfits =>
      rw [ih, hshift]
      refine and_congr_left fun _ => ⟨fun h j hj hle => ?_, fun h j hj => h j (by omega)⟩
      rcases Nat.eq_or_lt_of_le (Nat.succ_le_of_lt hj) with rfl | hlt
      · exact hfits
      · exact h j hlt hle
    · next hlarge =>
      refine iff_of_false (by rintro ⟨⟩) ?_
      rintro ⟨hfits, -⟩
      exact hlarge (hfits (i + 1) (Nat.lt_succ_self i) (by omega))

/-- The rows of the coefficients are symmetric, so their left half is enough. -/
theorem choose_min (h : k ≤ n) : n.choose (min k (n - k)) = n.choose k := by
  rcases Nat.le_total k (n - k) with hle | hle
  · rw [Nat.min_eq_left hle]
  · rw [Nat.min_eq_right hle, Nat.choose_symm h]

theorem count_eq_ok_iff (h : k ≤ n) {value : ℕ} : count n k = .ok value ↔
    (∀ j, 0 < j → j ≤ min k (n - k) → n.choose j * j < countLimit) ∧ value = n.choose k := by
  have hstart : countFrom n (min k (n - k)) 0 1 = countFrom n (min k (n - k)) 0 (n.choose 0) := by
    rw [Nat.choose_zero_right]
  rw [count, if_neg (Nat.not_lt.mpr h), hstart, countFrom_choose_eq_ok_iff]
  simp only [Nat.zero_add, choose_min h]

/-- A coefficient of the left half at least doubles with each step to the next row and column. -/
theorem two_pow_le_choose (h : 2 * k ≤ n) : 2 ^ k ≤ n.choose k := by
  induction k generalizing n with
  | zero => rw [Nat.choose_zero_right, Nat.pow_zero]
  | succ k ih =>
    obtain ⟨n, rfl⟩ : ∃ m, n = m + 1 := ⟨n - 1, by omega⟩
    refine Nat.le_of_mul_le_mul_right ?_ (Nat.succ_pos k)
    calc 2 ^ (k + 1) * (k + 1) = 2 * (k + 1) * 2 ^ k := by ring
      _ ≤ (n + 1) * n.choose k := Nat.mul_le_mul h (ih (by omega))
      _ = (n + 1).choose (k + 1) * (k + 1) := Nat.add_one_mul_choose_eq n k

/-- In the left half the coefficients grow. -/
theorem choose_le_choose_of_le {j : ℕ} (hjk : j ≤ k) (h : 2 * k ≤ n) : n.choose j ≤ n.choose k := by
  induction hjk with
  | refl => exact le_rfl
  | @step k _ ih => exact (ih (by omega)).trans (Nat.choose_le_succ_of_lt_half_left (by omega))

/-- No product on the way is too large if the result needs no more than the memory there is. -/
theorem product_lt_of_choose_lt (h : k ≤ n) (hfew : n.choose k < 2 ^ 58) {j : ℕ}
    (hj : j ≤ min k (n - k)) : n.choose j * j < countLimit := by
  have hleft : n.choose j < 2 ^ 58 := by
    refine lt_of_le_of_lt ?_ hfew
    rcases Nat.le_total k (n - k) with hle | hle
    · exact choose_le_choose_of_le (by omega) (by omega)
    · rw [← Nat.choose_symm h]
      exact choose_le_choose_of_le (by omega) (by omega)
  have hindex : j < 58 :=
    (Nat.pow_lt_pow_iff_right Nat.one_lt_two).mp
      ((two_pow_le_choose (by omega : 2 * j ≤ n)).trans_lt hleft)
  calc n.choose j * j < 2 ^ 58 * 58 := Nat.mul_lt_mul'' hleft hindex
    _ ≤ countLimit := by decide

/-- There is room for a list exactly if it has fewer entries than the whole memory. -/
theorem reserve_eq_ite {bound bytes : ℕ} (hlimit : memoryLimit = bound * bytes) (hbytes : 0 < bytes)
    (length : ℕ) :
    reserve length bytes = if length < bound then .ok () else .error .capacityOverflow := by
  rw [reserve, hlimit]
  simp only [Nat.mul_lt_mul_right hbytes]

/-- There is room for all selections exactly if there are few enough of them. -/
theorem room_eq_ok_iff (n k : ℕ) : room n k = .ok () ↔ n.choose k < 2 ^ 58 := by
  have hreserve : ∀ branches, reserve branches Pattern.nodeBytes = .ok () ↔ branches < 2 ^ 58 := by
    intro branches
    have hlimit : memoryLimit = 2 ^ 58 * Pattern.nodeBytes := rfl
    rw [reserve_eq_ite hlimit (by decide)]
    split
    · next hfits => exact iff_of_true rfl hfits
    · next hlarge => exact iff_of_false (by rintro ⟨⟩) hlarge
  rcases Nat.lt_or_ge n k with hlt | hle
  · rw [room, count, if_pos hlt, Nat.choose_eq_zero_of_lt hlt]
    exact hreserve 0
  · constructor
    · intro h
      obtain ⟨branches, hbranches, h⟩ := exists_of_bind_eq_ok h
      obtain ⟨-, rfl⟩ := (count_eq_ok_iff hle).mp hbranches
      exact (hreserve _).mp h
    · intro hfew
      have hcount : count n k = .ok (n.choose k) :=
        (count_eq_ok_iff hle).mpr ⟨fun j _ => product_lt_of_choose_lt hle hfew, rfl⟩
      rw [room, hcount]
      exact (hreserve _).mpr hfew

/-! ### Rows with too many selections -/

/-- More than one thing is to be selected, and there are more selections than fit into memory. -/
def TooMany (n k : ℕ) : Prop :=
  1 < k ∧ 2 ^ 58 ≤ n.choose k

instance (n k : ℕ) : Decidable (TooMany n k) :=
  inferInstanceAs (Decidable (_ ∧ _))

/-- A row of at most 61 things never has too many selections. -/
theorem TooMany.lt_length (h : TooMany n k) : 61 < n := by
  by_contra hshort
  have hcount : count 61 30 = .ok 232714176627630544 := rfl
  have hmiddle := ((count_eq_ok_iff (by decide)).mp hcount).2
  have hle : n.choose k ≤ Nat.choose 61 30 :=
    (Nat.choose_le_choose k (by omega)).trans (Nat.choose_le_middle k 61)
  rw [← hmiddle] at hle
  exact absurd (h.2.trans hle) (by decide)

/-- If the number of things to select has a single digit, the row is longer still. -/
theorem TooMany.lt_length_of_lt_ten (h : TooMany n k) (hk : k < 10) : 62 < n := by
  by_contra hshort
  have hle : n.choose k ≤ 62 ^ 9 :=
    calc n.choose k ≤ n ^ k := Nat.choose_le_pow n k
      _ ≤ 62 ^ k := Nat.pow_le_pow_left (by omega) k
      _ ≤ 62 ^ 9 := Nat.pow_le_pow_right (by decide) (by omega)
  exact absurd (h.2.trans hle) (by decide)

/-! ### Lists of selections -/

/-- A list has room for a selection of the whole size, however few indices there are to select from. -/
theorem list_eq_ite (len size : ℕ) : list len size =
    if size < 2 ^ 60 then .ok (indices len size) else .error .capacityOverflow := by
  -- Eight bytes for each index, and less than 2 ^ 63 bytes at once.
  have hlimit : memoryLimit = 2 ^ 60 * indexBytes := rfl
  rw [list, reserve_eq_ite hlimit (by decide)]
  split <;> rfl

theorem Enumerates.nodup {len size : ℕ} {selections : List (List ℕ)} (h : Enumerates len size selections) :
    selections.Nodup :=
  h.sorted.imp fun hlt => ne_of_lt hlt

/-- Up to the size that fits into memory, the list holds every increasing row of that many indices once and
nothing else, in lexicographic order, and there are as many of them as the binomial coefficient says. Beyond it
the list is refused, even if there is nothing to select from. -/
theorem list_enumerates (len size : ℕ) :
    (size < 2 ^ 60 → ∃ selections, list len size = .ok selections ∧
      Enumerates len size selections ∧ (∀ selection ∈ selections, selections.count selection = 1) ∧
      selections.length = len.choose size ∧
      (size = 0 → selections = [[]]) ∧ (len < size → selections = [])) ∧
    (2 ^ 60 ≤ size → list len size = .error .capacityOverflow) := by
  rw [list_eq_ite]
  constructor
  · intro hfits
    have henumerates := enumerates_indices len size
    refine ⟨indices len size, if_pos hfits, henumerates, fun selection hselection => ?_,
      length_indices len size, ?_, indicesFrom_of_lt⟩
    · exact List.count_eq_one_of_mem henumerates.nodup hselection
    · rintro rfl
      exact indicesFrom_size_zero 0 len
  · intro hlarge
    exact if_neg (Nat.not_lt.mpr hlarge)

/-- Two of four indices, and more indices than there is room for. -/
theorem list_enumerates_pairs : (2 < 2 ^ 60 ∧ 2 ^ 60 ≤ 2305843009213693957) ∧
    (∃ selections, list 4 2 = .ok selections ∧ selections.length = 6 ∧ [1, 3] ∈ selections ∧
      [3, 1] ∉ selections) ∧
    list 1 2305843009213693957 = .error .capacityOverflow := by
  obtain ⟨selections, hlist, henumerates, -, hlength, -, -⟩ := (list_enumerates 4 2).1 (by decide)
  refine ⟨⟨by decide, by decide⟩, ⟨selections, hlist, hlength, ?_, ?_⟩,
    (list_enumerates 1 2305843009213693957).2 (by decide)⟩
  · exact (henumerates.mem_iff [1, 3]).mpr (by decide)
  · rw [henumerates.mem_iff]
    decide

/-- There is no selection of so many indices, so that the empty list has them all. But it is not found. -/
theorem list_of_nothing_refused : Enumerates 0 1152921504606846976 [] ∧
    list 0 1152921504606846976 = .error .capacityOverflow := by
  constructor
  · have hempty : indices 0 1152921504606846976 = [] := indicesFrom_of_lt (by decide)
    rw [← hempty]
    exact enumerates_indices 0 1152921504606846976
  · rw [list_eq_ite]
    exact if_neg (by decide)

end Selection

namespace Pattern

variable {count : ℕ} {children : List Pattern}

theorem atLeast_eq_room_bind (hone : 1 < count) (hlt : count < children.length) :
    atLeast count children = Selection.room children.length count >>= fun _ =>
      .ok (some (any ((Selection.indices children.length count).map
        fun indices => all (indices.filterMap (children[·]?))))) := by
  rw [atLeast, if_neg (by omega), if_neg (by omega), if_neg (by omega), if_neg (by omega),
    Selection.room, bind_assoc]
  rfl

/-- Asking for some patterns of a row breaks off exactly if there are too many ways to choose them. -/
theorem exists_atLeast_eq_error_iff :
    (∃ fault, atLeast count children = .error fault) ↔ Selection.TooMany children.length count := by
  constructor
  · rintro ⟨fault, hfault⟩
    have hroom := room_of_atLeast hfault
    have hmany : 2 ^ 58 ≤ children.length.choose count := by
      by_contra hfew
      rw [(Selection.room_eq_ok_iff _ _).mpr (Nat.lt_of_not_le hfew)] at hroom
      cases hroom
    refine ⟨?_, hmany⟩
    by_contra hone
    obtain rfl | rfl : count = 0 ∨ count = 1 := by omega
    · cases hfault
    · rw [atLeast, if_neg Nat.one_ne_zero] at hfault
      split at hfault <;> cases hfault
  · rintro ⟨hone, hmany⟩
    have hlt : count < children.length := by
      rcases Nat.lt_trichotomy count children.length with hlt | rfl | hgt
      · exact hlt
      · rw [Nat.choose_self] at hmany
        exact absurd hmany (by decide)
      · rw [Nat.choose_eq_zero_of_lt hgt] at hmany
        exact absurd hmany (by decide)
    rw [atLeast_eq_room_bind hone hlt]
    cases hroom : Selection.room children.length count with
    | error fault => exact ⟨fault, rfl⟩
    | ok =>
      have hfew := (Selection.room_eq_ok_iff _ _).mp hroom
      exact absurd hmany (Nat.not_le.mpr hfew)

end Pattern

end OpeningHand
