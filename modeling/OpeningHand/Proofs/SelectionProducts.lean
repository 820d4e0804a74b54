import OpeningHand.Proofs.SelectionRoom

/-!
# The products of a count

A count of selections multiplies and divides in turn. After each pass it stands at a binomial coefficient, so
no division leaves a remainder. The products grow from pass to pass, and whether a count breaks off depends on
the last one alone. It may be too large although the number of selections itself would fit.
-/

namespace OpeningHand.Selection

variable {n k : ℕ}

/-- What a count has come to after a number of passes. -/
def countAfter (n passes : ℕ) : Except Fault ℕ :=
  countFrom n passes 0 1

theorem count_eq_countAfter (h : k ≤ n) : count n k = countAfter n (min k (n - k)) := by
  rw [count, if_neg (Nat.not_lt.mpr h), countAfter]

/-- In the left half the products grow. -/
theorem choose_mul_le_choose_mul {j : ℕ} (hjk : j ≤ k) (h : 2 * k ≤ n) :
    n.choose j * j ≤ n.choose k * k :=
  Nat.mul_le_mul (choose_le_choose_of_le hjk h) hjk

/-- If the last product fits, so do those before it. -/
theorem countAfter_eq_ok_iff {passes : ℕ} (h : 2 * passes ≤ n) {value : ℕ} :
    countAfter n passes = .ok value ↔
      n.choose passes * passes < countLimit ∧ value = n.choose passes := by
  have hstart : countAfter n passes = countFrom n passes 0 (n.choose 0) := by
    rw [Nat.choose_zero_right, countAfter]
  rw [hstart, countFrom_choose_eq_ok_iff, Nat.zero_add]
  refine and_congr_left fun _ => ⟨fun hfits => ?_, fun hlast j _ hj => ?_⟩
  · rcases Nat.eq_zero_or_pos passes with rfl | hpos
    · rw [Nat.mul_zero]
      decide
    · exact hfits passes hpos le_rfl
  · exact (choose_mul_le_choose_mul hj h).trans_lt hlast

theorem countAfter_eq_ok {passes last : ℕ} (hle : passes ≤ last) (h : 2 * last ≤ n)
    (hlast : n.choose last * last < countLimit) : countAfter n passes = .ok (n.choose passes) :=
  (countAfter_eq_ok_iff (by omega)).mpr ⟨(choose_mul_le_choose_mul hle h).trans_lt hlast, rfl⟩

/-- A count that does not end breaks off because a product is too large. -/
theorem countAfter_eq_error {passes : ℕ} (h : 2 * passes ≤ n)
    (hlarge : countLimit ≤ n.choose passes * passes) :
    countAfter n passes = .error .productOverflow := by
  cases hcount : countAfter n passes with
  | error fault => rw [countFrom_eq_error hcount]
  | ok value =>
    have hfits := ((countAfter_eq_ok_iff h).mp hcount).1
    omega

/-- The product of the last pass decides. If it fits, then every product does, every division is exact, and the
count is the binomial coefficient; otherwise the count breaks off. Of more things than there are, there is no
selection. -/
theorem count_exact_up_to_last_product (n k : ℕ) :
    (k ≤ n →
      (min k (n - k) * n.choose k < 2 ^ 64 → count n k = .ok (n.choose k) ∧
        ∀ i < min k (n - k), ∃ value, countAfter n i = .ok value ∧
          value * (n - i) < 2 ^ 64 ∧ i + 1 ∣ value * (n - i) ∧
          countAfter n (i + 1) = .ok (value * (n - i) / (i + 1))) ∧
      (2 ^ 64 ≤ min k (n - k) * n.choose k → count n k = .error .productOverflow)) ∧
    (n < k → count n k = .ok 0) := by
  have hlimit : countLimit = 2 ^ 64 := rfl
  refine ⟨fun hle => ?_, fun hlt => by rw [count, if_pos hlt]⟩
  have hhalf : 2 * min k (n - k) ≤ n := by omega
  rw [count_eq_countAfter hle, Nat.mul_comm, ← choose_min hle, ← hlimit]
  refine ⟨fun hfits => ⟨countAfter_eq_ok le_rfl hhalf hfits, fun i hi => ?_⟩,
    countAfter_eq_error hhalf⟩
  have hproduct : n.choose i * (n - i) = n.choose (i + 1) * (i + 1) :=
    (Nat.choose_succ_right_eq n i).symm
  refine ⟨n.choose i, countAfter_eq_ok (by omega) hhalf hfits, ?_, ?_, ?_⟩
  · rw [hproduct]
    exact (choose_mul_le_choose_mul hi hhalf).trans_lt hfits
  · rw [hproduct]
    exact Nat.dvd_mul_left _ _
  · rw [hproduct, Nat.mul_div_cancel _ (Nat.succ_pos i)]
    exact countAfter_eq_ok hi hhalf hfits

/-- The middle of row 62 is counted. That of row 63 would fit as well, but the last product on the way does
not. -/
theorem count_exact_up_to_last_product_middle :
    (31 ≤ 62 ∧ min 31 (62 - 31) * Nat.choose 62 31 < 2 ^ 64) ∧
    (31 ≤ 63 ∧ 2 ^ 64 ≤ min 31 (63 - 31) * Nat.choose 63 31 ∧ Nat.choose 63 31 < 2 ^ 64) ∧ 5 < 7 ∧
    count 62 31 = .ok (Nat.choose 62 31) ∧ count 63 31 = .error .productOverflow ∧
    count 5 7 = .ok 0 := by
  have hfits : min 31 (62 - 31) * Nat.choose 62 31 < 2 ^ 64 := by
    rw [Nat.choose_eq_factorial_div_factorial (by decide)]
    decide
  have hmiddle : Nat.choose 63 31 = 916312070471295267 := by
    rw [Nat.choose_eq_factorial_div_factorial (by decide)]
    decide
  have hlarge : 2 ^ 64 ≤ min 31 (63 - 31) * Nat.choose 63 31 := by
    rw [hmiddle]
    decide
  exact ⟨⟨by decide, hfits⟩, ⟨by decide, hlarge, by rw [hmiddle]; decide⟩, by decide,
    (((count_exact_up_to_last_product 62 31).1 (by decide)).1 hfits).1,
    ((count_exact_up_to_last_product 63 31).1 (by decide)).2 hlarge,
    (count_exact_up_to_last_product 5 7).2 (by decide)⟩

end OpeningHand.Selection
