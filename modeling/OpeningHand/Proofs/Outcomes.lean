/-!
# Outcomes of computations that may fail

What a computation in several parts gives, if it gives anything, each part has had a share in.
-/

namespace OpeningHand

variable {ε α β : Type} {first : Except ε α} {next : α → Except ε β}

/-- A computation that succeeds has gone through its first part. -/
theorem exists_of_bind_eq_ok {result : β} (h : first >>= next = .ok result) :
    ∃ value, first = .ok value ∧ next value = .ok result := by
  cases first with
  | error failure => cases h
  | ok value => exact ⟨value, rfl, h⟩

/-- The computation fails, or its result is as it should be. -/
structure Accepts (good : α → Prop) (outcome : Except ε α) : Prop where
  of_eq_ok : ∀ value, outcome = .ok value → good value

namespace Accepts

variable {good : α → Prop} {better : β → Prop}

theorem ok {value : α} (h : good value) : Accepts good (.ok value : Except ε α) := by
  constructor
  rintro _ ⟨⟩
  exact h

theorem error (failure : ε) : Accepts good (.error failure : Except ε α) := by
  constructor
  rintro _ ⟨⟩

theorem bind (h : Accepts good first) (hnext : ∀ value, good value → Accepts better (next value)) :
    Accepts better (first >>= next) := by
  constructor
  intro result hresult
  obtain ⟨value, hvalue, hrest⟩ := exists_of_bind_eq_ok hresult
  exact (hnext value (h.of_eq_ok value hvalue)).of_eq_ok result hrest

/-- The result of the first part does not matter for what comes out. -/
theorem after (hnext : ∀ value, Accepts better (next value)) : Accepts better (first >>= next) := by
  constructor
  intro result hresult
  obtain ⟨value, -, hrest⟩ := exists_of_bind_eq_ok hresult
  exact (hnext value).of_eq_ok result hrest

end Accepts

/-- Both computations fail in the same way, or both have results, and these belong together. -/
inductive Together (related : α → β → Prop) : Except ε α → Except ε β → Prop
  | ok {value : α} {other : β} (h : related value other) : Together related (.ok value) (.ok other)
  | error (failure : ε) : Together related (.error failure) (.error failure)

namespace Together

variable {γ δ : Type} {related : α → β → Prop} {later : γ → δ → Prop} {second : Except ε β}

theorem bind {next : α → Except ε γ} {others : β → Except ε δ} (h : Together related first second)
    (hnext : ∀ value other, related value other → Together later (next value) (others other)) :
    Together later (first >>= next) (second >>= others) := by
  cases h with
  | ok hvalue => exact hnext _ _ hvalue
  | error failure => exact .error failure

theorem eq {other : Except ε α} (h : Together Eq first other) : first = other := by
  cases h with
  | ok hvalue => rw [hvalue]
  | error failure => rfl

end Together

end OpeningHand
