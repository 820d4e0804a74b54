import OpeningHand.Count
import OpeningHand.Fault

/-!
# Selections

A selection of `size` things out of a row is named by their indices in increasing order. This module
lists all selections in lexicographic order, and counts them by the product formula. Room for a list
is made before the list, so a list whose length is known to be too large is refused at once.
-/

namespace OpeningHand.Selection

/-- The selections of a given size from the indices `start, …, start + len - 1`, given `start`, `len`
and the size: first those with the index `start`, then those without it, and none at all if there are
too few indices. -/
def indicesFrom : Nat → Nat → Nat → List (List Nat)
  | _, _, 0 => [[]]
  | _, 0, _ + 1 => []
  | start, len + 1, size + 1 =>
    if len < size then []
    else
      (indicesFrom (start + 1) len size).map (start :: ·) ++
        indicesFrom (start + 1) len (size + 1)

def indices (len size : Nat) : List (List Nat) :=
  indicesFrom 0 len size

def memoryLimit : Nat := UInt64.size / 2

/-- Room for a list of a given length, whose entries have a given number of bytes. -/
def reserve (length bytes : Nat) : Except Fault Unit :=
  if length * bytes < memoryLimit then .ok () else .error .capacityOverflow

def indexBytes : Nat := 8

/-- The selections of a given size from the indices below `len`, each put together in a list with room
for its whole size. -/
def list (len size : Nat) : Except Fault (List (List Nat)) := do
  reserve size indexBytes
  return indices len size

@[simp] theorem indicesFrom_size_zero (start len : Nat) : indicesFrom start len 0 = [[]] := by
  cases len <;> rfl

@[simp] theorem indicesFrom_len_zero (start size : Nat) : indicesFrom start 0 (size + 1) = [] := rfl

theorem indicesFrom_of_lt {start len size : Nat} (h : len < size) :
    indicesFrom start len size = [] := by
  match len, size with
  | 0, _ + 1 => rfl
  | len + 1, size + 1 => exact if_pos (Nat.lt_of_succ_lt_succ h)

/-- The case of too few indices needs no test: both parts are empty then. -/
theorem indicesFrom_succ (start len size : Nat) :
    indicesFrom start (len + 1) (size + 1) =
      (indicesFrom (start + 1) len size).map (start :: ·) ++
        indicesFrom (start + 1) len (size + 1) := by
  by_cases h : len < size
  · rw [indicesFrom_of_lt (Nat.succ_lt_succ h), indicesFrom_of_lt h,
      indicesFrom_of_lt (Nat.lt_succ_of_lt h)]
    rfl
  · exact if_neg h

def countFrom (n : Nat) : Nat → Nat → Nat → Except Fault Nat
  | 0, _, value => .ok value
  | steps + 1, i, value =>
    if value * (n - i) < countLimit then countFrom n steps (i + 1) (value * (n - i) / (i + 1))
    else .error .productOverflow

/-- The number of selections of `k` things out of `n`, computed with the smaller of `k` and `n - k`
factors. -/
def count (n k : Nat) : Except Fault Nat :=
  if n < k then .ok 0 else countFrom n (min k (n - k)) 0 1

example : indices 4 2 = [[0, 1], [0, 2], [0, 3], [1, 2], [1, 3], [2, 3]] := by decide

example : count 10 3 = .ok 120 := rfl

example : count 62 31 = .ok 465428353255261088 := rfl

example : count 63 31 = .error .productOverflow := rfl

end OpeningHand.Selection
