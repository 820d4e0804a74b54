/-!
# Blank characters

A text is handled as its list of characters. This module holds the characters that separate words,
the Unicode property `White_Space`, and the removal of them from either end of a text.
-/

namespace OpeningHand.Text

/-- The 25 characters of the Unicode property `White_Space`. -/
def isBlank (c : Char) : Bool :=
  let n := c.toNat
  (9 ≤ n && n ≤ 13) || n == 0x20 || n == 0x85 || n == 0xA0 || n == 0x1680 ||
    (0x2000 ≤ n && n ≤ 0x200A) || n == 0x2028 || n == 0x2029 || n == 0x202F ||
    n == 0x205F || n == 0x3000

def trimStart (text : List Char) : List Char :=
  text.dropWhile isBlank

def trimEnd (text : List Char) : List Char :=
  (text.reverse.dropWhile isBlank).reverse

/-- The text without blanks at either end; blanks inside are kept. -/
def trim (text : List Char) : List Char :=
  trimEnd (trimStart text)

def startsBlank (text : List Char) : Bool :=
  text.head?.any isBlank

@[simp] theorem trimStart_nil : trimStart [] = [] := rfl

@[simp] theorem trimEnd_nil : trimEnd [] = [] := rfl

@[simp] theorem trim_nil : trim [] = [] := rfl

theorem trimStart_cons (c : Char) (text : List Char) :
    trimStart (c :: text) = if isBlank c then trimStart text else c :: text := by
  cases h : isBlank c <;> simp [trimStart, h]

/-- Taking blanks off the front twice takes no more than taking them off once. -/
@[simp] theorem trimStart_trimStart (text : List Char) :
    trimStart (trimStart text) = trimStart text := by
  induction text with
  | nil => rfl
  | cons c text ih => rw [trimStart_cons]; split <;> simp_all [trimStart_cons]

/-- The same at the other end, since the end of a text is the front of its reverse. -/
@[simp] theorem trimEnd_trimEnd (text : List Char) : trimEnd (trimEnd text) = trimEnd text := by
  have h := trimStart_trimStart text.reverse
  simp only [trimStart] at h
  simp [trimEnd, h]

end OpeningHand.Text
