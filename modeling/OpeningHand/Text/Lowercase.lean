import OpeningHand.Text.CaseTable

/-!
# Lowercase text

The full Unicode lowercase mapping. Three rules need more than the table of single letters: a capital
I with a dot becomes two characters, and a capital sigma has one small form at the end of a word and
another one elsewhere.
-/

namespace OpeningHand.Text

def lowerCode (code : Nat) : Nat :=
  match lowerRuns.find? (·.covers code) with
  | some run => run.target + (code - run.first)
  | none => code

def lowerChar (c : Char) : List Char :=
  if c = 'İ' then ['i', '\u0307'] else [Char.ofNat (lowerCode c.toNat)]

def startsCased (text : List Char) : Bool :=
  match text.dropWhile (fun c => inRanges caseIgnorableRanges c.toNat) with
  | c :: _ => inRanges casedRanges c.toNat
  | [] => false

/-- The small sigma between the text before it, last character first, and the text after it: the
final form if a word ends here. -/
def smallSigma (before after : List Char) : Char :=
  if startsCased before && !startsCased after then 'ς' else 'σ'

/-- The lowercase of a text that stands behind another one, which is given last character first. -/
def lowercaseAfter (before : List Char) : List Char → List Char
  | [] => []
  | c :: after =>
    (if c = 'Σ' then [smallSigma before after] else lowerChar c) ++
      lowercaseAfter (c :: before) after

def lowercase (text : List Char) : List Char :=
  lowercaseAfter [] text

@[simp] theorem lowercase_nil : lowercase [] = [] := rfl

example : lowercase "SOL RING".toList = "sol ring".toList := by decide +kernel

example : lowercase "ΟΔΟΣ ΣΑΣ.".toList = "οδος σας.".toList := by decide +kernel

example : lowercase "ÁΣ\u00AD Σ".toList = "áς\u00AD σ".toList := by decide +kernel

end OpeningHand.Text
