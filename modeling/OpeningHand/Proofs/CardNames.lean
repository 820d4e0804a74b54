import Mathlib.Data.List.DropRight
import OpeningHand.Grammar.Reader

/-!
# The form of a card name

A card name is trimmed and in lowercase. Both are there for good once they are there: lowercase letters
have themselves as their lowercase, and none of them is a blank, so that a trimmed text stays trimmed.
Nor is any of them a bracket. What holds of the letters is checked along the whole case table, where the
letters of a run are the bits of a number.
-/

namespace OpeningHand

namespace Text

structure Trimmed (text : List Char) : Prop where
  head : ∀ c ∈ text.head?, isBlank c = false
  last : ∀ c ∈ text.getLast?, isBlank c = false

theorem trimEnd_eq_rdropWhile (text : List Char) : trimEnd text = text.rdropWhile isBlank := rfl

theorem trim_sublist (text : List Char) : (trim text).Sublist text :=
  (List.rdropWhile_prefix isBlank _).sublist.trans (List.dropWhile_sublist isBlank)

theorem trimmed_trim (text : List Char) : Trimmed (trim text) := by
  constructor
  · intro c hc
    have hprefix : trim text <+: trimStart text := List.rdropWhile_prefix isBlank _
    obtain ⟨after, hafter⟩ := hprefix
    have hhead : (trimStart text).head? = some c := by
      rw [← hafter, List.head?_append, hc]
      rfl
    have hnot := List.head?_dropWhile_not isBlank text
    rw [trimStart] at hhead
    rw [hhead] at hnot
    simpa using hnot
  · intro c hc
    obtain ⟨hne, rfl⟩ := List.mem_getLast?_eq_getLast hc
    have hlast := List.rdropWhile_last_not isBlank (trimStart text) hne
    exact Bool.eq_false_iff.mpr hlast

theorem Trimmed.trim_eq {text : List Char} (h : Trimmed text) : trim text = text := by
  have hstart : trimStart text = text := by
    cases text with
    | nil => rfl
    | cons c text => rw [trimStart_cons, h.head c rfl, if_neg Bool.false_ne_true]
  rw [trim, hstart, trimEnd_eq_rdropWhile, List.rdropWhile_eq_self_iff]
  intro hne
  have hlast := h.last (text.getLast hne) (List.getLast?_eq_some_getLast hne)
  rw [hlast]
  exact Bool.false_ne_true

/-! ### Letters that are their own lowercase -/

def Small (c : Char) : Prop :=
  lowerChar c = [c] ∧ c ≠ 'Σ'

/-- The character may stand in lowercase text in the place of another one. -/
structure Lowered (c : Char) : Prop where
  small : Small c
  not_blank : isBlank c = false
  not_bracket : isBracket c = false

/-- The ranges of code points that no letter has as its lowercase: blanks, brackets, the two capital
letters with rules of their own, and code points that are no characters. -/
def reservedRanges : List (Nat × Nat) :=
  [(0x9, 0xD), (0x20, 0x20), (0x28, 0x29), (0x3C, 0x3C), (0x3E, 0x3E), (0x5B, 0x5B), (0x5D, 0x5D),
    (0x85, 0x85), (0xA0, 0xA0), (0x130, 0x130), (0x3A3, 0x3A3), (0x1680, 0x1680), (0x2000, 0x200A),
    (0x2028, 0x2029), (0x202F, 0x202F), (0x205F, 0x205F), (0x3000, 0x3000), (0xD800, 0xDFFF)]

/-- The multiples of the stride, as many as the count says, as the bits of a number. -/
def stripes (stride : Nat) : Nat → Nat
  | 0 => 0
  | count + 1 => stripes stride count <<< stride ||| 1

theorem testBit_stripes {stride count index : Nat} (h : index < count) :
    (stripes stride count).testBit (stride * index) = true := by
  induction count generalizing index with
  | zero => cases h
  | succ count ih =>
    rw [stripes, Nat.testBit_or, Nat.testBit_shiftLeft]
    cases index with
    | zero => simp
    | succ index =>
      have hbit := ih (Nat.lt_of_succ_lt_succ h)
      simp [Nat.mul_succ, hbit]

namespace LowerRun

variable {run : LowerRun} {step : Nat}

def bits (run : LowerRun) (base : Nat) : Nat :=
  stripes run.stride ((run.last - run.first) / run.stride + 1) <<< base

/-- The letters that the run leads to are characters outside all reserved ranges. -/
def isPlain (run : LowerRun) : Bool :=
  run.target + (run.last - run.first) < 0x110000 && reservedRanges.all fun range =>
    run.target + (run.last - run.first) < range.1 || range.2 < run.target

theorem testBit_bits (base : Nat) (hstep : step ≤ run.last - run.first)
    (hstride : step % run.stride = 0) : (run.bits base).testBit (base + step) = true := by
  have hindex : step / run.stride < (run.last - run.first) / run.stride + 1 :=
    Nat.lt_succ_of_le (Nat.div_le_div_right hstep)
  have hmul : run.stride * (step / run.stride) = step :=
    Nat.mul_div_cancel' (Nat.dvd_of_mod_eq_zero hstride)
  have hbit : (stripes run.stride ((run.last - run.first) / run.stride + 1)).testBit step = true := by
    rw [← hmul]
    exact testBit_stripes hindex
  rw [bits, Nat.testBit_shiftLeft]
  simp [hbit]

theorem testBit_of_covers {code : Nat} (h : run.covers code) :
    (run.bits run.first).testBit code = true := by
  simp only [covers, Bool.and_eq_true, decide_eq_true_eq, beq_iff_eq] at h
  obtain ⟨⟨hfirst, hlast⟩, hstride⟩ := h
  have hstep : code - run.first ≤ run.last - run.first := by omega
  have hbit := testBit_bits run.first hstep hstride
  rwa [Nat.add_sub_cancel' hfirst] at hbit

theorem inRanges_of_isPlain (h : run.isPlain) (hstep : step ≤ run.last - run.first) :
    run.target + step < 0x110000 ∧ inRanges reservedRanges (run.target + step) = false := by
  simp only [isPlain, Bool.and_eq_true, decide_eq_true_eq, List.all_eq_true, Bool.or_eq_true] at h
  obtain ⟨hlimit, hranges⟩ := h
  refine ⟨by omega, ?_⟩
  rw [inRanges, List.any_eq_false]
  intro range hrange
  have hrun := hranges range hrange
  simp only [Bool.and_eq_true, decide_eq_true_eq]
  omega

end LowerRun

def allBits (bits : LowerRun → Nat) (runs : List LowerRun) : Nat :=
  runs.foldr (fun run others => bits run ||| others) 0

theorem testBit_allBits (bits : LowerRun → Nat) {runs : List LowerRun} {run : LowerRun} {code : Nat}
    (hrun : run ∈ runs) (h : (bits run).testBit code = true) :
    (allBits bits runs).testBit code = true := by
  induction runs with
  | nil => cases hrun
  | cons first runs ih =>
    rw [allBits, List.foldr_cons, Nat.testBit_or, Bool.or_eq_true]
    rcases List.mem_cons.mp hrun with rfl | hrun
    · exact .inl h
    · exact .inr (ih hrun)

set_option maxRecDepth 4000 in
/-- No letter is both one that a run covers and one that a run leads to. -/
private theorem lowerRuns_apart :
    allBits (fun run => run.bits run.first) lowerRuns &&&
      allBits (fun run => run.bits run.target) lowerRuns = 0 := by
  decide

private theorem lowerRuns_plain : lowerRuns.all LowerRun.isPlain = true := by
  decide

theorem lowered_of_code {code : Nat} (hlimit : code < 0x110000)
    (hreserved : inRanges reservedRanges code = false) (hlower : lowerCode code = code) :
    Lowered (Char.ofNat code) := by
  have houtside : ∀ range ∈ reservedRanges, code < range.1 ∨ range.2 < code := by
    intro range hrange
    have hrange := List.any_eq_false.mp hreserved range hrange
    simp only [Bool.and_eq_true, decide_eq_true_eq] at hrange
    omega
  simp only [reservedRanges, List.forall_mem_cons] at houtside
  have hvalid : code.isValidChar := by
    simp only [Nat.isValidChar]
    omega
  have hcode : (Char.ofNat code).toNat = code := by
    rw [Char.ofNat, dif_pos hvalid]
    rfl
  have hne : ∀ c : Char, inRanges reservedRanges c.toNat = true → Char.ofNat code ≠ c := by
    rintro c hc rfl
    rw [hcode, hreserved] at hc
    cases hc
  refine ⟨⟨?_, hne 'Σ' (by decide)⟩, ?_, ?_⟩
  · rw [lowerChar, if_neg (hne 'İ' (by decide)), hcode, hlower]
  · simp only [isBlank, hcode, Bool.or_eq_false_iff, Bool.and_eq_false_iff, decide_eq_false_iff_not,
      beq_eq_false_iff_ne]
    omega
  · have hchecked : ['[', ']', '<', '>', '(', ')'].all (inRanges reservedRanges ·.toNat) = true := by
      decide
    have hbrackets : ∀ c ∈ ['[', ']', '<', '>', '(', ')'], Char.ofNat code ≠ c := by
      intro c hc
      exact hne c (List.all_eq_true.mp hchecked c hc)
    simp only [List.forall_mem_cons] at hbrackets
    obtain ⟨hopen, hclose, hless, hgreater, hleft, hright, -⟩ := hbrackets
    simp only [isBracket, Bool.or_eq_false_iff, beq_eq_false_iff_ne]
    exact ⟨⟨⟨⟨⟨hopen, hclose⟩, hless⟩, hgreater⟩, hleft⟩, hright⟩

/-- A code point stays as it is, or becomes that of a letter which stays as it is. -/
theorem lowerCode_eq_or_lowered (code : Nat) :
    lowerCode code = code ∨ Lowered (Char.ofNat (lowerCode code)) := by
  cases hfound : lowerRuns.find? (·.covers code) with
  | none => exact .inl (by rw [lowerCode, hfound])
  | some run =>
    have hmem := List.mem_of_find?_eq_some hfound
    have hcovers := List.find?_some hfound
    simp only [LowerRun.covers, Bool.and_eq_true, decide_eq_true_eq, beq_iff_eq] at hcovers
    obtain ⟨⟨hfirst, hlast⟩, hstride⟩ := hcovers
    have hstep : code - run.first ≤ run.last - run.first := by omega
    have htarget : lowerCode code = run.target + (code - run.first) := by rw [lowerCode, hfound]
    have hplain := List.all_eq_true.mp lowerRuns_plain run hmem
    obtain ⟨hlimit, hreserved⟩ := LowerRun.inRanges_of_isPlain hplain hstep
    have hnone : lowerRuns.find? (·.covers (run.target + (code - run.first))) = none := by
      apply List.find?_eq_none.mpr
      intro other hother hcovers
      have hupper := testBit_allBits (fun run => run.bits run.first) hother
        (LowerRun.testBit_of_covers hcovers)
      have hlower := testBit_allBits (fun run => run.bits run.target) hmem
        (LowerRun.testBit_bits run.target hstep hstride)
      have hboth := congrArg (Nat.testBit · (run.target + (code - run.first))) lowerRuns_apart
      simp only [Nat.testBit_and, hupper, hlower, Nat.zero_testBit] at hboth
      cases hboth
    rw [htarget]
    exact .inr (lowered_of_code hlimit hreserved (by rw [lowerCode, hnone]))

/-- A character of the lowercase of a letter is the letter itself, or has taken its place. -/
theorem mem_lowerChar {c d : Char} (hc : c ≠ 'Σ') (h : d ∈ lowerChar c) :
    (d = c ∧ Small d) ∨ Lowered d := by
  rw [lowerChar] at h
  split at h
  · have hletter : Lowered 'i' := lowered_of_code (by decide) (by decide) (by decide)
    have hdot : Lowered '\u0307' := lowered_of_code (by decide) (by decide) (by decide)
    rcases List.mem_cons.mp h with rfl | h
    · exact .inr hletter
    · exact .inr (List.mem_singleton.mp h ▸ hdot)
  · next hdotted =>
    rw [List.mem_singleton] at h
    rcases lowerCode_eq_or_lowered c.toNat with hsame | hlowered
    · rw [hsame, Char.ofNat_toNat] at h
      refine .inl ⟨h, ?_, h ▸ hc⟩
      rw [h, lowerChar, if_neg hdotted, hsame, Char.ofNat_toNat]
    · exact .inr (h ▸ hlowered)

theorem lowered_smallSigma (before after : List Char) : Lowered (smallSigma before after) := by
  have hfinal : Lowered 'ς' := lowered_of_code (by decide) (by decide) (by decide)
  have hinner : Lowered 'σ' := lowered_of_code (by decide) (by decide) (by decide)
  rw [smallSigma]
  split
  · exact hfinal
  · exact hinner

/-! ### Lowercase text -/

/-- Every character of a text leaves at least one character in its lowercase. -/
theorem lowercaseAfter_cons (before : List Char) (c : Char) (after : List Char) :
    ∃ letters, letters ≠ [] ∧
      lowercaseAfter before (c :: after) = letters ++ lowercaseAfter (c :: before) after ∧
      ∀ d ∈ letters, (d = c ∧ Small d) ∨ Lowered d := by
  refine ⟨_, ?_, rfl, ?_⟩
  · split
    · exact List.cons_ne_nil _ _
    · rw [lowerChar]
      split <;> exact List.cons_ne_nil _ _
  · intro d hd
    split at hd
    · rw [List.mem_singleton.mp hd]
      exact .inr (lowered_smallSigma before after)
    · next hc => exact mem_lowerChar hc hd

theorem lowercaseAfter_ne_nil {before text : List Char} (h : text ≠ []) :
    lowercaseAfter before text ≠ [] := by
  cases text with
  | nil => exact absurd rfl h
  | cons c after =>
    obtain ⟨letters, hne, heq, -⟩ := lowercaseAfter_cons before c after
    rw [heq]
    exact List.append_ne_nil_of_left_ne_nil hne _

theorem mem_lowercaseAfter {before text : List Char} {d : Char}
    (h : d ∈ lowercaseAfter before text) : (d ∈ text ∧ Small d) ∨ Lowered d := by
  induction text generalizing before with
  | nil => cases h
  | cons c after ih =>
    obtain ⟨letters, -, heq, hletters⟩ := lowercaseAfter_cons before c after
    rw [heq] at h
    rcases List.mem_append.mp h with h | h
    · rcases hletters d h with ⟨rfl, hsmall⟩ | hlowered
      · exact .inl ⟨List.mem_cons_self, hsmall⟩
      · exact .inr hlowered
    · rcases ih h with ⟨hmem, hsmall⟩ | hlowered
      · exact .inl ⟨List.mem_cons_of_mem _ hmem, hsmall⟩
      · exact .inr hlowered

theorem small_of_mem_lowercaseAfter {before text : List Char} {d : Char}
    (h : d ∈ lowercaseAfter before text) : Small d := by
  rcases mem_lowercaseAfter h with ⟨-, hsmall⟩ | hlowered
  · exact hsmall
  · exact hlowered.small

theorem lowercaseAfter_of_small {before text : List Char} (h : ∀ c ∈ text, Small c) :
    lowercaseAfter before text = text := by
  induction text generalizing before with
  | nil => rfl
  | cons c after ih =>
    obtain ⟨⟨hsame, hsigma⟩, hafter⟩ := List.forall_mem_cons.mp h
    rw [lowercaseAfter, if_neg hsigma, hsame, ih hafter]
    rfl

/-- The lowercase of a text is its own lowercase. -/
@[simp] theorem lowercase_lowercase (text : List Char) : lowercase (lowercase text) = lowercase text :=
  lowercaseAfter_of_small fun _ => small_of_mem_lowercaseAfter

theorem head_lowercaseAfter {before text : List Char} (h : ∀ c ∈ text.head?, isBlank c = false) :
    ∀ d ∈ (lowercaseAfter before text).head?, isBlank d = false := by
  intro d hd
  cases text with
  | nil => cases hd
  | cons c after =>
    obtain ⟨letters, hne, heq, hletters⟩ := lowercaseAfter_cons before c after
    rw [heq, List.head?_append_of_ne_nil _ hne] at hd
    rcases hletters d (List.mem_of_mem_head? hd) with ⟨rfl, -⟩ | hlowered
    · exact h d rfl
    · exact hlowered.not_blank

theorem last_lowercaseAfter {before text : List Char} (h : ∀ c ∈ text.getLast?, isBlank c = false) :
    ∀ d ∈ (lowercaseAfter before text).getLast?, isBlank d = false := by
  induction text generalizing before with
  | nil => intro d hd; cases hd
  | cons c after ih =>
    intro d hd
    obtain ⟨letters, -, heq, hletters⟩ := lowercaseAfter_cons before c after
    rw [heq] at hd
    -- The last letter comes from the last character, and what follows is never empty before that.
    cases after with
    | nil =>
      rw [lowercaseAfter, List.append_nil] at hd
      rcases hletters d (List.mem_of_mem_getLast? hd) with ⟨rfl, -⟩ | hlowered
      · exact h d rfl
      · exact hlowered.not_blank
    | cons next after =>
      rw [List.getLast?_append_of_ne_nil _ (lowercaseAfter_ne_nil (List.cons_ne_nil _ _))] at hd
      exact ih (fun last hlast => h last (by rwa [List.getLast?_cons_cons])) d hd

theorem Trimmed.lowercase {text : List Char} (h : Trimmed text) : Trimmed (lowercase text) :=
  ⟨head_lowercaseAfter h.head, last_lowercaseAfter h.last⟩

end Text

namespace Card

theorem toList_ofName (name : List Char) : (ofName name).toList = Text.lowercase (Text.trim name) :=
  String.toList_ofList

theorem trimmed_ofName (name : List Char) : Text.Trimmed (ofName name).toList := by
  rw [toList_ofName]
  exact (Text.trimmed_trim name).lowercase

/-- The name of a card, read as a written name, means the card. -/
@[simp] theorem ofName_toList_ofName (name : List Char) : ofName (ofName name).toList = ofName name := by
  rw [ofName, (trimmed_ofName name).trim_eq, toList_ofName, Text.lowercase_lowercase, ofName]

theorem toList_ofName_ne_nil {name : List Char} (h : Text.trim name ≠ []) :
    (ofName name).toList ≠ [] := by
  rw [toList_ofName]
  exact Text.lowercaseAfter_ne_nil h

/-- A card name has no more brackets than the written name. -/
theorem not_bracket_of_mem_ofName {name : List Char} (h : ∀ c ∈ name, isBracket c = false) :
    ∀ c ∈ (ofName name).toList, isBracket c = false := by
  intro c hc
  rw [toList_ofName] at hc
  rcases Text.mem_lowercaseAfter hc with ⟨hmem, -⟩ | hlowered
  · exact h c ((Text.trim_sublist name).subset hmem)
  · exact hlowered.not_bracket

end Card

end OpeningHand
