import Mathlib
import OpeningHand.Proofs.OverloadedTexts
import OpeningHand.RuleBook

/-!
# Lines that break off reading

A row with too many selections has more than 61 patterns, and each of them takes at least three characters.
So a line has to be long to break off reading. If one does, there is no rule book of the whole text, and the
other lines are lost as well. This is about numbers that do not fit and about room that is asked for at once:
memory and stack are taken to suffice for everything that is read or listed piece by piece.
-/

namespace OpeningHand

namespace Grammar

/-! ### How much text it takes -/

theorem length_trim_le (text : List Char) : (Text.trim text).length ≤ text.length := by
  rw [Text.trim, Text.trimEnd, List.length_reverse]
  refine (List.dropWhile_sublist _).length_le.trans ?_
  rw [List.length_reverse]
  exact (List.dropWhile_sublist _).length_le

section Parts

variable {text : List Char} {count : ℕ}

theorem Mark.length_pos {c : Char} (h : Mark c text) : 1 ≤ text.length := by
  cases h
  rw [List.length_append]
  exact Nat.le_add_left 1 _

theorem Name.length_pos (h : Name text) : 1 ≤ text.length := by
  apply List.length_pos_of_ne_nil
  rintro rfl
  exact h.visible rfl

theorem Word.length_le {word : String} (h : Word word text) : word.toList.length ≤ text.length :=
  h.trim_eq ▸ length_trim_le text

theorem Digits.length_pos (h : Digits text count) : 1 ≤ text.length :=
  List.length_pos_of_ne_nil h.ne_nil

/-- A single digit stands for less than ten. -/
theorem Digits.two_le_length (h : Digits text count) (hcount : 10 ≤ count) : 2 ≤ text.length := by
  by_contra hshort
  have hone : text.length = 1 := by
    have hpos := h.length_pos
    omega
  obtain ⟨digit, rfl⟩ := List.length_eq_one_iff.mp hone
  have hdigit := h.digits digit List.mem_cons_self
  have hvalue : 10 * 0 + (digit.toNat - '0'.toNat) = count := h.value
  rw [Char.isDigit_iff_toNat] at hdigit
  have hzero : '0'.toNat = 48 := rfl
  have hnine : '9'.toNat = 57 := rfl
  omega

theorem Numeral.length_pos (h : Numeral text count) : 1 ≤ text.length := by
  cases h with
  | unsigned h => exact h.length_pos
  | signed h => exact Nat.le_add_left 1 _

theorem Numeral.two_le_length (h : Numeral text count) (hcount : 10 ≤ count) : 2 ≤ text.length := by
  cases h with
  | unsigned h => exact h.two_le_length hcount
  | signed h => exact Nat.succ_le_succ h.length_pos

/-- The parentheses around a count and its digits. -/
theorem Argument.length_le (h : Argument text count) :
    3 ≤ text.length ∧ (10 ≤ count → 4 ≤ text.length) := by
  cases h with
  | @mk opening text closing _ hopening hrun hcount hclosing =>
    have hopening := hopening.length_pos
    have hclosing := hclosing.length_pos
    have hdigits := hcount.length_pos.trans (length_trim_le text)
    rw [List.length_append, List.length_append]
    refine ⟨by omega, fun hten => ?_⟩
    have hdigits := (hcount.two_le_length hten).trans (length_trim_le text)
    omega

end Parts

/-- The parentheses of a row alone. -/
theorem Row.two_le_length {text : List Char} {children : List Pattern} (h : Row text children) :
    2 ≤ text.length := by
  cases h with
  | mk hopening hitems hclosing =>
    have hopening := hopening.length_pos
    have hclosing := hclosing.length_pos
    simp only [List.length_append]
    omega

theorem Function.two_le_length {text : List Char} {pattern : Pattern} (h : Function text pattern) :
    2 ≤ text.length := by
  cases h with
  | any _ hrow | all _ hrow | absent _ hrow | threshold _ _ hrow =>
    have hrow := hrow.two_le_length
    simp only [List.length_append]
    omega

mutual

theorem Atom.three_le_length : ∀ {text pattern}, Atom text pattern → 3 ≤ text.length
  | _, _, .card hopening hname hclosing | _, _, .named hopening hname hclosing => by
    have hopening := hopening.length_pos
    have hname := hname.length_pos
    have hclosing := hclosing.length_pos
    simp only [List.length_append]
    omega
  | _, _, .group hopening hcompound hclosing => by
    have hcompound := hcompound.three_le_length
    simp only [List.length_append]
    omega
  | _, _, .function hopening hfunction => by
    have hopening := hopening.length_pos
    have hfunction := hfunction.two_le_length
    simp only [List.length_append]
    omega

theorem Counted.three_le_length : ∀ {text pattern}, Counted text pattern → 3 ≤ text.length
  | _, _, .mk _ _ hatom _ => by
    have hatom := hatom.three_le_length
    simp only [List.length_append]
    omega

theorem Compound.three_le_length : ∀ {text pattern}, Compound text pattern → 3 ≤ text.length
  | _, _, .single h => h.three_le_length
  | _, _, .joined hfirst _ _ => by
    have hfirst := hfirst.three_le_length
    simp only [List.length_append]
    omega

end

theorem Items.length_le {text : List Char} {children : List Pattern} (h : Items text children) :
    3 * children.length ≤ text.length := by
  cases h with
  | nil => exact le_rfl
  | cons hpattern hothers =>
    have hpattern := hpattern.three_le_length
    have hothers := hothers.length_le
    simp only [List.length_append, List.length_cons]
    omega

theorem Row.length_le {text : List Char} {children : List Pattern} (h : Row text children) :
    3 * children.length + 2 ≤ text.length := by
  cases h with
  | mk hopening hitems hclosing =>
    have hopening := hopening.length_pos
    have hitems := hitems.length_le
    have hclosing := hclosing.length_pos
    simp only [List.length_append]
    omega

/-- A count, its word and the row of which there are too many selections. -/
theorem length_le_of_tooMany {word argument row : List Char} {count : ℕ} {children : List Pattern}
    (hword : Word "xof" word ∨ Word "atleast" word) (hargument : Argument argument count)
    (hrow : Row row children) (hmany : Selection.TooMany children.length count) :
    195 ≤ word.length + argument.length + row.length := by
  have hword : 3 ≤ word.length := by
    rcases hword with hword | hword
    · exact hword.length_le
    · exact (by decide : 3 ≤ "atleast".toList.length).trans hword.length_le
  obtain ⟨hargument, hten⟩ := hargument.length_le
  have hrow := hrow.length_le
  have hlong := hmany.lt_length
  rcases Nat.lt_or_ge count 10 with hcount | hcount
  · have hlonger := hmany.lt_length_of_lt_ten hcount
    omega
  · have hargument := hten hcount
    omega

/-- The text from the word for a function on takes one character less than any other. -/
theorem Overloaded.length_le {place : Place} {text : List Char} (h : Overloaded place text) :
    195 ≤ text.length ∧ (place ≠ .function → 196 ≤ text.length) := by
  induction h with
  | group hopening _ ih | atFunction hopening _ ih | row hopening _ ih =>
    have hopening := hopening.length_pos
    have hlong := ih.1
    simp only [List.length_append]
    omega
  | counted _ _ _ ih | behindFirst _ _ ih | behindOperand _ _ _ ih | behindItem _ _ ih =>
    have hlong := ih.2 (by rintro ⟨⟩)
    simp only [List.length_append]
    omega
  | first _ ih | item _ ih => exact ⟨ih.1, fun _ => ih.2 (by rintro ⟨⟩)⟩
  | operand _ _ ih =>
    have hlong := ih.2 (by rintro ⟨⟩)
    simp only [List.length_append]
    omega
  | plain _ _ _ ih | threshold _ _ _ ih =>
    have hlong := ih.1
    refine ⟨?_, fun hne => (hne rfl).elim⟩
    simp only [List.length_append]
    omega
  | tooMany hword hargument hrow hmany =>
    have hlong := length_le_of_tooMany hword hargument hrow hmany
    refine ⟨?_, fun hne => (hne rfl).elim⟩
    simp only [List.length_append]
    omega

theorem Heading.three_le_length {isCriterion : Bool} {heading name : List Char}
    (h : Heading isCriterion heading name) : 3 ≤ heading.length := by
  cases h with
  | plain hopening hname hclosing =>
    have hopening := hopening.length_pos
    have hname := hname.length_pos
    have hclosing := hclosing.length_pos
    simp only [List.length_append]
    omega
  | criterion hopening hname hclosing hsecond =>
    have hname := hname.length_pos
    have hclosing := hclosing.length_pos
    simp only [List.length_append, List.length_cons]
    omega

/-- A line of less than 200 characters never breaks off reading. -/
theorem OverloadedLine.length_le {line : List Char} (h : OverloadedLine line) : 200 ≤ line.length := by
  cases h with
  | mk hheading hcolon h =>
    have hheading := hheading.three_le_length
    have hcolon := hcolon.length_pos
    have hlong := h.length_le.2 (by rintro ⟨⟩)
    simp only [List.length_append]
    omega

end Grammar

open Grammar

/-! ### Texts of several lines -/

theorem Declaration.ok_or_malformed_iff (line : List Char) :
    ((∃ declaration, read line = .ok declaration) ∨
      ∃ diagnostic, read line = .error (.malformed diagnostic)) ↔ ¬OverloadedLine line := by
  rw [← breaksOff_read_iff, BreaksOff]
  cases read line with
  | ok declaration => simp
  | error failure => cases failure <;> simp

/-- A line that breaks off reading begins as a declaration does, so it is no comment. -/
theorem Grammar.OverloadedLine.not_comment {line : List Char} (h : OverloadedLine line) :
    Text.isComment line = false := by
  have hstart : ∃ c more, line = c :: more ∧ (isSpace c = true ∨ Begins c) := by
    cases h with
    | mk hheading hcolon h =>
      obtain ⟨opening, closing, second, hopening, -, -, -, rfl⟩ := hheading.exists_eq
      rw [List.append_assoc]
      exact Begins.exists_eq_cons (.inr ⟨.name, rfl⟩) (hopening.dropWhile rfl _)
  obtain ⟨c, more, rfl, hc⟩ := hstart
  have hmark : c ≠ '#' ∧ c ≠ '/' := by
    constructor
    all_goals
      rintro rfl
      rcases hc with hspace | hdigit | ⟨opening, hopening⟩
      · cases hspace
      · cases hdigit
      · cases opening <;> cases hopening
  simp [Text.isComment, List.isPrefixOf, hmark.1.symm, hmark.2.symm]

/-- A line of 200 characters may break off reading. -/
theorem Declaration.narrowLine_overloaded : narrowLine.length = 200 ∧ OverloadedLine narrowLine :=
  ⟨by cbv, (breaksOff_read_iff narrowLine).mp ⟨_, read_narrowLine⟩⟩

namespace RuleBook

theorem exists_addLine_iff (book : RuleBook) (line : List Char × ℕ) :
    (∃ next, book.addLine line = .ok next) ↔ ¬OverloadedLine (Text.trim line.1) := by
  rw [addLine]
  split
  · next hcomment =>
    refine iff_of_true ⟨book, rfl⟩ fun h => ?_
    rw [h.not_comment] at hcomment
    cases hcomment
  · rw [← Declaration.ok_or_malformed_iff]
    split
    · next declaration hread => exact iff_of_true ⟨_, rfl⟩ (.inl ⟨declaration, hread⟩)
    · next diagnostic hread => exact iff_of_true ⟨_, rfl⟩ (.inr ⟨diagnostic, hread⟩)
    · next fault hread => simp [hread]

theorem exists_foldlM_addLine_iff (lines : List (List Char × ℕ)) (book : RuleBook) :
    (∃ last, lines.foldlM addLine book = .ok last) ↔
      ∀ line ∈ lines, ¬OverloadedLine (Text.trim line.1) := by
  induction lines generalizing book with
  | nil => exact iff_of_true ⟨book, rfl⟩ (List.forall_mem_nil _)
  | cons line lines ih =>
    rw [List.foldlM_cons, List.forall_mem_cons, ← exists_addLine_iff book]
    constructor
    · rintro ⟨last, hlast⟩
      obtain ⟨next, hnext, hlast⟩ := exists_of_bind_eq_ok hlast
      exact ⟨⟨next, hnext⟩, (ih next).mp ⟨last, hlast⟩⟩
    · rintro ⟨⟨next, hnext⟩, hlines⟩
      rw [hnext]
      exact (ih next).mpr hlines

theorem exists_read_iff (text : List Char) : (∃ book, read text = .ok book) ↔
    ∀ line ∈ Text.lines text, ¬OverloadedLine (Text.trim line) := by
  have hlines : (∀ line ∈ (Text.lines text).zipIdx 1, ¬OverloadedLine (Text.trim line.1)) ↔
      ∀ line ∈ Text.lines text, ¬OverloadedLine (Text.trim line) := by
    rw [← List.forall_mem_map (P := fun line => ¬OverloadedLine (Text.trim line)), List.zipIdx_map_fst]
  rw [← hlines, ← exists_foldlM_addLine_iff _ empty, read]
  constructor
  · rintro ⟨book, hbook⟩
    obtain ⟨last, hlast, -⟩ := exists_of_bind_eq_ok hbook
    exact ⟨last, hlast⟩
  · rintro ⟨last, hlast⟩
    exact ⟨last.validate, by rw [hlast]; rfl⟩

/-- A fault in the first line is what comes of the whole text. -/
theorem read_eq_error_of_head {text line : List Char} {lines : List (List Char)} {fault : Fault}
    (hlines : Text.lines text = line :: lines)
    (hline : Declaration.read (Text.trim line) = .error (.fault fault)) :
    read text = .error fault := by
  have hcomment := ((Declaration.breaksOff_read_iff _).mp ⟨fault, hline⟩).not_comment
  have hfirst : empty.addLine (line, 1) = .error fault := by
    rw [addLine, hcomment, if_neg Bool.false_ne_true, hline]
  rw [read, hlines, List.zipIdx_cons, List.foldlM_cons, hfirst]
  rfl

/-- A line is read or noted as malformed, unless nothing is wrong with it up to the end of a row with at
least 2 ^ 58 selections of more than one pattern; then reading breaks off, for one of two faults. No line of
less than 200 characters does so. There is a rule book of a text exactly if none of its lines does so; if
one does, it does not matter what the others say. -/
theorem read_unless_overloaded (line text : List Char) :
    (((∃ declaration, Declaration.read line = .ok declaration) ∨
      ∃ diagnostic, Declaration.read line = .error (.malformed diagnostic)) ↔ ¬OverloadedLine line) ∧
    (∀ fault, Declaration.read line = .error (.fault fault) →
      fault = .productOverflow ∨ fault = .capacityOverflow) ∧
    (OverloadedLine line → 200 ≤ line.length) ∧
    ((∃ book, read text = .ok book) ↔
      ∀ other ∈ Text.lines text, ¬OverloadedLine (Text.trim other)) ∧
    ((∀ other ∈ Text.lines text, other.length < 200) → ∃ book, read text = .ok book) := by
  refine ⟨Declaration.ok_or_malformed_iff line,
    fun fault hfault => (Declaration.overflows_of_read hfault).eq_or_eq,
    fun h => h.length_le, exists_read_iff text, fun hshort => ?_⟩
  rw [exists_read_iff]
  intro other hother hoverloaded
  have hlong := hoverloaded.length_le
  have hshort := (length_trim_le other).trans_lt (hshort other hother)
  omega

def wideLine : List Char :=
  "<<a>>: @xof(31)(".toList ++ (List.replicate 63 "[x]".toList).flatten ++ [')']

def wideRules : List Char :=
  wideLine ++ '\n' :: "<<b>>: [y]".toList

set_option maxRecDepth 8000 in
theorem read_wideLine : Declaration.read wideLine = .error (.fault .productOverflow) := by cbv

set_option maxRecDepth 8000 in
/-- The product that counts the selections from a row of 63 patterns overflows, and the line behind it is
lost. -/
theorem wideLine_breaks_off :
    Declaration.read wideLine = .error (.fault .productOverflow) ∧
      read wideRules = .error .productOverflow ∧
      Declaration.read "<<b>>: [y]".toList = .ok ⟨"b", true, .card "y"⟩ := by
  have hlines : Text.lines wideRules = [wideLine, "<<b>>: [y]".toList] := by cbv
  have htrim : Text.trim wideLine = wideLine := by cbv
  have hread : Declaration.read (Text.trim wideLine) = .error (.fault .productOverflow) := by
    rw [htrim, read_wideLine]
  exact ⟨read_wideLine, read_eq_error_of_head hlines hread, by cbv⟩

end RuleBook

end OpeningHand
