import Mathlib
import OpeningHand.Proofs.OverloadedLines

/-!
# What the lines of a rule text say

Each line of a rule text is read by itself. It says nothing, or declares something, or is malformed, or
breaks off reading. The rule book of a text holds the declarations of its lines, in their order, and a report
for each malformed line under its number. So a malformed line leaves no other trace than its report.
-/

namespace OpeningHand

namespace Text

/-! ### Where a text falls into lines -/

/-- The first character of a line that goes on. -/
theorem lines_cons {c : Char} {text : List Char} (hfeed : c ≠ '\n')
    (hreturn : c = '\r' → '\n' ∉ text.head?) :
    lines (c :: text) = (c :: (lines text).headD []) :: (lines text).tail := by
  rw [lines.eq_def]
  split
  · next heq => cases heq
  · next heq =>
    cases heq
    exact absurd rfl hfeed
  · next heq =>
    cases heq
    exact absurd rfl (hreturn rfl)
  · next heq =>
    cases heq
    cases lines text <;> rfl

theorem lines_cons_cons {c next : Char} {text : List Char} (hfeed : c ≠ '\n')
    (hend : ¬(c = '\r' ∧ next = '\n')) : lines (c :: next :: text) =
      (c :: (lines (next :: text)).headD []) :: (lines (next :: text)).tail := by
  apply lines_cons hfeed
  rintro rfl ⟨⟩
  exact hend ⟨rfl, rfl⟩

theorem lines_ne_nil {text : List Char} (h : text ≠ []) : lines text ≠ [] := by
  fun_cases lines text
  case case1 => exact absurd rfl h
  all_goals exact List.cons_ne_nil _ _

/-- The text is empty or ends with a line feed. -/
def Closed (text : List Char) : Prop :=
  ∀ last ∈ text.getLast?, last = '\n'

theorem Closed.of_cons {c : Char} {text : List Char} (h : Closed (c :: text)) : Closed text := by
  intro last hlast
  apply h
  rw [List.getLast?_cons, Option.mem_def.mp hlast]
  rfl

theorem closed_nil : Closed [] := by
  rintro _ ⟨⟩

theorem Closed.behind_line {text : List Char} (h : Closed text) (line : List Char) :
    Closed (line ++ '\n' :: text) := by
  intro last hlast
  rw [List.getLast?_append_of_ne_nil _ (List.cons_ne_nil _ _), List.getLast?_cons] at hlast
  cases hfound : text.getLast? with
  | none =>
    rw [hfound] at hlast
    exact (Option.some.inj hlast).symm
  | some found =>
    rw [hfound] at hlast
    obtain rfl : found = last := Option.some.inj hlast
    exact h found hfound

/-- Behind every other character than a line feed, a closed text goes on. -/
@[elab_as_elim]
theorem Closed.induction {motive : (text : List Char) → Closed text → Prop}
    (nil : ∀ h, motive [] h)
    (lineFeed : ∀ text h h', motive text h → motive ('\n' :: text) h')
    (char : ∀ c next text h h', c ≠ '\n' → motive (next :: text) h → motive (c :: next :: text) h')
    {text : List Char} (h : Closed text) : motive text h := by
  induction text with
  | nil => exact nil h
  | cons c text ih =>
    by_cases hfeed : c = '\n'
    · subst hfeed
      exact lineFeed text h.of_cons h (ih h.of_cons)
    · cases text with
      | nil => exact absurd (h c rfl) hfeed
      | cons next text => exact char c next text h.of_cons h hfeed (ih h.of_cons)

/-- A closed text can be read apart from what follows. -/
theorem Closed.lines_append {text : List Char} (h : Closed text) (rest : List Char) :
    lines (text ++ rest) = lines text ++ lines rest := by
  induction h using Closed.induction with
  | nil => rfl
  | lineFeed text _ _ ih => rw [List.cons_append, lines_lineFeed, lines_lineFeed, ih, List.cons_append]
  | char c next text _ _ hfeed ih =>
    by_cases hend : c = '\r' ∧ next = '\n'
    · obtain ⟨rfl, rfl⟩ := hend
      exact ih
    · obtain ⟨line, others, hlines⟩ := List.exists_cons_of_ne_nil (lines_ne_nil (List.cons_ne_nil next text))
      rw [List.cons_append, List.cons_append, lines_cons_cons hfeed hend, lines_cons_cons hfeed hend,
        ← List.cons_append, ih, hlines]
      rfl

theorem Closed.length_lines {text : List Char} (h : Closed text) :
    (lines text).length = text.count '\n' := by
  induction h using Closed.induction with
  | nil => rfl
  | lineFeed text _ _ ih => rw [lines_lineFeed, List.length_cons, ih, List.count_cons_self]
  | char c next text _ _ hfeed ih =>
    rw [List.count_cons_of_ne hfeed, ← ih]
    by_cases hend : c = '\r' ∧ next = '\n'
    · obtain ⟨rfl, rfl⟩ := hend
      rfl
    · have hpos := List.length_pos_of_ne_nil (lines_ne_nil (List.cons_ne_nil next text))
      rw [lines_cons_cons hfeed hend, List.length_cons, List.length_tail]
      omega

/-- Up to a line feed there is one line, without the carriage return that may stand in front of the line
feed. -/
theorem exists_lines_lineEnd {line : List Char} (h : '\n' ∉ line) (rest : List Char) :
    ∃ found, (line = found ∨ line = found ++ ['\r']) ∧
      lines (line ++ '\n' :: rest) = found :: lines rest := by
  induction line with
  | nil => exact ⟨[], .inl rfl, rfl⟩
  | cons c line ih =>
    obtain ⟨hfeed, hline⟩ := List.ne_and_not_mem_of_not_mem_cons h
    by_cases hreturn : c = '\r' ∧ line = []
    · obtain ⟨rfl, rfl⟩ := hreturn
      exact ⟨[], .inr rfl, rfl⟩
    · obtain ⟨found, hfound, hlines⟩ := ih hline
      refine ⟨c :: found, hfound.imp (congrArg _) (congrArg _), ?_⟩
      rw [List.cons_append, lines_cons (Ne.symm hfeed), hlines]
      · rfl
      · rintro rfl hhead
        cases line with
        | nil => exact hreturn ⟨rfl, rfl⟩
        | cons next line =>
          cases hhead
          exact hline List.mem_cons_self

/-- Without the blanks around it, it is the text up to the line feed. -/
theorem exists_lines_lineFeed {line : List Char} (h : '\n' ∉ line) (rest : List Char) :
    ∃ found, trim found = trim line ∧ lines (line ++ '\n' :: rest) = found :: lines rest := by
  obtain ⟨found, hfound, hlines⟩ := exists_lines_lineEnd h rest
  refine ⟨found, ?_, hlines⟩
  rcases hfound with rfl | rfl
  · rfl
  · exact (trim_append_of_blank (by simp [isBlank]) found).symm

/-- A text without line feeds is one line, unless it is empty. -/
theorem lines_of_unbroken {line : List Char} (h : '\n' ∉ line) :
    lines line = if line = [] then [] else [line] := by
  induction line with
  | nil => rfl
  | cons c line ih =>
    obtain ⟨hfeed, hline⟩ := List.ne_and_not_mem_of_not_mem_cons h
    have hreturn : c = '\r' → '\n' ∉ line.head? := fun _ hhead => hline (List.mem_of_mem_head? hhead)
    rw [lines_cons (Ne.symm hfeed) hreturn, ih hline]
    cases line <;> rfl

/-- A line in its place: no line feed is in it, and nothing but a line feed is next to it. -/
structure LineAt (before line after : List Char) : Prop where
  opened : Closed before
  unbroken : '\n' ∉ line
  closed : ∀ next ∈ after.head?, next = '\n'

/-- What is read of a line in its place is the same line but for its end; and nothing is read of an empty
line at the end of a text. -/
theorem LineAt.lines_eq {before line after : List Char} (h : LineAt before line after) :
    (∃ found, trim found = trim line ∧
      lines (before ++ line ++ after) = lines before ++ found :: lines after.tail) ∨
    line = [] ∧ after = [] ∧ lines (before ++ line ++ after) = lines before := by
  rw [List.append_assoc, h.opened.lines_append]
  cases after with
  | nil =>
    rw [List.append_nil, lines_of_unbroken h.unbroken, List.tail_nil, lines_nil]
    split
    · next hempty => exact .inr ⟨hempty, rfl, List.append_nil _⟩
    · exact .inl ⟨line, rfl, rfl⟩
  | cons next after =>
    obtain rfl := h.closed next rfl
    obtain ⟨found, htrim, hlines⟩ := exists_lines_lineFeed h.unbroken after
    exact .inl ⟨found, htrim, by rw [hlines, List.tail_cons]⟩

/-- Every line has its place in the text, behind as many line feeds as lines. -/
theorem exists_lineAt {text line : List Char} {index : ℕ} (h : (lines text)[index]? = some line) :
    ∃ before found after, text = before ++ found ++ after ∧ LineAt before found after ∧
      before.count '\n' = index ∧ trim found = trim line := by
  induction index generalizing text with
  | zero =>
    by_cases hfeed : '\n' ∈ text
    · obtain ⟨first, rest, rfl, hfirst⟩ := List.eq_append_cons_of_mem hfeed
      obtain ⟨found, htrim, hlines⟩ := exists_lines_lineFeed hfirst rest
      rw [hlines] at h
      obtain rfl : found = line := Option.some.inj h
      exact ⟨[], first, '\n' :: rest, rfl, ⟨closed_nil, hfirst, by rintro _ ⟨⟩; rfl⟩, rfl, htrim.symm⟩
    · rw [lines_of_unbroken hfeed] at h
      split at h
      · cases h
      · obtain rfl : text = line := Option.some.inj h
        exact ⟨[], text, [], (List.append_nil _).symm, ⟨closed_nil, hfeed, by rintro _ ⟨⟩⟩, rfl, rfl⟩
  | succ index ih =>
    by_cases hfeed : '\n' ∈ text
    · obtain ⟨first, rest, rfl, hfirst⟩ := List.eq_append_cons_of_mem hfeed
      obtain ⟨_, -, hlines⟩ := exists_lines_lineFeed hfirst rest
      rw [hlines, List.getElem?_cons_succ] at h
      obtain ⟨before, found, after, rfl, hplace, hcount, htrim⟩ := ih h
      refine ⟨first ++ '\n' :: before, found, after, by simp,
        ⟨hplace.opened.behind_line first, hplace.unbroken, hplace.closed⟩, ?_, htrim⟩
      rw [List.count_append, List.count_eq_zero_of_not_mem hfirst, List.count_cons_self, hcount, Nat.zero_add]
    · rw [lines_of_unbroken hfeed] at h
      split at h <;> cases h

end Text

namespace RuleBook

/-! ### What a line comes to -/

/-- What comes of reading a line, unless it says nothing. -/
def outcome? (line : List Char) : Option (Except ReadFailure Declaration) :=
  if Text.isComment (Text.trim line) then none else some (Declaration.read (Text.trim line))

def declared? (line : List Char) : Option Declaration :=
  match outcome? line with
  | some (.ok declaration) => some declaration
  | _ => none

def rejected? (line : List Char) : Option (Diagnostic Flaw) :=
  match outcome? line with
  | some (.error (.malformed diagnostic)) => some diagnostic
  | _ => none

def fault? (line : List Char) : Option Fault :=
  match outcome? line with
  | some (.error (.fault fault)) => some fault
  | _ => none

def declarations (text : List Char) : List Declaration :=
  (Text.lines text).filterMap declared?

/-- What is wrong with the lines, where they are numbered from the given number on. -/
def diagnosticsFrom (number : ℕ) (lines : List (List Char)) : List (Diagnostic Flaw) :=
  (lines.zipIdx number).filterMap fun line => (rejected? line.1).map (·.atLine line.2)

def diagnostics (text : List Char) : List (Diagnostic Flaw) :=
  diagnosticsFrom 1 (Text.lines text)

def breakdown (text : List Char) : Option Fault :=
  (Text.lines text).findSome? fault?

def addAll (book : RuleBook) (declarations : List Declaration) : RuleBook :=
  declarations.foldl add book

def report (book : RuleBook) (diagnostics : List (Diagnostic Flaw)) : RuleBook :=
  { book with parseErrors := book.parseErrors ++ diagnostics }

/-- The patterns of more declarations take the place of those under the same names, and the criteria among
them stand behind the others. -/
theorem addAll_eq (book : RuleBook) (declarations : List Declaration) :
    book.addAll declarations =
      { book with
        patterns := declarations.foldl
          (fun patterns declaration => patterns.insert declaration.name declaration.pattern) book.patterns
        criteria := book.criteria ++ declarations.filter (·.isCriterion) } := by
  induction declarations generalizing book with
  | nil =>
    rw [List.filter_nil, List.append_nil]
    rfl
  | cons declaration declarations ih =>
    refine (ih (book.add declaration)).trans ?_
    rw [List.foldl_cons, List.filter_cons, add]
    cases declaration.isCriterion with
    | true => simp only [if_true, List.append_assoc, List.singleton_append]
    | false => rfl

theorem addAll_report (book : RuleBook) (diagnostics : List (Diagnostic Flaw))
    (declarations : List Declaration) :
    (book.report diagnostics).addAll declarations = (book.addAll declarations).report diagnostics := by
  rw [addAll_eq, addAll_eq]
  rfl

theorem report_nil (book : RuleBook) : book.report [] = book := by
  rw [report, List.append_nil]

theorem report_report (book : RuleBook) (first second : List (Diagnostic Flaw)) :
    (book.report first).report second = book.report (first ++ second) := by
  simp only [report, List.append_assoc]

theorem diagnosticsFrom_cons (number : ℕ) (line : List Char) (lines : List (List Char)) :
    diagnosticsFrom number (line :: lines) =
      ((rejected? line).map (·.atLine number)).toList ++ diagnosticsFrom (number + 1) lines := by
  rw [diagnosticsFrom, List.zipIdx_cons, List.filterMap_cons]
  cases rejected? line <;> rfl

/-- What one more line does to a rule book. -/
theorem addLine_eq (book : RuleBook) (line : List Char) (number : ℕ) :
    book.addLine (line, number) =
      (fault? line).elim
        (.ok ((book.addAll (declared? line).toList).report
          ((rejected? line).map (·.atLine number)).toList)) .error := by
  rw [addLine, fault?, declared?, rejected?, outcome?]
  split
  · exact congrArg _ (report_nil _).symm
  · cases Declaration.read (Text.trim line) with
    | ok declaration => exact congrArg _ (report_nil _).symm
    | error failure => cases failure <;> rfl

/-- What more lines do to a rule book. The reports of the lines read so far commute with the declarations of
those that follow. -/
theorem foldlM_addLine (lines : List (List Char)) (number : ℕ) (book : RuleBook) :
    (lines.zipIdx number).foldlM addLine book =
      (lines.findSome? fault?).elim
        (.ok ((book.addAll (lines.filterMap declared?)).report (diagnosticsFrom number lines))) .error := by
  induction lines generalizing number book with
  | nil =>
    rw [List.zipIdx_nil, List.foldlM_nil]
    exact congrArg Except.ok (report_nil book).symm
  | cons line lines ih =>
    rw [List.zipIdx_cons, List.foldlM_cons, addLine_eq, List.findSome?_cons]
    cases hfault : fault? line with
    | some fault => rfl
    | none =>
      change List.foldlM addLine _ (lines.zipIdx (number + 1)) = _
      rw [ih, addAll_report, report_report, ← diagnosticsFrom_cons, List.filterMap_cons]
      cases declared? line <;> rfl

/-! ### Which reports there are -/

section Reports

variable {before line after other : List Char} {diagnostic : Diagnostic Flaw}

theorem outcome?_of_trim_eq (h : Text.trim line = Text.trim other) : outcome? line = outcome? other := by
  rw [outcome?, h, outcome?]

theorem declared?_of_trim_eq (h : Text.trim line = Text.trim other) :
    declared? line = declared? other := by
  rw [declared?, outcome?_of_trim_eq h, declared?]

theorem rejected?_of_trim_eq (h : Text.trim line = Text.trim other) :
    rejected? line = rejected? other := by
  rw [rejected?, outcome?_of_trim_eq h, rejected?]

theorem fault?_of_trim_eq (h : Text.trim line = Text.trim other) : fault? line = fault? other := by
  rw [fault?, outcome?_of_trim_eq h, fault?]

theorem declared?_eq_some_iff {declaration : Declaration} : declared? line = some declaration ↔
    Text.isComment (Text.trim line) = false ∧ Declaration.read (Text.trim line) = .ok declaration := by
  rw [declared?, outcome?]
  cases hcomment : Text.isComment (Text.trim line) with
  | true => simp
  | false =>
    cases Declaration.read (Text.trim line) with
    | ok declaration => simp
    | error failure => cases failure <;> simp

theorem rejected?_eq_some_iff : rejected? line = some diagnostic ↔
    Text.isComment (Text.trim line) = false ∧
      Declaration.read (Text.trim line) = .error (.malformed diagnostic) := by
  rw [rejected?, outcome?]
  cases hcomment : Text.isComment (Text.trim line) with
  | true => simp
  | false =>
    cases Declaration.read (Text.trim line) with
    | ok declaration => simp
    | error failure => cases failure <;> simp

/-- A rejected line declares nothing, and it does not break off reading. -/
theorem declared?_of_rejected (h : rejected? line = some diagnostic) :
    declared? line = none ∧ fault? line = none := by
  obtain ⟨hcomment, hread⟩ := rejected?_eq_some_iff.mp h
  rw [declared?, fault?, outcome?, hcomment, hread]
  exact ⟨rfl, rfl⟩

theorem mem_diagnosticsFrom_iff {number : ℕ} {lines : List (List Char)} {entry : Diagnostic Flaw} :
    entry ∈ diagnosticsFrom number lines ↔ ∃ index line diagnostic, lines[index]? = some line ∧
      rejected? line = some diagnostic ∧ entry = diagnostic.atLine (number + index) := by
  rw [diagnosticsFrom, List.mem_filterMap]
  constructor
  · rintro ⟨⟨line, place⟩, hplace, hentry⟩
    obtain ⟨hle, hline⟩ := List.mk_mem_zipIdx_iff_le_and_getElem?_sub.mp hplace
    obtain ⟨diagnostic, hrejected, rfl⟩ := Option.map_eq_some_iff.mp hentry
    exact ⟨place - number, line, diagnostic, hline, hrejected, by rw [Nat.add_sub_of_le hle]⟩
  · rintro ⟨index, line, diagnostic, hline, hrejected, rfl⟩
    refine ⟨(line, number + index), ?_, by rw [hrejected]; rfl⟩
    refine List.mk_mem_zipIdx_iff_le_and_getElem?_sub.mpr ⟨Nat.le_add_right _ _, ?_⟩
    rw [Nat.add_sub_cancel_left, hline]

theorem pairwise_diagnosticsFrom (number : ℕ) (lines : List (List Char)) :
    (diagnosticsFrom number lines).Pairwise (·.line < ·.line) := by
  induction lines generalizing number with
  | nil => exact .nil
  | cons line lines ih =>
    rw [diagnosticsFrom_cons]
    cases rejected? line with
    | none => exact ih (number + 1)
    | some diagnostic =>
      refine List.pairwise_cons.mpr ⟨fun entry hentry => ?_, ih (number + 1)⟩
      obtain ⟨index, -, other, -, -, rfl⟩ := mem_diagnosticsFrom_iff.mp hentry
      change number < number + 1 + index
      omega

theorem diagnosticsFrom_append (number : ℕ) (lines others : List (List Char)) :
    diagnosticsFrom number (lines ++ others) =
      diagnosticsFrom number lines ++ diagnosticsFrom (number + lines.length) others := by
  rw [diagnosticsFrom, List.zipIdx_append, List.filterMap_append]
  rfl

end Reports

end RuleBook

/-! ### A line in its place -/

namespace Text.LineAt

open RuleBook

variable {before line after : List Char}

theorem declarations_eq (h : LineAt before line after) :
    declarations (before ++ line ++ after) =
      declarations before ++ (declared? line).toList ++ declarations after.tail := by
  rw [declarations]
  rcases h.lines_eq with ⟨found, htrim, hlines⟩ | ⟨rfl, rfl, hlines⟩
  · rw [hlines, List.filterMap_append, List.filterMap_cons, declared?_of_trim_eq htrim,
      List.append_assoc]
    cases declared? line <;> rfl
  · rw [hlines]
    exact ((List.append_nil _).trans (List.append_nil _)).symm

theorem breakdown_eq (h : LineAt before line after) :
    breakdown (before ++ line ++ after) =
      ((breakdown before).or (fault? line)).or (breakdown after.tail) := by
  rw [breakdown]
  rcases h.lines_eq with ⟨found, htrim, hlines⟩ | ⟨rfl, rfl, hlines⟩
  · rw [hlines, List.findSome?_append, List.findSome?_cons, fault?_of_trim_eq htrim, Option.or_assoc]
    cases fault? line <;> rfl
  · rw [hlines, Option.or_assoc]
    exact (Option.or_none).symm

/-- The number of a line is one more than that of the line feeds before it. -/
theorem diagnostics_eq (h : LineAt before line after) :
    diagnostics (before ++ line ++ after) =
      diagnostics before ++ ((rejected? line).map (·.atLine (before.count '\n' + 1))).toList ++
        diagnosticsFrom (before.count '\n' + 2) (lines after.tail) := by
  rw [diagnostics]
  rcases h.lines_eq with ⟨found, htrim, hlines⟩ | ⟨rfl, rfl, hlines⟩
  · rw [hlines, diagnosticsFrom_append, diagnosticsFrom_cons, rejected?_of_trim_eq htrim,
      h.opened.length_lines, Nat.add_comm 1, List.append_assoc]
    rfl
  · rw [hlines]
    exact ((List.append_nil _).trans (List.append_nil _)).symm

end Text.LineAt

namespace RuleBook

open Grammar

/-- A text is read as if its declarations were put into an empty rule book and this was validated. -/
theorem read_eq (text : List Char) :
    read text = (breakdown text).elim
      (.ok ({ empty.addAll (declarations text) with parseErrors := diagnostics text } : RuleBook).validate)
      .error := by
  rw [read, foldlM_addLine, breakdown]
  cases (Text.lines text).findSome? fault? with
  | some fault => rfl
  | none =>
    rw [addAll_eq, addAll_eq]
    rfl

theorem breakdown_eq_none_iff (text : List Char) :
    breakdown text = none ↔ ∀ line ∈ Text.lines text, ¬OverloadedLine (Text.trim line) := by
  rw [← exists_read_iff, read_eq]
  cases breakdown text with
  | some fault => simp
  | none => simp

/-- Reading goes the same way without a rejected line, but for its report. -/
theorem read_without_rejected {before line after blank : List Char} {diagnostic : Diagnostic Flaw}
    (hline : Text.LineAt before line after) (hrejected : rejected? line = some diagnostic)
    (hfeed : '\n' ∉ blank) (hblank : Text.trim blank = []) :
    ∃ front back,
      diagnostics (before ++ line ++ after) =
        front ++ diagnostic.atLine (before.count '\n' + 1) :: back ∧
      read (before ++ blank ++ after) = (read (before ++ line ++ after)).map fun book =>
        { book with parseErrors := front ++ back } := by
  have hother : Text.LineAt before blank after := ⟨hline.opened, hfeed, hline.closed⟩
  have hnothing : Text.trim blank = Text.trim [] := hblank
  obtain ⟨hdeclared, hfault⟩ := declared?_of_rejected hrejected
  have hdeclarations : declarations (before ++ blank ++ after) = declarations (before ++ line ++ after) := by
    rw [hother.declarations_eq, hline.declarations_eq, hdeclared, declared?_of_trim_eq hnothing]
    rfl
  have hbreakdown : breakdown (before ++ blank ++ after) = breakdown (before ++ line ++ after) := by
    rw [hother.breakdown_eq, hline.breakdown_eq, hfault, fault?_of_trim_eq hnothing]
    rfl
  have hreports : diagnostics (before ++ blank ++ after) = diagnostics before ++
      diagnosticsFrom (before.count '\n' + 2) (Text.lines after.tail) := by
    rw [hother.diagnostics_eq, rejected?_of_trim_eq hnothing]
    exact congrArg (· ++ _) (List.append_nil _)
  refine ⟨diagnostics before, diagnosticsFrom (before.count '\n' + 2) (Text.lines after.tail), ?_, ?_⟩
  · rw [hline.diagnostics_eq, hrejected, List.append_assoc]
    rfl
  · rw [read_eq, read_eq, hdeclarations, hbreakdown, hreports]
    cases breakdown (before ++ line ++ after) <;> rfl

/-- Reading breaks off exactly if there is an overloaded line. Otherwise, a text is read as if the
declarations of its lines were put into an empty rule book, one after the other, and this is validated. There
is one report for each rejected line, in the order of the lines and under the number of its line. Every line
has its place in the text, and with a blank line in the place of a rejected one, everything stays the same, up
to the report on it. -/
theorem read_line_by_line (text : List Char) :
    read text = (breakdown text).elim
      (.ok ({ empty.addAll (declarations text) with parseErrors := diagnostics text } : RuleBook).validate)
      .error ∧
    (breakdown text = none ↔ ∀ line ∈ Text.lines text, ¬OverloadedLine (Text.trim line)) ∧
    (diagnostics text).Pairwise (·.line < ·.line) ∧
    (∀ entry, entry ∈ diagnostics text ↔ ∃ index line diagnostic,
      (Text.lines text)[index]? = some line ∧ Text.isComment (Text.trim line) = false ∧
        Declaration.read (Text.trim line) = .error (.malformed diagnostic) ∧
          entry = diagnostic.atLine (index + 1)) ∧
    (∀ index line, (Text.lines text)[index]? = some line →
      ∃ before found after, text = before ++ found ++ after ∧ Text.LineAt before found after ∧
        before.count '\n' = index ∧ Text.trim found = Text.trim line) ∧
    ∀ before line after blank diagnostic, text = before ++ line ++ after →
      Text.LineAt before line after → Text.isComment (Text.trim line) = false →
      Declaration.read (Text.trim line) = .error (.malformed diagnostic) →
      '\n' ∉ blank → Text.trim blank = [] →
        ∃ front back,
          diagnostics text = front ++ diagnostic.atLine (before.count '\n' + 1) :: back ∧
          read (before ++ blank ++ after) = (read text).map fun book =>
            { book with parseErrors := front ++ back } := by
  refine ⟨read_eq text, breakdown_eq_none_iff text, pairwise_diagnosticsFrom 1 _, fun entry => ?_,
    fun _ _ => Text.exists_lineAt, ?_⟩
  · simp only [diagnostics, mem_diagnosticsFrom_iff, rejected?_eq_some_iff, and_assoc, Nat.add_comm 1]
  · rintro before line after blank diagnostic rfl hline hcomment hread hfeed hblank
    exact read_without_rejected hline (rejected?_eq_some_iff.mpr ⟨hcomment, hread⟩) hfeed hblank

def brokenRules : List Char :=
  "<<ok>>: [forest]\r\n<broken: [x]\n<<also ok>>: [island]".toList

def mendedRules : List Char :=
  "<<ok>>: [forest]\r\n\t\r\n<<also ok>>: [island]".toList

theorem read_brokenLine : Declaration.read (Text.trim "<broken: [x]".toList) =
    .error (.malformed ⟨.nameClosing, 0, 9, "<broken: [x]".toList⟩) := by cbv

theorem read_line_by_line_broken :
    diagnostics brokenRules = [⟨.nameClosing, 2, 9, "<broken: [x]".toList⟩] ∧
      read mendedRules = (read brokenRules).map fun book => { book with parseErrors := [] } := by
  have hreports : diagnostics brokenRules = [⟨.nameClosing, 2, 9, "<broken: [x]".toList⟩] := by cbv
  have hline : Text.LineAt "<<ok>>: [forest]\r\n".toList "<broken: [x]".toList
      "\n<<also ok>>: [island]".toList := ⟨by rintro _ ⟨⟩; rfl, by decide, by rintro _ ⟨⟩; rfl⟩
  have hcomment : Text.isComment (Text.trim "<broken: [x]".toList) = false := by decide
  have hblank : Text.trim "\t\r".toList = [] := by decide
  obtain ⟨-, -, -, -, -, hmended⟩ := read_line_by_line brokenRules
  obtain ⟨front, back, hplace, hread⟩ :=
    hmended _ _ _ "\t\r".toList _ rfl hline hcomment read_brokenLine (by decide) hblank
  have hlength : 1 = front.length + (back.length + 1) := by
    have hsame := congrArg List.length (hreports.symm.trans hplace)
    rwa [List.length_append] at hsame
  obtain rfl : front = [] := List.eq_nil_of_length_eq_zero (by omega)
  obtain rfl : back = [] := List.eq_nil_of_length_eq_zero (by omega)
  exact ⟨hreports, hread⟩

def lostRules : List Char :=
  "<<b>>: [y]\n".toList ++ wideLine

set_option maxRecDepth 8000 in
/-- The line in front is lost as well, and there is no report. -/
theorem lostRules_lost :
    declarations lostRules = [⟨"b", true, .card "y"⟩] ∧ read lostRules = .error .productOverflow ∧
      read lostRules ≠ .ok ({ empty.addAll (declarations lostRules) with
        parseErrors := diagnostics lostRules } : RuleBook).validate := by
  have hlines : Text.lines lostRules = ["<<b>>: [y]".toList, wideLine] := by cbv
  have hgood : outcome? "<<b>>: [y]".toList = some (.ok ⟨"b", true, .card "y"⟩) := by cbv
  have hwide : outcome? wideLine = some (.error (.fault .productOverflow)) := by
    have htrim : Text.trim wideLine = wideLine := by cbv
    have hcomment : Text.isComment wideLine = false := by cbv
    rw [outcome?, htrim, hcomment, read_wideLine]
    rfl
  have hread : read lostRules = .error .productOverflow := by
    rw [read_eq, breakdown, hlines, List.findSome?_cons, fault?, hgood, List.findSome?_cons, fault?, hwide]
    rfl
  refine ⟨?_, hread, ?_⟩
  · rw [declarations, hlines, List.filterMap_cons, declared?, hgood, List.filterMap_cons, declared?, hwide]
    rfl
  · rw [hread]
    rintro ⟨⟩

end RuleBook

end OpeningHand
