import Mathlib
import OpeningHand.Proofs.CardNames
import OpeningHand.Report

/-!
# The columns of a table

A row is written as its texts, each filled up to the width of its column, with two spaces between them. The
widths of a table fit all of its rows. So every line is as wide as the rule, and the text of a column stands
at the same place in each of them. Nothing is taken off the end of a line whose last text ends visibly.
-/

namespace OpeningHand

namespace Text

theorem trimEnd_append {text : List Char} {c : Char} (hlast : c ∈ text.getLast?) (hc : isBlank c = false)
    (before : List Char) : trimEnd (before ++ text) = before ++ text := by
  obtain ⟨front, rfl⟩ := List.getLast?_eq_some_iff.mp hlast
  rw [trimEnd_eq_rdropWhile, ← List.append_assoc]
  exact List.rdropWhile_concat_neg _ _ _ (Bool.eq_false_iff.mp hc)

end Text

section Intercalate

variable {α : Type} {gap : List α} {cells : List (List α)}

theorem length_intercalate (gap : List α) (cells : List (List α)) : (gap.intercalate cells).length =
    (cells.map List.length).sum + gap.length * (cells.length - 1) := by
  induction cells with
  | nil => rfl
  | cons cell cells ih =>
    cases cells with
    | nil => simp
    | cons next cells =>
      rw [List.intercalate_cons_cons, List.length_append, List.length_append, ih]
      simp only [List.map_cons, List.sum_cons, List.length_cons, Nat.add_sub_cancel, Nat.mul_succ]
      omega

/-- Behind the first parts and the gaps after them, the others begin. -/
theorem drop_intercalate (gap : List α) (cells : List (List α)) (column : ℕ) :
    (gap.intercalate cells).drop (((cells.take column).map (·.length + gap.length)).sum) =
      gap.intercalate (cells.drop column) := by
  induction column generalizing cells with
  | zero => rfl
  | succ column ih =>
    match cells with
    | [] => rfl
    -- No gap follows the last part, but there is nothing left to drop either.
    | [cell] => simp [List.drop_eq_nil_iff]
    | cell :: next :: cells =>
      rw [List.intercalate_cons_cons, List.take_succ_cons, List.map_cons, List.sum_cons,
        ← List.length_append, List.drop_length_add_append, ih, List.drop_succ_cons]

theorem take_intercalate_cons (gap cell : List α) (cells : List (List α)) :
    (gap.intercalate (cell :: cells)).take cell.length = cell := by
  cases cells with
  | nil => rw [List.intercalate_singleton, List.take_length]
  | cons next cells => rw [List.intercalate_cons_cons, List.append_assoc, List.take_left]

theorem mem_intercalate {a : α} (h : a ∈ gap.intercalate cells) : a ∈ gap ∨ ∃ cell ∈ cells, a ∈ cell := by
  induction cells with
  | nil => exact absurd h List.not_mem_nil
  | cons cell cells ih =>
    cases cells with
    | nil =>
      rw [List.intercalate_singleton] at h
      exact .inr ⟨cell, List.mem_cons_self, h⟩
    | cons next cells =>
      rw [List.intercalate_cons_cons, List.mem_append, List.mem_append] at h
      rcases h with (hcell | hgap) | hrest
      · exact .inr ⟨cell, List.mem_cons_self, hcell⟩
      · exact .inl hgap
      · exact (ih hrest).imp_right fun ⟨found, hfound, ha⟩ => ⟨found, List.mem_cons_of_mem _ hfound, ha⟩

end Intercalate

namespace Table

variable {widths : List ℕ} {row : List String} {column width : ℕ} {text : String}

/-! ### Widths -/

def Fits (widths : List ℕ) (row : List String) : Prop :=
  List.Forall₂ (fun width text => text.length ≤ width) widths row

theorem fits_lengths (row : List String) : Fits (row.map String.length) row := by
  rw [Fits, List.forall₂_map_left_iff, List.forall₂_same]
  exact fun _ _ => le_rfl

/-- The columns do not become narrower. -/
theorem Fits.widen (h : Fits widths row) (other : List String) : Fits (Table.widen widths other) row := by
  induction h generalizing other with
  | nil => cases other <;> exact .nil
  | cons htext hrow ih =>
    cases other with
    | nil => exact .cons htext hrow
    | cons text other => exact .cons (le_max_of_le_left htext) (ih other)

theorem fits_widen (h : widths.length = row.length) : Fits (widen widths row) row := by
  induction widths generalizing row with
  | nil =>
    obtain rfl := List.length_eq_zero_iff.mp h.symm
    exact .nil
  | cons width widths ih =>
    cases row with
    | nil => cases h
    | cons text row => exact .cons (le_max_right _ _) (ih (Nat.succ.inj h))

theorem length_widen (widths : List ℕ) (row : List String) : (widen widths row).length = widths.length := by
  induction widths generalizing row with
  | nil => cases row <;> rfl
  | cons width widths ih =>
    cases row with
    | nil => rfl
    | cons text row => exact congrArg (· + 1) (ih row)

theorem Fits.foldl_widen (h : Fits widths row) (rows : List (List String)) :
    Fits (rows.foldl Table.widen widths) row := by
  induction rows generalizing widths with
  | nil => exact h
  | cons other rows ih => exact ih (h.widen other)

theorem fits_foldl_widen {rows : List (List String)} (hrow : row ∈ rows)
    (h : ∀ row ∈ rows, row.length = widths.length) : Fits (rows.foldl widen widths) row := by
  induction rows generalizing widths with
  | nil => exact absurd hrow List.not_mem_nil
  | cons other rows ih =>
    obtain ⟨hother, hrows⟩ := List.forall_mem_cons.mp h
    rcases List.mem_cons.mp hrow with rfl | hrow
    · exact (fits_widen hother.symm).foldl_widen rows
    · apply ih hrow
      intro row hrow
      rw [length_widen, hrows row hrow]

/-- The widths of a table fit all its rows. -/
theorem fits_widths {table : Table} (h : ∀ row ∈ table.rows, row.length = table.heading.length)
    (hrow : row ∈ table.heading :: table.rows) : Fits table.widths row := by
  rcases List.mem_cons.mp hrow with rfl | hrow
  · exact (fits_lengths _).foldl_widen _
  · apply fits_foldl_widen hrow
    intro row hrow
    rw [List.length_map, h row hrow]

theorem Fits.exists_width (h : Fits widths row) (htext : row[column]? = some text) :
    ∃ width, widths[column]? = some width ∧ text.length ≤ width := by
  obtain ⟨hrow, rfl⟩ := List.getElem_of_getElem? htext
  have hcolumn : column < widths.length := h.length_eq ▸ hrow
  exact ⟨widths[column], List.getElem?_eq_getElem hcolumn, h.get hcolumn hrow⟩

/-! ### Lines -/

theorem length_pad (isLabel : Bool) (h : text.length ≤ width) : (pad isLabel width text).length = width := by
  have hspaces : text.toList.length + (width - text.length) = width := by
    rw [String.length_toList]
    exact Nat.add_sub_cancel' h
  cases isLabel with
  | true => simpa [pad] using hspaces
  | false => simpa [pad, Nat.add_comm] using hspaces

theorem getElem?_cells (hwidth : widths[column]? = some width) (htext : row[column]? = some text) :
    (cells widths row)[column]? = some (pad (column < labelColumns) width text) := by
  have hzip : (row.zip widths)[column]? = some (text, width) :=
    List.getElem?_zip_eq_some.mpr ⟨htext, hwidth⟩
  rw [cells, List.getElem?_mapIdx, hzip]
  rfl

theorem length_cells (h : Fits widths row) : (cells widths row).length = row.length := by
  rw [cells, List.length_mapIdx, List.length_zip, h.length_eq, Nat.min_self]

theorem map_length_cells (h : Fits widths row) : (cells widths row).map List.length = widths := by
  apply List.ext_getElem
  · rw [List.length_map, length_cells h, h.length_eq]
  · intro column _ hcolumn
    have hrow : column < row.length := h.length_eq ▸ hcolumn
    have hcell := getElem?_cells (List.getElem?_eq_getElem hcolumn) (List.getElem?_eq_getElem hrow)
    have hfits : row[column].length ≤ widths[column] := h.get hcolumn hrow
    obtain ⟨_, hcell⟩ := List.getElem_of_getElem? hcell
    rw [List.getElem_map, hcell, length_pad _ hfits]

def line (widths : List ℕ) (row : List String) : List Char :=
  [' ', ' '].intercalate (cells widths row)

/-- Every line is as wide as the table. -/
theorem length_line (h : Fits widths row) : (line widths row).length = ruleWidth widths := by
  have hlength : (cells widths row).length = widths.length := (length_cells h).trans h.length_eq.symm
  rw [line, length_intercalate, map_length_cells h, hlength]
  rfl

theorem mem_pad {isLabel : Bool} {c : Char} (h : c ∈ pad isLabel width text) : c = ' ' ∨ c ∈ text.toList := by
  cases isLabel with
  | true => exact (List.mem_append.mp h).symm.imp_left List.eq_of_mem_replicate
  | false => exact (List.mem_append.mp h).imp_left List.eq_of_mem_replicate

theorem mem_line {c : Char} (h : c ∈ line widths row) : c = ' ' ∨ ∃ text ∈ row, c ∈ text.toList := by
  rcases mem_intercalate h with hgap | ⟨cell, hcell, hc⟩
  · exact .inl (by simpa using hgap)
  · rw [cells, List.mem_mapIdx] at hcell
    obtain ⟨column, hcolumn, rfl⟩ := hcell
    have htext : ((row.zip widths)[column]).1 ∈ row := (List.of_mem_zip (List.getElem_mem hcolumn)).1
    exact (mem_pad hc).imp_right fun hc => ⟨_, htext, hc⟩

/-! ### Columns -/

def columnStart (widths : List ℕ) (column : ℕ) : ℕ :=
  ((widths.take column).map (· + 2)).sum

/-- The line has the text in the column: what stands there is the text, filled up to the width. -/
def Shows (widths : List ℕ) (line : List Char) (column : ℕ) (text : String) : Prop :=
  (line.drop (columnStart widths column)).take (widths.getD column 0) =
    pad (column < labelColumns) (widths.getD column 0) text

theorem drop_line (h : Fits widths row) (column : ℕ) : (line widths row).drop (columnStart widths column) =
    [' ', ' '].intercalate ((cells widths row).drop column) := by
  have hstart : columnStart widths column =
      (((cells widths row).take column).map (·.length + [' ', ' '].length)).sum := by
    rw [columnStart]
    nth_rewrite 1 [← map_length_cells h]
    rw [← List.map_take, List.map_map]
    rfl
  rw [hstart, line, drop_intercalate]

/-- From the start of a column on, the line has the text of the column and those behind it. -/
theorem drop_line_eq_cons (h : Fits widths row) (htext : row[column]? = some text) :
    (line widths row).drop (columnStart widths column) = [' ', ' '].intercalate
      (pad (column < labelColumns) (widths.getD column 0) text :: (cells widths row).drop (column + 1)) := by
  obtain ⟨width, hwidth, -⟩ := h.exists_width htext
  obtain ⟨hcells, hcell⟩ := List.getElem_of_getElem? (getElem?_cells hwidth htext)
  rw [drop_line h, List.drop_eq_getElem_cons hcells, hcell, List.getD_eq_getElem?_getD, hwidth,
    Option.getD_some]

/-- A line has every text of its row in the column of the text. -/
theorem shows_line (h : Fits widths row) (htext : row[column]? = some text) :
    Shows widths (line widths row) column text := by
  obtain ⟨width, hwidth, hfits⟩ := h.exists_width htext
  have hlength : (pad (column < labelColumns) (widths.getD column 0) text).length = widths.getD column 0 := by
    rw [List.getD_eq_getElem?_getD, hwidth, Option.getD_some, length_pad _ hfits]
  rw [Shows, drop_line_eq_cons h htext]
  nth_rewrite 1 [← hlength]
  exact take_intercalate_cons _ _ _

/-! ### Texts -/

/-- Behind the labels of the row there are numbers, texts that end visibly. -/
structure Numbered (row : List String) : Prop where
  long : labelColumns < row.length
  visible : ∀ text ∈ row.drop labelColumns, ∃ c ∈ text.toList.getLast?, Text.isBlank c = false

/-- The last number stands at the end of the line, so there is no blank to take off. -/
theorem Numbered.renderRow_eq (hrow : Numbered row) (h : Fits widths row) :
    renderRow widths row = line widths row ++ ['\n'] := by
  obtain ⟨count, hcount⟩ := Nat.exists_eq_add_of_lt hrow.long
  have hlast : labelColumns + count < row.length := by omega
  obtain ⟨c, hc, hvisible⟩ := hrow.visible row[labelColumns + count]
    (List.mem_drop_iff_getElem.mpr ⟨count, by omega, rfl⟩)
  -- From the start of the last column on, the line has nothing but the spaces and the text of this column.
  have hend := drop_line_eq_cons h (List.getElem?_eq_getElem hlast)
  have hnone : (cells widths row).drop (labelColumns + count + 1) = [] := by
    rw [List.drop_eq_nil_iff, length_cells h, hcount]
  rw [hnone, List.intercalate_singleton, decide_eq_false (Nat.not_lt.mpr (Nat.le_add_right _ _)), pad,
    if_neg Bool.false_ne_true] at hend
  rw [renderRow, ← line, ← List.take_append_drop (columnStart widths (labelColumns + count)) (line widths row),
    hend, ← List.append_assoc, Text.trimEnd_append hc hvisible]

def lines (table : Table) : List (List Char) :=
  line table.widths table.heading :: List.replicate (ruleWidth table.widths) '-' ::
    table.rows.map (line table.widths)

/-- The line of every row is there, in the order of the rows and behind two others. -/
theorem getElem?_lines {table : Table} {index : ℕ} {row : List String} (hrow : table.rows[index]? = some row) :
    table.lines[index + 2]? = some (line table.widths row) := by
  rw [lines, List.getElem?_cons_succ, List.getElem?_cons_succ, List.getElem?_map, hrow]
  rfl

/-- A table with numbers in all its rows is written as its lines, unless it is too wide. -/
theorem render_eq {table : Table} (hlength : ∀ row ∈ table.rows, row.length = table.heading.length)
    (hnumbers : ∀ row ∈ table.heading :: table.rows, Numbered row) :
    table.render = if ruleWidth table.widths ≤ maxWidth then .ok (table.lines.flatMap (· ++ ['\n']))
      else .error .widthOverflow := by
  have hrow : ∀ row ∈ table.heading :: table.rows,
      renderRow table.widths row = line table.widths row ++ ['\n'] :=
    fun row hrow => (hnumbers row hrow).renderRow_eq (fits_widths hlength hrow)
  obtain ⟨hheading, hrows⟩ := List.forall_mem_cons.mp hrow
  have hall : table.rows.flatMap (renderRow table.widths) =
      (table.rows.map (line table.widths)).flatMap (· ++ ['\n']) := by
    rw [List.flatMap_map]
    exact List.flatMap_congr hrows
  by_cases hwidth : ruleWidth table.widths ≤ maxWidth
  · rw [if_pos hwidth, render, if_neg hwidth.not_gt, hheading, hall, rule, lines, List.flatMap_cons,
      List.flatMap_cons, List.append_assoc]
  · rw [if_neg hwidth, render, if_pos (Nat.lt_of_not_le hwidth)]

theorem length_of_mem_lines {table : Table} {line : List Char}
    (hlength : ∀ row ∈ table.rows, row.length = table.heading.length) (h : line ∈ table.lines) :
    line.length = ruleWidth table.widths := by
  rcases List.mem_cons.mp h with rfl | h
  · exact length_line (fits_widths hlength List.mem_cons_self)
  · rcases List.mem_cons.mp h with rfl | h
    · exact List.length_replicate
    · obtain ⟨row, hrow, rfl⟩ := List.mem_map.mp h
      exact length_line (fits_widths hlength (List.mem_cons_of_mem _ hrow))

/-- If no text has a line feed, no line has one. -/
theorem unbroken_of_mem_lines {table : Table} {line : List Char}
    (hunbroken : ∀ row ∈ table.heading :: table.rows, ∀ text ∈ row, '\n' ∉ text.toList)
    (h : line ∈ table.lines) : '\n' ∉ line := by
  have hrow : ∀ row ∈ table.heading :: table.rows, '\n' ∉ Table.line table.widths row := by
    intro row hrow hfeed
    rcases mem_line hfeed with hspace | ⟨text, htext, hfeed⟩
    · cases hspace
    · exact hunbroken row hrow text htext hfeed
  obtain ⟨hheading, hrows⟩ := List.forall_mem_cons.mp hrow
  rcases List.mem_cons.mp h with rfl | h
  · exact hheading
  · rcases List.mem_cons.mp h with rfl | h
    · simp
    · obtain ⟨row, hrow, rfl⟩ := List.mem_map.mp h
      exact hrows row hrow

end Table

end OpeningHand
