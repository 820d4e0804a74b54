import Mathlib.Data.List.DropRight
import OpeningHand.Grammar.Cursor

/-!
# What a cursor knows about its place

A cursor counts and collects along the way what a report about its place needs. Here is said, in terms of the
text alone, what this comes to at each position: the line feeds in front of it, and the part of the line up to it.
A report has its whole line, and its caret stands below a character of it.
-/

namespace OpeningHand

/-! ### The line of a position -/

namespace Text

variable {text before rest run : List Char} {c : Char} {position : ℕ}

def lastLine (text : List Char) : List Char :=
  text.rtakeWhile (· != '\n')

def withoutEnds (text : List Char) : List Char :=
  text.filter fun c => !isLineEnd c

/-- The line of a position up to and including the character there, without line ends. -/
def lineUpTo (text : List Char) (position : ℕ) : List Char :=
  withoutEnds (lastLine (text.take position) ++ (text.drop position).take 1)

@[simp] theorem withoutEnds_nil : withoutEnds [] = [] := rfl

@[simp] theorem withoutEnds_append (text more : List Char) :
    withoutEnds (text ++ more) = withoutEnds text ++ withoutEnds more := by
  simp [withoutEnds]

theorem lastLine_concat_lineFeed (text : List Char) : lastLine (text ++ ['\n']) = [] :=
  List.rtakeWhile_concat_neg _ _ _ (by decide)

theorem lastLine_concat (h : c ≠ '\n') : lastLine (text ++ [c]) = lastLine text ++ [c] :=
  List.rtakeWhile_concat_pos _ _ _ (by simpa using h)

theorem lastLine_of_unbroken (h : '\n' ∉ text) : lastLine text = text := by
  rw [lastLine, List.rtakeWhile_eq_self_iff]
  intro c hc
  simpa using ne_of_mem_of_not_mem hc h

/-- What stands in front of a line feed does not matter behind it. -/
theorem lastLine_cons_of_mem (h : c = '\n' ∨ '\n' ∈ text) : lastLine (c :: text) = lastLine text := by
  induction text using List.reverseRecOn with
  | nil =>
    obtain rfl : c = '\n' := by simpa using h
    exact lastLine_concat_lineFeed []
  | append_singleton text last ih =>
    by_cases hlast : last = '\n'
    · subst hlast
      rw [← List.cons_append, lastLine_concat_lineFeed, lastLine_concat_lineFeed]
    · have hrest : c = '\n' ∨ '\n' ∈ text := by simpa [Ne.symm hlast] using h
      rw [← List.cons_append, lastLine_concat hlast, lastLine_concat hlast, ih hrest]

theorem not_mem_lastLine (text : List Char) : '\n' ∉ lastLine text := by
  intro h
  simpa using List.mem_rtakeWhile_imp h

theorem withoutEnds_of_forall (h : ∀ c ∈ text, isLineEnd c = false) : withoutEnds text = text := by
  simpa [withoutEnds] using h

/-- A line is visible as a whole unless there is a carriage return in it. -/
theorem withoutEnds_of_unbroken (hfeed : '\n' ∉ text) (hreturn : '\r' ∉ text) : withoutEnds text = text := by
  apply withoutEnds_of_forall
  intro c hc
  have hne : c ≠ '\n' ∧ c ≠ '\r' := ⟨ne_of_mem_of_not_mem hc hfeed, ne_of_mem_of_not_mem hc hreturn⟩
  simpa [isLineEnd] using hne

/-- In the part of a line in front of a position, only carriage returns can be invisible. -/
theorem withoutEnds_lastLine_take (h : '\r' ∉ text) (position : ℕ) :
    withoutEnds (lastLine (text.take position)) = lastLine (text.take position) := by
  refine withoutEnds_of_unbroken (not_mem_lastLine _) fun hmem => h ?_
  exact List.mem_of_mem_take ((List.rtakeWhile_suffix _ _).subset hmem)

theorem takeWhile_not_isLineEnd (h : '\r' ∉ text) :
    (text.takeWhile fun c => !isLineEnd c) = text.takeWhile (· != '\n') := by
  induction text with
  | nil => rfl
  | cons c text ih =>
    rw [List.mem_cons, not_or] at h
    have hne : c ≠ '\r' := Ne.symm h.1
    have hc : (!isLineEnd c) = (c != '\n') := by simp [isLineEnd, bne, hne]
    rw [List.takeWhile_cons, List.takeWhile_cons, hc, ih h.2]

/-- The next character is visible exactly if a run without line ends begins with it. -/
theorem withoutEnds_take_one (text : List Char) :
    withoutEnds (text.take 1) = (text.takeWhile fun c => !isLineEnd c).take 1 := by
  cases text with
  | nil => rfl
  | cons c text => cases h : isLineEnd c <;> simp [withoutEnds, h]

theorem take_succ_of_drop (h : text.drop position = c :: rest) :
    text.take (position + 1) = text.take position ++ [c] := by
  have hc : text[position]? = some c := by
    rw [← List.head?_drop, h, List.head?_cons]
  rw [List.take_add_one, hc, Option.toList_some]

theorem lt_length_of_drop (h : text.drop position = c :: rest) : position < text.length := by
  by_contra hge
  rw [List.drop_of_length_le (by omega)] at h
  cases h

theorem drop_succ_of_drop (h : text.drop position = c :: rest) : text.drop (position + 1) = rest := by
  rw [← List.tail_drop, h, List.tail_cons]

/-- Behind a line feed the line begins anew. -/
theorem lineUpTo_succ_lineFeed (h : text.drop position = '\n' :: rest) :
    lineUpTo text (position + 1) = withoutEnds (rest.take 1) := by
  rw [lineUpTo, take_succ_of_drop h, drop_succ_of_drop h, lastLine_concat_lineFeed, List.nil_append]

theorem lineUpTo_succ (h : text.drop position = c :: rest) (hc : c ≠ '\n') :
    lineUpTo text (position + 1) = lineUpTo text position ++ withoutEnds (rest.take 1) := by
  rw [lineUpTo, take_succ_of_drop h, drop_succ_of_drop h, lastLine_concat hc, withoutEnds_append, lineUpTo, h,
    List.take_succ_cons, List.take_zero]

/-- What is left of a line from a position on, up to the next line end. -/
def restOfLine (text : List Char) (position : ℕ) : List Char :=
  (text.drop position).takeWhile fun c => !isLineEnd c

theorem lineUpTo_eq (text : List Char) (position : ℕ) : lineUpTo text position =
    withoutEnds (lastLine (text.take position)) ++ (restOfLine text position).take 1 := by
  rw [lineUpTo, withoutEnds_append, withoutEnds_take_one, restOfLine]

/-- The line of a position goes on to its end. -/
theorem lineUpTo_append_tail (text : List Char) (position : ℕ) :
    lineUpTo text position ++ (restOfLine text position).tail =
      withoutEnds (lastLine (text.take position)) ++ restOfLine text position := by
  rw [lineUpTo_eq, List.append_assoc, ← List.drop_one, List.take_append_drop]

/-- Nothing is left of a line of which nothing has been seen. -/
theorem restOfLine_of_lineUpTo (h : lineUpTo text position = []) : restOfLine text position = [] := by
  rw [lineUpTo_eq, List.append_eq_nil_iff] at h
  simpa using h.2

/-- A line feed ends the first line, and without one all is a single line. -/
theorem getElem?_zero_splitOn (text : List Char) :
    (text.splitOn '\n')[0]? = some (text.takeWhile (· != '\n')) := by
  induction text with
  | nil => rfl
  | cons c text ih =>
    rw [List.splitOn, List.splitOnP_cons_eq_if_modifyHead]
    split
    · next hc => simp [eq_of_beq hc]
    · next hc =>
      rw [List.splitOn] at ih
      rw [List.getElem?_modifyHead_zero, ih, List.takeWhile_cons_of_pos (by simpa using hc)]
      rfl

/-- The line of a position is the one whose number is that of the line feeds in front of it. -/
theorem getElem?_splitOn_count (before rest : List Char) :
    ((before ++ rest).splitOn '\n')[before.count '\n']? =
      some (lastLine before ++ rest.takeWhile (· != '\n')) := by
  induction before with
  | nil => exact getElem?_zero_splitOn rest
  | cons c before ih =>
    rw [List.cons_append, List.splitOn, List.splitOnP_cons_eq_if_modifyHead]
    rw [List.splitOn] at ih
    split
    · next hc =>
      obtain rfl : c = '\n' := eq_of_beq hc
      rw [List.count_cons_self, List.getElem?_cons_succ, ih, lastLine_cons_of_mem (.inl rfl)]
    · next hc =>
      have hne : c ≠ '\n' := by simpa using hc
      rw [List.count_cons_of_ne hne]
      by_cases hmem : '\n' ∈ before
      · obtain ⟨number, hnumber⟩ := Nat.exists_eq_succ_of_ne_zero (List.count_pos_iff.mpr hmem).ne'
        rw [hnumber] at ih ⊢
        rw [List.getElem?_modifyHead_succ, ih, lastLine_cons_of_mem (.inr hmem)]
      · rw [List.count_eq_zero.mpr hmem] at ih ⊢
        have hunbroken : '\n' ∉ c :: before := by simpa [Ne.symm hne] using hmem
        rw [List.getElem?_modifyHead_zero, ih, lastLine_of_unbroken hmem, lastLine_of_unbroken hunbroken]
        rfl

end Text

/-! ### Steps and runs -/

namespace Cursor

variable {text rest : List Char} {c : Char} {position : ℕ} {cursor : Cursor}

theorem shown_eq (cursor : Cursor) : cursor.shown = Text.withoutEnds (cursor.rest.take 1) := by
  rw [shown]
  split
  · next c rest h => cases hc : isLineEnd c <;> simp [h, hc, Text.withoutEnds]
  · next h => simp [h]

/-- There is at most one current character. -/
theorem reverse_shown (cursor : Cursor) : cursor.shown.reverse = cursor.shown := by
  rw [shown]
  split
  · split <;> rfl
  · rfl

theorem advance_lineFeed (h : cursor.rest = '\n' :: rest) :
    cursor.advance = see ⟨rest, cursor.line + 1, -1, []⟩ := by
  simp [advance, h]

theorem advance_cons (h : cursor.rest = c :: rest) (hc : c ≠ '\n') :
    cursor.advance = see { cursor with rest } := by
  simp [advance, h, hc]

theorem advance_nil (h : cursor.rest = []) : cursor.advance = cursor := by
  simp [advance, h]

theorem reverse_seen_see (cursor : Cursor) :
    cursor.see.seen.reverse = cursor.seen.reverse ++ Text.withoutEnds (cursor.rest.take 1) := by
  rw [see, List.reverse_append, reverse_shown, shown_eq]

theorem index_see (cursor : Cursor) :
    cursor.see.index = cursor.index + (Text.withoutEnds (cursor.rest.take 1)).length := by
  rw [see, shown_eq]

/-- What the cursor has counted and collected belongs to a position of the text. -/
structure StandsAt (cursor : Cursor) (text : List Char) (position : ℕ) : Prop where
  le_length : position ≤ text.length
  rest : cursor.rest = text.drop position
  line : cursor.line = (text.take position).count '\n'
  seen : cursor.seen.reverse = Text.lineUpTo text position
  index : cursor.index = (Text.lineUpTo text position).length - 1

theorem standsAt_ofText (text : List Char) : (ofText text).StandsAt text 0 where
  le_length := Nat.zero_le _
  rest := rfl
  line := rfl
  seen := reverse_seen_see _
  index := by
    rw [ofText, index_see, Int.add_comm]
    rfl

namespace StandsAt

theorem pass_lineFeed (h : cursor.StandsAt text position) (hdrop : text.drop position = '\n' :: rest) :
    cursor.advance.StandsAt text (position + 1) := by
  rw [Cursor.advance_lineFeed (h.rest.trans hdrop)]
  refine ⟨Text.lt_length_of_drop hdrop, (Text.drop_succ_of_drop hdrop).symm, ?_, ?_, ?_⟩
  · rw [Text.take_succ_of_drop hdrop, List.count_append, ← h.line]
    rfl
  · rw [reverse_seen_see, Text.lineUpTo_succ_lineFeed hdrop]
    rfl
  · rw [index_see, Text.lineUpTo_succ_lineFeed hdrop, Int.add_comm]
    rfl

theorem pass (h : cursor.StandsAt text position) (hdrop : text.drop position = c :: rest)
    (hc : c ≠ '\n') : cursor.advance.StandsAt text (position + 1) := by
  rw [advance_cons (h.rest.trans hdrop) hc]
  refine ⟨Text.lt_length_of_drop hdrop, (Text.drop_succ_of_drop hdrop).symm, ?_, ?_, ?_⟩
  · rw [Text.take_succ_of_drop hdrop, List.count_append, List.count_singleton, if_neg (by simpa using hc)]
    exact h.line
  · rw [reverse_seen_see, Text.lineUpTo_succ hdrop hc, h.seen]
  · rw [index_see, Text.lineUpTo_succ hdrop hc, List.length_append, Int.natCast_add, h.index]
    dsimp only
    omega

/-- A step goes on to the next position, or stays at the end. -/
theorem advance (h : cursor.StandsAt text position) :
    ∃ next, cursor.advance.StandsAt text next := by
  cases hdrop : text.drop position with
  | nil => exact ⟨position, by rwa [advance_nil (h.rest.trans hdrop)]⟩
  | cons c rest =>
    by_cases hc : c = '\n'
    · subst hc
      exact ⟨position + 1, h.pass_lineFeed hdrop⟩
    · exact ⟨position + 1, h.pass hdrop hc⟩

theorem column (h : cursor.StandsAt text position) :
    cursor.column = (Text.lineUpTo text position).length - 1 := by
  rw [Cursor.column, h.index]
  omega

end StandsAt

/-! ### Moves -/

inductive Move where
  | advance
  | skip (accept : Char → Bool)
  | consume (expected : Char) (accept : Char → Bool)
  | readUntil (stop : Char → Bool)
  | readWhile (accept : Char → Bool)
  | fail

/-- The cursor after a move. A failure has read the line to its end. -/
def move (cursor : Cursor) : Move → Cursor
  | .advance => cursor.advance
  | .skip accept => cursor.skip accept
  | .consume expected accept => (cursor.consume expected accept).2
  | .readUntil stop => (cursor.readUntil stop).2
  | .readWhile accept => (cursor.readWhile accept).2
  | .fail => cursor.toLineEnd

def Lasting (kept : Cursor → Prop) : Prop :=
  ∀ cursor, kept cursor → kept cursor.advance

namespace Lasting

variable {kept : Cursor → Prop} (hkept : Lasting kept)

include hkept

theorem advanceBy (h : kept cursor) (count : ℕ) : kept (cursor.advanceBy count) := by
  induction count generalizing cursor with
  | zero => exact h
  | succ count ih => exact ih (hkept cursor h)

theorem readWhile (h : kept cursor) (accept : Char → Bool) : kept (cursor.readWhile accept).2 :=
  hkept.advanceBy h _

theorem skip (h : kept cursor) (accept : Char → Bool) : kept (cursor.skip accept) :=
  hkept.readWhile h accept

theorem readUntil (h : kept cursor) (stop : Char → Bool) : kept (cursor.readUntil stop).2 :=
  hkept.readWhile h _

theorem consume (h : kept cursor) (expected : Char) (accept : Char → Bool) :
    kept (cursor.consume expected accept).2 := by
  rw [Cursor.consume]
  split
  · exact hkept _ (hkept.skip h accept)
  · exact hkept.skip h accept

theorem move (h : kept cursor) (move : Move) : kept (cursor.move move) := by
  cases move with
  | advance => exact hkept cursor h
  | skip accept => exact hkept.skip h accept
  | consume expected accept => exact hkept.consume h expected accept
  | readUntil stop => exact hkept.readUntil h stop
  | readWhile accept => exact hkept.readWhile h accept
  | fail => exact hkept.readUntil h isLineEnd

/-- Whatever is done, what holds at the start holds in the end. -/
theorem moves (h : kept cursor) (moves : List Move) : kept (moves.foldl Cursor.move cursor) := by
  induction moves generalizing cursor with
  | nil => exact h
  | cons move moves ih => exact ih (hkept.move h move)

end Lasting

theorem lasting_standsAt (text : List Char) :
    Lasting fun cursor => ∃ position, cursor.StandsAt text position := by
  rintro cursor ⟨position, h⟩
  exact h.advance

/-! ### Reports -/

theorem toLineEnd_eq_advanceBy (cursor : Cursor) : cursor.toLineEnd =
    cursor.advanceBy (cursor.rest.takeWhile fun c => !isLineEnd c).length := rfl

/-- On the way to its end, the rest of the line is collected. -/
theorem reverse_seen_toLineEnd (cursor : Cursor) : cursor.toLineEnd.seen.reverse =
    cursor.seen.reverse ++ (cursor.rest.takeWhile fun c => !isLineEnd c).tail := by
  rw [toLineEnd_eq_advanceBy]
  induction hrest : cursor.rest generalizing cursor with
  | nil => simp [advanceBy]
  | cons c rest ih =>
    cases hend : isLineEnd c with
    | true => simp [hend, advanceBy]
    | false =>
      have hc : c ≠ '\n' := by
        rintro rfl
        cases hend
      have hnext : cursor.advance.rest = rest := by rw [rest_advance, hrest, List.tail_cons]
      have hseen : cursor.advance.seen.reverse =
          cursor.seen.reverse ++ (rest.takeWhile fun c => !isLineEnd c).take 1 := by
        rw [advance_cons hrest hc, reverse_seen_see, Text.withoutEnds_take_one]
      rw [List.takeWhile_cons_of_pos (by simp [hend]), List.length_cons, advanceBy, ih _ hnext, hseen,
        List.tail_cons, List.append_assoc, ← List.drop_one, List.take_append_drop]

end Cursor

/-- What a report on a position of a text says. The caret stands below a character of the line, or the line is
empty; and if no carriage return disturbs it, the line is the one of the text that has this number, and the
character is the one at the position, or the last one if the position is at the end of the line. -/
structure Diagnostic.Describes {ε : Type} (diagnostic : Diagnostic ε) (text : List Char) (position : ℕ) :
    Prop where
  line : diagnostic.line = (text.take position).count '\n'
  column : diagnostic.column = (Text.lineUpTo text position).length - 1
  extent : diagnostic.text =
    Text.lineUpTo text position ++ (Text.restOfLine text position).tail
  caret : diagnostic.column < diagnostic.text.length ∨ diagnostic.column = 0 ∧ diagnostic.text = []
  whole : '\r' ∉ text → (text.splitOn '\n')[diagnostic.line]? = some diagnostic.text
  character : '\r' ∉ text → diagnostic.text[diagnostic.column]? =
    (text[position]?.filter (· != '\n')).or diagnostic.text.getLast?

namespace Cursor.StandsAt

variable {text : List Char} {position : ℕ} {cursor : Cursor} {ε : Type}

theorem text_diagnostic (h : cursor.StandsAt text position) (cause : ε) :
    (cursor.diagnostic cause).text =
      Text.lineUpTo text position ++ (Text.restOfLine text position).tail := by
  rw [diagnostic, reverse_seen_toLineEnd, h.seen, h.rest, Text.restOfLine]

theorem caret_diagnostic (h : cursor.StandsAt text position) (cause : ε) :
    (cursor.diagnostic cause).column < (cursor.diagnostic cause).text.length ∨
      (cursor.diagnostic cause).column = 0 ∧ (cursor.diagnostic cause).text = [] := by
  have hcolumn : (cursor.diagnostic cause).column = (Text.lineUpTo text position).length - 1 := h.column
  rw [hcolumn, h.text_diagnostic, List.length_append]
  by_cases hnil : Text.lineUpTo text position = []
  · exact .inr (by simp [hnil, Text.restOfLine_of_lineUpTo hnil])
  · have hpos := List.length_pos_iff.mpr hnil
    exact .inl (by omega)

/-- Without carriage returns, the line is the one that has the number. -/
theorem whole_diagnostic (h : cursor.StandsAt text position) (cause : ε) (hreturn : '\r' ∉ text) :
    (text.splitOn '\n')[(cursor.diagnostic cause).line]? = some (cursor.diagnostic cause).text := by
  have hline : (cursor.diagnostic cause).line = (text.take position).count '\n' := h.line
  have hrest : '\r' ∉ text.drop position := fun hmem => hreturn (List.mem_of_mem_drop hmem)
  have hsplit := Text.getElem?_splitOn_count (text.take position) (text.drop position)
  rw [List.take_append_drop] at hsplit
  rw [hline, hsplit, h.text_diagnostic, Text.lineUpTo_append_tail, Text.withoutEnds_lastLine_take hreturn,
    Text.restOfLine, Text.takeWhile_not_isLineEnd hrest]

/-- At the end of a line the caret stands below its last character. -/
theorem character_diagnostic (h : cursor.StandsAt text position) (cause : ε) (hreturn : '\r' ∉ text) :
    (cursor.diagnostic cause).text[(cursor.diagnostic cause).column]? =
      (text[position]?.filter (· != '\n')).or (cursor.diagnostic cause).text.getLast? := by
  have hcolumn : (cursor.diagnostic cause).column = (Text.lineUpTo text position).length - 1 := h.column
  have hlast (hend : Text.restOfLine text position = []) :
      (Text.lineUpTo text position ++ (Text.restOfLine text position).tail)[
          (Text.lineUpTo text position).length - 1]? =
        (Text.lineUpTo text position ++ (Text.restOfLine text position).tail).getLast? := by
    rw [hend, List.tail_nil, List.append_nil, List.getLast?_eq_getElem?]
  have hcurrent : text[position]? = (text.drop position).head? := List.head?_drop.symm
  rw [hcolumn, h.text_diagnostic, hcurrent]
  cases hdrop : text.drop position with
  | nil =>
    rw [hlast (by simp [Text.restOfLine, hdrop])]
    rfl
  | cons c rest =>
    by_cases hc : c = '\n'
    · subst hc
      rw [hlast (by simp [Text.restOfLine, hdrop, isLineEnd])]
      rfl
    · have hne : c ≠ '\r' := by
        rintro rfl
        exact hreturn (List.mem_of_mem_drop (hdrop ▸ List.mem_cons_self))
      have hline : Text.lineUpTo text position =
          Text.withoutEnds (Text.lastLine (text.take position)) ++ [c] := by
        simp [Text.lineUpTo_eq, Text.restOfLine, hdrop, isLineEnd, hc, hne]
      simp [hline, Option.filter, hc]

theorem describes (h : cursor.StandsAt text position) (cause : ε) :
    (cursor.diagnostic cause).Describes text position where
  line := h.line
  column := h.column
  extent := h.text_diagnostic cause
  caret := h.caret_diagnostic cause
  whole := h.whole_diagnostic cause
  character := h.character_diagnostic cause

end Cursor.StandsAt

end OpeningHand
