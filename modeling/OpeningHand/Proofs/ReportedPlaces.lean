import Mathlib
import OpeningHand.Grammar.Reader
import OpeningHand.Proofs.CursorPlaces

/-!
# Where readers report

A reader moves its cursor by the common moves alone, and a report of its own is one on the place where it stops.
So what holds at the start and lasts from place to place also holds where a reader ends or reports. In
particular every report on a declaration describes a position of its line.
-/

namespace OpeningHand

open Cursor

section Halts

variable {α β : Type} {kept : Cursor → Prop} {good : α → Prop} {better : β → Prop}

/-- A reader ends with a value as it should be, or reports on a place as it should be, or breaks off. -/
inductive Halts (kept : Cursor → Prop) (good : α → Prop) : Except ReadFailure α → Prop
  | ok {value : α} (h : good value) : Halts kept good (.ok value)
  | reports {cursor : Cursor} {flaw : Flaw} (h : kept cursor) :
      Halts kept good (.error (.malformed (cursor.diagnostic flaw)))
  | fault {fault : Fault} : Halts kept good (.error (.fault fault))

namespace Halts

theorem refuse {cursor : Cursor} {flaw : Flaw} (h : kept cursor) : Halts kept good (cursor.refuse flaw) :=
  .reports h

theorem bind {first : Except ReadFailure α} {onward : α → Except ReadFailure β}
    (h : Halts kept good first) (hnext : ∀ value, good value → Halts kept better (onward value)) :
    Halts kept better (first >>= onward) := by
  cases h with
  | ok hgood => exact hnext _ hgood
  | reports hkept => exact .reports hkept
  | fault => exact .fault

/-- A report is one on a place as it should be. -/
theorem of_malformed {outcome : Except ReadFailure α} {diagnostic : Diagnostic Flaw}
    (h : Halts kept good outcome) (houtcome : outcome = .error (.malformed diagnostic)) :
    ∃ cursor flaw, kept cursor ∧ diagnostic = cursor.diagnostic flaw := by
  cases h with
  | ok => cases houtcome
  | @reports cursor flaw hkept =>
    cases houtcome
    exact ⟨cursor, flaw, hkept, rfl⟩
  | fault => cases houtcome

end Halts

/-- The place behind what is read is as it should be, and so is the one of a report. -/
abbrev Keeps {bound : ℕ} (kept : Cursor → Prop) (outcome : Except ReadFailure (Ahead bound α)) : Prop :=
  Halts kept (fun ahead => kept ahead.next) outcome

end Halts

/-! ### The parts of a declaration -/

namespace Cursor.Lasting

variable {kept : Cursor → Prop} {cursor : Cursor} (hkept : Lasting kept)

include hkept

theorem keeps_expect (h : kept cursor) (expected : Char) (flaw : Flaw) :
    Keeps kept (cursor.expect expected flaw) := by
  rw [expect]
  split
  · exact .ok (hkept.consume h expected isSpace)
  · exact .refuse (hkept.consume h expected isSpace)

theorem readName (h : kept cursor) : kept cursor.readName.next :=
  hkept.readUntil h isBracket

theorem keeps_readClosed (h : kept cursor) (closing : Char) (empty unclosed : Flaw) :
    Keeps kept (cursor.readClosed closing empty unclosed) := by
  rw [readClosed]
  split
  · exact .refuse (hkept.readName h)
  · apply (hkept.keeps_expect (hkept.readName h) closing unclosed).bind
    intro closed hclosed
    exact .ok hclosed

theorem keeps_readCount (h : kept cursor) : Keeps kept cursor.readCount := by
  have hdigits := hkept.readWhile h Char.isDigit
  rw [readCount]
  split
  · exact .ok hdigits
  · split
    · exact .ok hdigits
    · exact .refuse hdigits

theorem keeps_readThreshold (h : kept cursor) : Keeps kept cursor.readThreshold := by
  rw [readThreshold]
  apply (hkept.keeps_expect h _ _).bind
  intro opened hopened
  apply (hkept.keeps_expect (hkept.readName hopened) _ _).bind
  intro closed hclosed
  dsimp only
  split
  · exact .refuse hclosed
  · split
    · exact .ok hclosed
    · exact .refuse hclosed

theorem keeps_readOpening (h : kept cursor) : Keeps kept cursor.readOpening := by
  have hstart := hkept.skip h isSpace
  rw [readOpening]
  split
  · exact .refuse hstart
  · split
    · exact .ok (hkept _ hstart)
    · exact .refuse hstart

theorem keeps_readCombinator (h : kept cursor) : Keeps kept cursor.readCombinator := by
  rw [readCombinator]
  split
  · exact .refuse (hkept.readName h)
  · split
    · exact .ok (hkept.readName h)
    · exact .refuse (hkept.readName h)

theorem keeps_expectConnective (h : kept cursor) (connective : Connective) :
    Keeps kept (cursor.expectConnective connective) := by
  rw [expectConnective]
  apply (hkept.keeps_expect h _ _).bind
  intro first hfirst
  exact .ok (hkept.consume hfirst _ _)

theorem halts_closeCriterion (h : kept cursor) (isCriterion : Bool) :
    Halts kept kept (cursor.closeCriterion isCriterion) := by
  rw [closeCriterion]
  cases isCriterion with
  | true =>
    apply (hkept.keeps_expect h _ _).bind
    intro closed hclosed
    exact .ok hclosed
  | false => exact .ok h

end Cursor.Lasting

/-! ### Patterns -/

section Patterns

variable {kept : Cursor → Prop}

mutual

theorem readAtom_keeps (hkept : Lasting kept) (cursor : Cursor) (h : kept cursor) :
    Keeps kept (readAtom cursor) := by
  rw [readAtom]
  apply (hkept.keeps_readOpening h).bind
  intro opening hopened
  have hopening := opening.shorter
  dsimp only
  split
  · apply (hkept.keeps_readClosed hopened _ _ _).bind
    intro name hname
    exact .ok hname
  · apply (hkept.keeps_readClosed hopened _ _ _).bind
    intro name hname
    exact .ok hname
  · apply (readCompound_keeps hkept opening.next hopened).bind
    intro compound hcompound
    apply (hkept.keeps_expect hcompound _ _).bind
    intro closed hclosed
    exact .ok hclosed
  · apply (readFunction_keeps hkept opening.next hopened).bind
    intro function hfunction
    exact .ok hfunction
termination_by 4 * cursor.rest.length
decreasing_by all_goals omega

theorem readPattern_keeps (hkept : Lasting kept) (cursor : Cursor) (h : kept cursor) :
    Keeps kept (readPattern cursor) := by
  rw [readPattern]
  have hstart := cursor.length_rest_skip_le isSpace
  apply (hkept.keeps_readCount (hkept.skip h isSpace)).bind
  intro count hdigits
  have hcount := count.shorter
  apply (readAtom_keeps hkept count.next hdigits).bind
  intro atom hatom
  exact .ok (hkept.skip hatom isSpace)
termination_by 4 * cursor.rest.length + 1
decreasing_by all_goals omega

theorem readCompound_keeps (hkept : Lasting kept) (cursor : Cursor) (h : kept cursor) :
    Keeps kept (readCompound cursor) := by
  rw [readCompound]
  split
  · exact .refuse h
  · apply (readPattern_keeps hkept cursor h).bind
    intro first hnext
    have hfirst := first.shorter
    dsimp only
    split
    · exact .ok hnext
    · split
      · exact .refuse hnext
      · next connective _ =>
        apply (readOperands_keeps hkept connective first.next hnext).bind
        intro others hothers
        exact .ok hothers
termination_by 4 * cursor.rest.length + 2
decreasing_by all_goals omega

theorem readOperands_keeps (hkept : Lasting kept) (connective : Connective) (cursor : Cursor)
    (h : kept cursor) : Keeps kept (readOperands connective cursor) := by
  rw [readOperands]
  split
  · exact .ok h
  · apply (hkept.keeps_expectConnective h connective).bind
    intro start hjoint
    have hstart := start.shorter
    apply (readPattern_keeps hkept start.next hjoint).bind
    intro first hnext
    have hfirst := first.shorter
    apply (readOperands_keeps hkept connective first.next hnext).bind
    intro others hothers
    exact .ok hothers
termination_by 4 * cursor.rest.length
decreasing_by all_goals omega

theorem readFunction_keeps (hkept : Lasting kept) (cursor : Cursor) (h : kept cursor) :
    Keeps kept (readFunction cursor) := by
  rw [readFunction]
  apply (hkept.keeps_readCombinator h).bind
  intro combinator hword
  have hcombinator := combinator.shorter
  dsimp only
  split
  · apply (readRow_keeps hkept combinator.next hword).bind
    intro row hrow
    split
    · exact .refuse hrow
    · exact .ok hrow
  · apply (readRow_keeps hkept combinator.next hword).bind
    intro row hrow
    split
    · exact .refuse hrow
    · exact .ok hrow
  · apply (hkept.keeps_readThreshold hword).bind
    intro threshold hargument
    have hthreshold := threshold.shorter
    apply (readRow_keeps hkept threshold.next hargument).bind
    intro row hrow
    split
    · exact .fault
    · exact .refuse hrow
    · exact .ok hrow
  · apply (readRow_keeps hkept combinator.next hword).bind
    intro row hrow
    split
    · exact .ok hrow
    · exact .refuse hrow
termination_by 4 * cursor.rest.length + 1
decreasing_by all_goals omega

theorem readRow_keeps (hkept : Lasting kept) (cursor : Cursor) (h : kept cursor) :
    Keeps kept (readRow cursor) := by
  rw [readRow]
  apply (hkept.keeps_expect h _ _).bind
  intro opened hstart
  have hopened := opened.shorter
  apply (readItems_keeps hkept opened.next hstart).bind
  intro items hitems
  exact .ok hitems
termination_by 4 * cursor.rest.length
decreasing_by all_goals omega

theorem readItems_keeps (hkept : Lasting kept) (cursor : Cursor) (h : kept cursor) :
    Keeps kept (readItems cursor) := by
  rw [readItems]
  split
  · exact .ok (hkept.consume h _ _)
  · split
    · exact .refuse (hkept.skip h isSpace)
    · have hstart := cursor.length_rest_skip_le isSpace
      apply (readPattern_keeps hkept (cursor.skip isSpace) (hkept.skip h isSpace)).bind
      intro first hnext
      have hfirst := first.shorter
      apply (readItems_keeps hkept first.next hnext).bind
      intro others hothers
      exact .ok hothers
termination_by 4 * cursor.rest.length + 2
decreasing_by all_goals omega

end

end Patterns

/-! ### Lines -/

/-- A report on a line is one on a place that is reached from its start. -/
theorem Declaration.read_halts {kept : Cursor → Prop} (hkept : Lasting kept) {line : List Char}
    (h : kept (Cursor.ofText line)) : Halts kept (fun _ => True) (Declaration.read line) := by
  rw [Declaration.read]
  apply (hkept.keeps_expect h _ _).bind
  intro opened hopened
  have hstart := hkept.consume hopened '<' fun _ => false
  generalize opened.next.consume '<' (fun _ => false) = consumed at hstart ⊢
  obtain ⟨isCriterion, start⟩ := consumed
  dsimp only
  split
  · exact .refuse (hkept.readName hstart)
  · apply (hkept.keeps_expect (hkept.readName hstart) _ _).bind
    intro closed hclosed
    apply (hkept.halts_closeCriterion hclosed isCriterion).bind
    intro second hsecond
    apply (hkept.keeps_expect hsecond _ _).bind
    intro colon hcolon
    apply (readCompound_keeps hkept colon.next hcolon).bind
    intro compound hcompound
    split
    · exact .ok trivial
    · exact .refuse (hkept.skip hcompound isSpace)

namespace Cursor

/-- However a cursor is moved through a text, it stands at a position, knows the number and the beginning of its
line, and reports on this position; and so does every report on a text that is no declaration. -/
theorem reports_describe_positions (text : List Char) :
    (∀ moves : List Move, ∃ position, (moves.foldl move (ofText text)).StandsAt text position ∧
      (moves.foldl move (ofText text)).column = (Text.lineUpTo text position).length - 1 ∧
      ∀ {ε : Type} (cause : ε),
        ((moves.foldl move (ofText text)).diagnostic cause).Describes text position) ∧
    ∀ diagnostic, Declaration.read text = .error (.malformed diagnostic) →
      ∃ position ≤ text.length, diagnostic.Describes text position := by
  have hlasting := lasting_standsAt text
  have hstart : ∃ position, (ofText text).StandsAt text position := ⟨0, standsAt_ofText text⟩
  constructor
  · intro moves
    obtain ⟨position, hstands⟩ := hlasting.moves hstart moves
    exact ⟨position, hstands, hstands.column, hstands.describes⟩
  · intro diagnostic hread
    obtain ⟨cursor, flaw, ⟨position, hstands⟩, rfl⟩ :=
      (Declaration.read_halts hlasting hstart).of_malformed hread
    exact ⟨position, hstands.le_length, hstands.describes flaw⟩

def openName : List Char :=
  ['<', 'a', '\n', 'b', ':', ' ', '[', 'x', ']']

/-- The report is on the bracket in the second line. -/
theorem reports_describe_positions_open :
    Declaration.read openName =
      .error (.malformed ⟨.nameClosing, 1, 3, ['b', ':', ' ', '[', 'x', ']']⟩) ∧
    ∃ position ≤ 9, Diagnostic.Describes
      (⟨.nameClosing, 1, 3, ['b', ':', ' ', '[', 'x', ']']⟩ : Diagnostic Flaw) openName position := by
  have hread : Declaration.read openName =
      .error (.malformed ⟨.nameClosing, 1, 3, ['b', ':', ' ', '[', 'x', ']']⟩) := by cbv
  exact ⟨hread, (reports_describe_positions openName).2 _ hread⟩

end Cursor

end OpeningHand
