import OpeningHand.Proofs.RegularPatterns

/-!
# Readers give regular patterns

Each reader relies on those that it calls, just as the readers call each other: what is left of the text
gets shorter all the time. What they read between brackets is a name as it has to be.
-/

namespace OpeningHand

theorem Text.readNumeral?_lt {text : List Char} {count : Nat} (h : readNumeral? text = some count) :
    count < countLimit := by
  rw [readNumeral?] at h
  split at h
  · cases h
  · dsimp only at h
    split at h
    · next hfits =>
      cases h
      exact hfits
    · cases h

namespace Cursor

variable {cursor : Cursor}

theorem accepts_refuse {α : Type} {good : α → Prop} (cursor : Cursor) (flaw : Flaw) :
    Accepts good (cursor.refuse flaw) :=
  Accepts.error _

theorem not_bracket_of_mem_readName {c : Char} (h : c ∈ cursor.readName.value) :
    isBracket c = false := by
  have hread := List.mem_takeWhile_imp h
  simpa using hread

theorem accepts_readClosed (cursor : Cursor) (closing : Char) (empty unclosed : Flaw) :
    Accepts (fun name => Text.trim name.value ≠ [] ∧ ∀ c ∈ name.value, isBracket c = false)
      (cursor.readClosed closing empty unclosed) := by
  rw [readClosed]
  split
  · exact accepts_refuse _ _
  · next hempty =>
    apply Accepts.after
    intro closed
    apply Accepts.ok
    refine ⟨fun hnil => hempty ?_, fun c => not_bracket_of_mem_readName⟩
    rw [hnil]
    rfl

theorem accepts_readCount (cursor : Cursor) :
    Accepts (fun count => count.value < countLimit) cursor.readCount := by
  rw [readCount]
  split
  · have hone : 1 < countLimit := by decide
    exact Accepts.ok hone
  · split
    · next count hcount =>
      apply Accepts.ok
      exact Text.readNumeral?_lt hcount
    · exact accepts_refuse _ _

end Cursor

abbrev ReadsRegular {bound : Nat} (outcome : Except ReadFailure (Ahead bound Pattern)) : Prop :=
  Accepts (fun ahead => ahead.value.Regular) outcome

abbrev ReadsRegularRow {bound : Nat} (outcome : Except ReadFailure (Ahead bound (List Pattern))) :
    Prop :=
  Accepts (fun ahead => ∀ child ∈ ahead.value, child.Regular) outcome

theorem Connective.regular_join {children : List Pattern} (connective : Connective)
    (h : ∀ child ∈ children, child.Regular) : (connective.join children).Regular := by
  cases connective with
  | conjunction => exact Pattern.regular_allOf h
  | disjunction => exact Pattern.regular_anyOf h

mutual

theorem readAtom_regular (cursor : Cursor) : ReadsRegular (readAtom cursor) := by
  rw [readAtom]
  apply Accepts.after
  intro opening
  have hopening := opening.shorter
  dsimp only
  split
  · apply (opening.next.accepts_readClosed _ _ _).bind
    rintro name ⟨hne, hbrackets⟩
    exact Accepts.ok (Pattern.regular_ofCardName hne hbrackets)
  · apply (opening.next.accepts_readClosed _ _ _).bind
    rintro name ⟨hne, hbrackets⟩
    exact Accepts.ok (Pattern.regular_ofName hne hbrackets)
  · apply (readCompound_regular opening.next).bind
    intro compound hcompound
    apply Accepts.after
    intro closed
    exact Accepts.ok hcompound
  · apply (readFunction_regular opening.next).bind
    intro function hfunction
    exact Accepts.ok hfunction
termination_by 4 * cursor.rest.length
decreasing_by all_goals omega

theorem readPattern_regular (cursor : Cursor) : ReadsRegular (readPattern cursor) := by
  rw [readPattern]
  have hstart := cursor.length_rest_skip_le isSpace
  apply (cursor.skip isSpace).accepts_readCount.bind
  intro count hlimit
  have hcount := count.shorter
  apply (readAtom_regular count.next).bind
  intro atom hatom
  exact Accepts.ok (Pattern.regular_repeated hlimit hatom)
termination_by 4 * cursor.rest.length + 1
decreasing_by all_goals omega

theorem readCompound_regular (cursor : Cursor) : ReadsRegular (readCompound cursor) := by
  rw [readCompound]
  split
  · exact Cursor.accepts_refuse _ _
  · apply (readPattern_regular cursor).bind
    intro first hregular
    have hfirst := first.shorter
    dsimp only
    split
    · exact Accepts.ok hregular
    · split
      · exact Cursor.accepts_refuse _ _
      · next connective hconnective =>
        apply (readOperands_regular connective first.next).bind
        intro others hothers
        apply Accepts.ok
        exact connective.regular_join (List.forall_mem_cons.mpr ⟨hregular, hothers⟩)
termination_by 4 * cursor.rest.length + 2
decreasing_by all_goals omega

theorem readOperands_regular (connective : Connective) (cursor : Cursor) :
    ReadsRegularRow (readOperands connective cursor) := by
  rw [readOperands]
  split
  · exact Accepts.ok (List.forall_mem_nil _)
  · apply Accepts.after
    intro start
    have hstart := start.shorter
    apply (readPattern_regular start.next).bind
    intro first hregular
    have hfirst := first.shorter
    apply (readOperands_regular connective first.next).bind
    intro others hothers
    exact Accepts.ok (List.forall_mem_cons.mpr ⟨hregular, hothers⟩)
termination_by 4 * cursor.rest.length
decreasing_by all_goals omega

theorem readFunction_regular (cursor : Cursor) : ReadsRegular (readFunction cursor) := by
  rw [readFunction]
  apply Accepts.after
  intro combinator
  have hcombinator := combinator.shorter
  dsimp only
  split
  · apply (readRow_regular combinator.next).bind
    intro row hrow
    split
    · exact Cursor.accepts_refuse _ _
    · exact Accepts.ok (Pattern.regular_anyOf hrow)
  · apply (readRow_regular combinator.next).bind
    intro row hrow
    split
    · exact Cursor.accepts_refuse _ _
    · exact Accepts.ok (Pattern.regular_allOf hrow)
  · apply Accepts.after
    intro threshold
    have hthreshold := threshold.shorter
    apply (readRow_regular threshold.next).bind
    intro row hrow
    split
    · exact Accepts.error _
    · exact Cursor.accepts_refuse _ _
    · next pattern hpattern => exact Accepts.ok (Pattern.regular_atLeast hrow hpattern)
  · apply (readRow_regular combinator.next).bind
    intro row hrow
    split
    · next child hchild =>
      apply Accepts.ok
      have hregular := hrow child (hchild ▸ List.mem_cons_self)
      exact Pattern.everywhere_absent.mpr ⟨trivial, hregular⟩
    · exact Cursor.accepts_refuse _ _
termination_by 4 * cursor.rest.length + 1
decreasing_by all_goals omega

theorem readRow_regular (cursor : Cursor) : ReadsRegularRow (readRow cursor) := by
  rw [readRow]
  apply Accepts.after
  intro opened
  have hopened := opened.shorter
  apply (readItems_regular opened.next).bind
  intro items hitems
  exact Accepts.ok hitems
termination_by 4 * cursor.rest.length
decreasing_by all_goals omega

theorem readItems_regular (cursor : Cursor) : ReadsRegularRow (readItems cursor) := by
  rw [readItems]
  split
  · exact Accepts.ok (List.forall_mem_nil _)
  · split
    · exact Cursor.accepts_refuse _ _
    · have hstart := cursor.length_rest_skip_le isSpace
      apply (readPattern_regular (cursor.skip isSpace)).bind
      intro first hregular
      have hfirst := first.shorter
      apply (readItems_regular first.next).bind
      intro others hothers
      exact Accepts.ok (List.forall_mem_cons.mpr ⟨hregular, hothers⟩)
termination_by 4 * cursor.rest.length + 2
decreasing_by all_goals omega

end

/-- Every declaration that a line gives has a name, and a regular pattern. -/
theorem Declaration.read_regular {line : List Char} {declaration : Declaration}
    (h : Declaration.read line = .ok declaration) :
    Text.Nameable declaration.name.toList ∧ declaration.pattern.Regular := by
  suffices hread : Accepts (fun declaration : Declaration =>
      Text.Nameable declaration.name.toList ∧ declaration.pattern.Regular) (Declaration.read line) from
    hread.of_eq_ok declaration h
  rw [Declaration.read]
  apply Accepts.after
  intro opened
  dsimp only
  split
  · exact Cursor.accepts_refuse _ _
  · next hempty =>
    apply Accepts.after
    intro closed
    apply Accepts.after
    intro second
    apply Accepts.after
    intro colon
    apply (readCompound_regular colon.next).bind
    intro compound hcompound
    split
    · apply Accepts.ok
      refine ⟨?_, hcompound⟩
      rw [String.toList_ofList]
      apply Text.nameable_trim
      · intro hnil
        rw [hnil] at hempty
        exact hempty rfl
      · exact fun c => Cursor.not_bracket_of_mem_readName
    · exact Cursor.accepts_refuse _ _

end OpeningHand
