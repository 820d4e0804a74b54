import Mathlib
import OpeningHand.Proofs.DeclarationCompleteness
import OpeningHand.Proofs.SelectionRoom

/-!
# Texts that break off reading

Reading breaks off for one reason only: behind the name of a function, a count and a row have been read,
and there are too many selections of that size from the row. To get there, everything in front of the
function must have been read, so the text is as the grammar wants it up to the end of the row; what stands
behind it does not matter any more. Here is said, without a reader, which texts these are, and that they
are the ones for which the readers break off.
-/

namespace OpeningHand

namespace Grammar

inductive Place where
  | atom
  | counted
  | compound
  | operands (connective : Connective)
  | function
  | row
  | items

/-- From this place on, the text follows the grammar up to the end of a row with too many selections. -/
inductive Overloaded : Place → List Char → Prop
  | group {opening rest : List Char} (hopening : Mark '(' opening) (h : Overloaded .compound rest) :
      Overloaded .atom (opening ++ rest)
  | atFunction {opening rest : List Char} (hopening : Mark '@' opening)
      (h : Overloaded .function rest) : Overloaded .atom (opening ++ rest)
  | counted {before digits rest : List Char} {count : ℕ} (hbefore : Spaces before)
      (hcount : Multiplicity digits count) (h : Overloaded .atom rest) :
      Overloaded .counted (before ++ (digits ++ rest))
  | first {rest : List Char} (h : Overloaded .counted rest) : Overloaded .compound rest
  | behindFirst {text rest : List Char} {pattern : Pattern} {connective : Connective}
      (hfirst : Counted text pattern) (h : Overloaded (.operands connective) rest) :
      Overloaded .compound (text ++ rest)
  | operand {joint rest : List Char} {connective : Connective} (hjoint : Joint connective joint)
      (h : Overloaded .counted rest) : Overloaded (.operands connective) (joint ++ rest)
  | behindOperand {joint text rest : List Char} {pattern : Pattern} {connective : Connective}
      (hjoint : Joint connective joint) (hpattern : Counted text pattern)
      (h : Overloaded (.operands connective) rest) :
      Overloaded (.operands connective) (joint ++ (text ++ rest))
  | plain {name : String} {word rest : List Char} (hname : name ∈ ["any", "all", "not"])
      (hword : Word name word) (h : Overloaded .row rest) : Overloaded .function (word ++ rest)
  | threshold {word argument rest : List Char} {count : ℕ}
      (hword : Word "xof" word ∨ Word "atleast" word) (hargument : Argument argument count)
      (h : Overloaded .row rest) : Overloaded .function (word ++ (argument ++ rest))
  | tooMany {word argument row after : List Char} {count : ℕ} {children : List Pattern}
      (hword : Word "xof" word ∨ Word "atleast" word) (hargument : Argument argument count)
      (hrow : Row row children) (hmany : Selection.TooMany children.length count) :
      Overloaded .function (word ++ (argument ++ (row ++ after)))
  | row {opening rest : List Char} (hopening : Mark '(' opening) (h : Overloaded .items rest) :
      Overloaded .row (opening ++ rest)
  | item {rest : List Char} (h : Overloaded .counted rest) : Overloaded .items rest
  | behindItem {text rest : List Char} {pattern : Pattern} (hpattern : Counted text pattern)
      (h : Overloaded .items rest) : Overloaded .items (text ++ rest)

theorem Overloaded.after_spaces {spaces rest : List Char} (hspaces : Spaces spaces)
    (h : Overloaded .counted rest) : Overloaded .counted (spaces ++ rest) := by
  cases h with
  | counted hbefore hcount h =>
    rw [← List.append_assoc]
    exact .counted (hspaces.append hbefore) hcount h

end Grammar

open Grammar Cursor

/-! ### What breaks off is overloaded -/

mutual

theorem readAtom_breaksOnly (cursor : Cursor) :
    BreaksOnly (Overloaded .atom cursor.rest) (readAtom cursor) := by
  rw [readAtom]
  apply cursor.breaksOnly_readOpening.bind
  intro opening hopening
  obtain ⟨mark, hrest, hmark⟩ := cursor.finds_readOpening.of_eq_ok hopening
  have hshorter := opening.shorter
  cases hvalue : opening.value with
  | card => exact (breaksOnly_readClosed _ _ _ _).bind fun _ _ => .ok _
  | name => exact (breaksOnly_readClosed _ _ _ _).bind fun _ _ => .ok _
  | group =>
    rw [hvalue] at hmark
    have hcause (h : Overloaded .compound opening.next.rest) : Overloaded .atom cursor.rest :=
      hrest ▸ .group hmark h
    apply ((readCompound_breaksOnly opening.next).imp hcause).bind
    intro compound _
    exact (breaksOnly_expect _ _ _).bind fun _ _ => .ok _
  | function =>
    rw [hvalue] at hmark
    have hcause (h : Overloaded .function opening.next.rest) : Overloaded .atom cursor.rest :=
      hrest ▸ .atFunction hmark h
    exact ((readFunction_breaksOnly opening.next).imp hcause).bind fun _ _ => .ok _
termination_by 4 * cursor.rest.length
decreasing_by all_goals omega

theorem readPattern_breaksOnly (cursor : Cursor) :
    BreaksOnly (Overloaded .counted cursor.rest) (readPattern cursor) := by
  rw [readPattern]
  have hstart := cursor.length_rest_skip_le isSpace
  obtain ⟨before, hbefore, hskip⟩ := cursor.rest_skip_isSpace
  apply (breaksOnly_readCount _).bind
  intro count hcount
  obtain ⟨digits, hrest, hcount⟩ := (finds_readCount _).of_eq_ok hcount
  have hshorter := count.shorter
  have hcause (h : Overloaded .atom count.next.rest) : Overloaded .counted cursor.rest := by
    rw [hskip, hrest]
    exact .counted hbefore hcount h
  exact ((readAtom_breaksOnly count.next).imp hcause).bind fun _ _ => .ok _
termination_by 4 * cursor.rest.length + 1
decreasing_by all_goals omega

theorem readCompound_breaksOnly (cursor : Cursor) :
    BreaksOnly (Overloaded .compound cursor.rest) (readCompound cursor) := by
  rw [readCompound]
  split
  · exact .refuse _ _
  · apply ((readPattern_breaksOnly cursor).imp .first).bind
    intro first hfirst
    obtain ⟨text, hrest, hfirst⟩ := (readPattern_finds cursor).of_eq_ok hfirst
    have hshorter := first.shorter
    dsimp only
    split
    · exact .ok _
    · split
      · exact .refuse _ _
      · next connective _ =>
        have hcause (h : Overloaded (.operands connective) first.next.rest) :
            Overloaded .compound cursor.rest := hrest ▸ .behindFirst hfirst h
        exact ((readOperands_breaksOnly connective first.next).imp hcause).bind fun _ _ => .ok _
termination_by 4 * cursor.rest.length + 2
decreasing_by all_goals omega

theorem readOperands_breaksOnly (connective : Connective) (cursor : Cursor) :
    BreaksOnly (Overloaded (.operands connective) cursor.rest) (readOperands connective cursor) := by
  rw [readOperands]
  split
  · exact .ok _
  · apply (breaksOnly_expectConnective _ _).bind
    intro start hjoint
    obtain ⟨joint, hrest, hjoint⟩ := (cursor.finds_expectConnective connective).of_eq_ok hjoint
    have hstart := start.shorter
    have hcause (h : Overloaded .counted start.next.rest) :
        Overloaded (.operands connective) cursor.rest := hrest ▸ .operand hjoint h
    apply ((readPattern_breaksOnly start.next).imp hcause).bind
    intro first hfirst
    obtain ⟨text, hnext, hfirst⟩ := (readPattern_finds start.next).of_eq_ok hfirst
    have hshorter := first.shorter
    have hcause (h : Overloaded (.operands connective) first.next.rest) :
        Overloaded (.operands connective) cursor.rest := by
      rw [hrest, hnext]
      exact .behindOperand hjoint hfirst h
    exact ((readOperands_breaksOnly connective first.next).imp hcause).bind fun _ _ => .ok _
termination_by 4 * cursor.rest.length
decreasing_by all_goals omega

theorem readFunction_breaksOnly (cursor : Cursor) :
    BreaksOnly (Overloaded .function cursor.rest) (readFunction cursor) := by
  rw [readFunction]
  apply cursor.breaksOnly_readCombinator.bind
  intro combinator hcombinator
  obtain ⟨word, hrest, name, hmem, hword⟩ := cursor.finds_readCombinator.of_eq_ok hcombinator
  have hshorter := combinator.shorter
  have hplain (hname : name ∈ ["any", "all", "not"]) (h : Overloaded .row combinator.next.rest) :
      Overloaded .function cursor.rest := hrest ▸ .plain hname hword h
  cases hvalue : combinator.value with
  | any =>
    rw [hvalue] at hmem
    obtain rfl := List.mem_singleton.mp hmem
    apply ((readRow_breaksOnly combinator.next).imp (hplain (by decide))).bind
    intro row _
    split
    · exact .refuse _ _
    · exact .ok _
  | all =>
    rw [hvalue] at hmem
    obtain rfl := List.mem_singleton.mp hmem
    apply ((readRow_breaksOnly combinator.next).imp (hplain (by decide))).bind
    intro row _
    split
    · exact .refuse _ _
    · exact .ok _
  | atLeast =>
    rw [hvalue] at hmem
    have hwords : Word "xof" word ∨ Word "atleast" word := by
      rcases List.mem_pair.mp hmem with rfl | rfl
      · exact .inl hword
      · exact .inr hword
    apply (breaksOnly_readThreshold _).bind
    intro threshold hthreshold
    obtain ⟨argument, hnext, hargument⟩ := (finds_readThreshold _).of_eq_ok hthreshold
    have hthreshold := threshold.shorter
    have hcause (h : Overloaded .row threshold.next.rest) : Overloaded .function cursor.rest := by
      rw [hrest, hnext]
      exact .threshold hwords hargument h
    apply ((readRow_breaksOnly threshold.next).imp hcause).bind
    intro row hrow
    obtain ⟨text, hbehind, hrow⟩ := (readRow_finds threshold.next).of_eq_ok hrow
    split
    · next fault hfault =>
      refine ⟨fun _ _ => ?_⟩
      rw [hrest, hnext, hbehind]
      exact .tooMany hwords hargument hrow (Pattern.exists_atLeast_eq_error_iff.mp ⟨fault, hfault⟩)
    · exact .refuse _ _
    · exact .ok _
  | absent =>
    rw [hvalue] at hmem
    obtain rfl := List.mem_singleton.mp hmem
    apply ((readRow_breaksOnly combinator.next).imp (hplain (by decide))).bind
    intro row _
    split
    · exact .ok _
    · exact .refuse _ _
termination_by 4 * cursor.rest.length + 1
decreasing_by all_goals omega

theorem readRow_breaksOnly (cursor : Cursor) :
    BreaksOnly (Overloaded .row cursor.rest) (readRow cursor) := by
  rw [readRow]
  apply (breaksOnly_expect _ _ _).bind
  intro opened hopened
  obtain ⟨opening, hrest, hopening⟩ := (cursor.finds_expect _ _).of_eq_ok hopened
  have hshorter := opened.shorter
  have hcause (h : Overloaded .items opened.next.rest) : Overloaded .row cursor.rest :=
    hrest ▸ .row hopening h
  exact ((readItems_breaksOnly opened.next).imp hcause).bind fun _ _ => .ok _
termination_by 4 * cursor.rest.length
decreasing_by all_goals omega

theorem readItems_breaksOnly (cursor : Cursor) :
    BreaksOnly (Overloaded .items cursor.rest) (readItems cursor) := by
  rw [readItems]
  split
  · exact .ok _
  · split
    · exact .refuse _ _
    · have hstart := cursor.length_rest_skip_le isSpace
      obtain ⟨before, hbefore, hskip⟩ := cursor.rest_skip_isSpace
      have hcause (h : Overloaded .counted (cursor.skip isSpace).rest) :
          Overloaded .items cursor.rest := hskip ▸ .item (h.after_spaces hbefore)
      apply ((readPattern_breaksOnly (cursor.skip isSpace)).imp hcause).bind
      intro first hfirst
      obtain ⟨text, hrest, hfirst⟩ := (readPattern_finds (cursor.skip isSpace)).of_eq_ok hfirst
      have hshorter := first.shorter
      have hcause (h : Overloaded .items first.next.rest) : Overloaded .items cursor.rest := by
        rw [hskip, hrest, ← List.append_assoc]
        exact .behindItem (hfirst.after_spaces hbefore) h
      exact ((readItems_breaksOnly first.next).imp hcause).bind fun _ _ => .ok _
termination_by 4 * cursor.rest.length + 2
decreasing_by all_goals omega

end

/-! ### What is overloaded breaks off -/

def BreaksOff {α : Type} (outcome : Except ReadFailure α) : Prop :=
  ∃ fault, outcome = .error (.fault fault)

theorem BreaksOff.bind {α β : Type} {first : Except ReadFailure α} {onward : α → Except ReadFailure β}
    (h : BreaksOff first) : BreaksOff (first >>= onward) := by
  obtain ⟨fault, rfl⟩ := h
  exact ⟨fault, rfl⟩

/-- If the first part is read or breaks off, it is enough that what follows it breaks off. -/
theorem Grammar.Attains.breaksOff {α β : Type} {bound : ℕ} {value : α} {rest : List Char}
    {first : Except ReadFailure (Ahead bound α)} {onward : Ahead bound α → Except ReadFailure β}
    (h : Attains value rest first)
    (hnext : ∀ next shorter, next.rest = rest → BreaksOff (onward ⟨value, next, shorter⟩)) :
    BreaksOff (first >>= onward) := by
  cases h with
  | reads h => exact h.bind hnext
  | fault => exact ⟨_, rfl⟩

namespace Grammar

section Beginnings

variable {text : List Char}

theorem Overloaded.atom_dropWhile (h : Overloaded .atom text) :
    ∃ (opening : Opening) (more : List Char), text.dropWhile isSpace = opening.symbol :: more := by
  cases h with
  | group hopening h => exact ⟨.group, _, hopening.dropWhile rfl _⟩
  | atFunction hopening h => exact ⟨.function, _, hopening.dropWhile rfl _⟩

theorem Overloaded.counted_dropWhile (h : Overloaded .counted text) :
    ∃ c more, Begins c ∧ text.dropWhile isSpace = c :: more := by
  cases h with
  | @counted _ digits rest _ hbefore hcount h =>
    rw [hbefore.dropWhile]
    cases hcount with
    | none =>
      obtain ⟨opening, more, hopening⟩ := h.atom_dropWhile
      exact ⟨opening.symbol, more, .inr ⟨opening, rfl⟩, hopening⟩
    | digits hdigits =>
      obtain ⟨digit, others, rfl⟩ := List.exists_cons_of_ne_nil hdigits.ne_nil
      have hdigit := hdigits.digits digit List.mem_cons_self
      exact ⟨digit, others ++ rest, .inl hdigit, dropWhile_cons_of_not (isSpace_of_isDigit hdigit) _⟩

theorem Overloaded.compound_eq_cons (h : Overloaded .compound text) :
    ∃ c more, text = c :: more ∧ (isSpace c = true ∨ Begins c) := by
  cases h with
  | first h =>
    obtain ⟨c, more, hbegins, hdrop⟩ := h.counted_dropWhile
    exact hbegins.exists_eq_cons hdrop
  | @behindFirst _ rest _ _ hfirst h =>
    obtain ⟨c, more, rfl, hc⟩ := hfirst.exists_eq_cons
    exact ⟨c, more ++ rest, rfl, hc⟩

theorem Overloaded.operands_dropWhile {connective : Connective}
    (h : Overloaded (.operands connective) text) :
    ∃ more, text.dropWhile isSpace = connective.symbol :: more := by
  cases h with
  | operand hjoint h | behindOperand hjoint hpattern h =>
    obtain ⟨more, hmore⟩ := hjoint.dropWhile
    exact ⟨_, hmore _⟩

theorem Overloaded.row_dropWhile (h : Overloaded .row text) :
    ∃ more, text.dropWhile isSpace = '(' :: more := by
  cases h with
  | row hopening h => exact ⟨_, hopening.dropWhile rfl _⟩

end Beginnings

/-- The reader for the place breaks off where it finds the text. -/
def BreaksAt : Place → List Char → Prop
  | .atom, text => ∀ cursor : Cursor, cursor.rest.dropWhile isSpace = text.dropWhile isSpace →
    BreaksOff (readAtom cursor)
  | .counted, text => ∀ cursor : Cursor, cursor.rest.dropWhile isSpace = text.dropWhile isSpace →
    BreaksOff (readPattern cursor)
  | .compound, text => ∀ cursor : Cursor, cursor.rest = text → BreaksOff (readCompound cursor)
  | .operands connective, text => ∀ cursor : Cursor, cursor.rest = text.dropWhile isSpace →
    BreaksOff (readOperands connective cursor)
  | .function, text => ∀ cursor : Cursor, cursor.rest = text → BreaksOff (readFunction cursor)
  | .row, text => ∀ cursor : Cursor, cursor.rest.dropWhile isSpace = text.dropWhile isSpace →
    BreaksOff (readRow cursor)
  | .items, text => ∀ cursor : Cursor, cursor.rest.dropWhile isSpace = text.dropWhile isSpace →
    BreaksOff (readItems cursor)

section Rules

variable {opening rest text joint word argument row : List Char} {pattern : Pattern}
  {connective : Connective} {count : ℕ} {children : List Pattern}

theorem breaksAt_group (hopening : Mark '(' opening) (h : BreaksAt .compound rest) :
    BreaksAt .atom (opening ++ rest) := by
  intro cursor hrest
  rw [hopening.dropWhile rfl] at hrest
  rw [readAtom]
  apply (readOpening_reads hrest rfl).bind
  intro next shorter hnext
  exact (h next hnext).bind

theorem breaksAt_atFunction (hopening : Mark '@' opening) (h : BreaksAt .function rest) :
    BreaksAt .atom (opening ++ rest) := by
  intro cursor hrest
  rw [hopening.dropWhile rfl] at hrest
  rw [readAtom]
  apply (readOpening_reads hrest rfl).bind
  intro next shorter hnext
  exact (h next hnext).bind

theorem breaksAt_counted {before digits : List Char} (hbefore : Spaces before)
    (hcount : Multiplicity digits count) (hatom : Overloaded .atom rest) (h : BreaksAt .atom rest) :
    BreaksAt .counted (before ++ (digits ++ rest)) := by
  intro cursor hrest
  rw [hbefore.dropWhile] at hrest
  obtain ⟨opening, more, hopening⟩ := hatom.atom_dropWhile
  have hskip : (cursor.skip isSpace).rest = _ := (cursor.rest_skip isSpace).trans hrest
  obtain ⟨behind, hbehind, hdigits⟩ := readCount_multiplicity hcount hopening hskip
  rw [readPattern]
  apply hdigits.bind
  intro next shorter hnext
  exact (h next (hnext ▸ hbehind)).bind

theorem breaksAt_first (hcounted : Overloaded .counted rest) (h : BreaksAt .counted rest) :
    BreaksAt .compound rest := by
  intro cursor hrest
  obtain ⟨c, more, rfl, hc⟩ := (Overloaded.first hcounted).compound_eq_cons
  rw [readCompound, if_neg (not_atCompoundEnd hrest (ne_of_begins hc (.inl rfl)))]
  exact (h cursor (congrArg _ hrest)).bind

theorem breaksAt_behindFirst (hfirst : Counted text pattern)
    (hoperands : Overloaded (.operands connective) rest) (h : BreaksAt (.operands connective) rest) :
    BreaksAt .compound (text ++ rest) := by
  intro cursor hrest
  obtain ⟨c, letters, rfl, hc⟩ := hfirst.exists_eq_cons
  obtain ⟨more, hmore⟩ := hoperands.operands_dropWhile
  rw [readCompound, if_neg (not_atCompoundEnd hrest (ne_of_begins hc (.inl rfl)))]
  apply (hfirst.reads cursor rest (congrArg _ hrest)).breaksOff
  intro next shorter hnext
  dsimp only
  have hsymbol := hnext.trans hmore
  have hcurrent : next.current.bind Connective.ofSymbol? = some connective := by
    rw [current, hsymbol, List.head?_cons]
    exact connective.ofSymbol?_symbol
  rw [if_neg (not_atCompoundEnd hsymbol connective.symbol_ne_closing)]
  split
  · next hnone => rw [hcurrent] at hnone; cases hnone
  · next found hfound =>
    obtain rfl : connective = found := Option.some.inj (hcurrent.symm.trans hfound)
    exact (h next hnext).bind

theorem breaksAt_operand (hjoint : Joint connective joint) (hcounted : Overloaded .counted rest)
    (h : BreaksAt .counted rest) : BreaksAt (.operands connective) (joint ++ rest) := by
  intro cursor hrest
  obtain ⟨more, hmore⟩ := hjoint.dropWhile
  obtain ⟨c, letters, rfl, hc⟩ := (Overloaded.first hcounted).compound_eq_cons
  have hsymbol := hrest.trans (hmore _)
  have hother : (c :: letters).head? ≠ some connective.symbol := fun hhead =>
    ne_of_begins hc (.inr ⟨connective, rfl⟩) (Option.some.inj hhead)
  have hstart := (congrArg (List.dropWhile isSpace) hrest).trans (List.dropWhile_idempotent _ _)
  rw [readOperands, if_neg (not_atCompoundEnd hsymbol connective.symbol_ne_closing)]
  apply (expectConnective_joint hjoint hstart hother).bind
  intro start shorter hstart
  exact (h start (congrArg _ hstart)).bind

theorem breaksAt_behindOperand (hjoint : Joint connective joint) (hpattern : Counted text pattern)
    (h : BreaksAt (.operands connective) rest) :
    BreaksAt (.operands connective) (joint ++ (text ++ rest)) := by
  intro cursor hrest
  obtain ⟨more, hmore⟩ := hjoint.dropWhile
  obtain ⟨c, letters, rfl, hc⟩ := hpattern.exists_eq_cons
  have hsymbol := hrest.trans (hmore _)
  have hother : (c :: letters ++ rest).head? ≠ some connective.symbol := fun hhead =>
    ne_of_begins hc (.inr ⟨connective, rfl⟩) (Option.some.inj hhead)
  have hstart := (congrArg (List.dropWhile isSpace) hrest).trans (List.dropWhile_idempotent _ _)
  rw [readOperands, if_neg (not_atCompoundEnd hsymbol connective.symbol_ne_closing)]
  apply (expectConnective_joint hjoint hstart hother).bind
  intro start shorter hstart
  dsimp only
  apply (hpattern.reads start rest (congrArg _ hstart)).breaksOff
  intro first shorter' hfirst
  exact (h first hfirst).bind

theorem breaksAt_plain {name : String} (hname : name ∈ ["any", "all", "not"]) (hword : Word name word)
    (hrow : Overloaded .row rest) (h : BreaksAt .row rest) : BreaksAt .function (word ++ rest) := by
  intro cursor hrest
  obtain ⟨more, hmore⟩ := hrow.row_dropWhile
  obtain ⟨combinator, hcombinator, hplain, hne⟩ : ∃ combinator,
      Combinator.ofName? name = some combinator ∧ combinator ≠ .atLeast ∧ name.isEmpty = false := by
    fin_cases hname <;> exact ⟨_, rfl, by decide, rfl⟩
  rw [readFunction]
  apply (readCombinator_reads hword hne hcombinator hrest hmore rfl).bind
  intro start shorter hstart
  have hbreaks : BreaksOff (readRow start) := by
    apply h
    rw [hstart, hmore]
    rfl
  cases combinator with
  | atLeast => exact absurd rfl hplain
  | any | all | absent => exact hbreaks.bind

theorem breaksAt_threshold (hword : Word "xof" word ∨ Word "atleast" word)
    (hargument : Argument argument count) (h : BreaksAt .row rest) :
    BreaksAt .function (word ++ (argument ++ rest)) := by
  intro cursor hrest
  obtain ⟨start, _, hstart, hfunction⟩ := readFunction_threshold hword hargument hrest
  rw [hfunction]
  exact (h start (congrArg _ hstart)).bind

theorem breaksAt_tooMany {after : List Char} (hword : Word "xof" word ∨ Word "atleast" word)
    (hargument : Argument argument count) (hrow : Row row children)
    (hmany : Selection.TooMany children.length count) :
    BreaksAt .function (word ++ (argument ++ (row ++ after))) := by
  intro cursor hrest
  obtain ⟨start, _, hstart, hfunction⟩ := readFunction_threshold hword hargument hrest
  rw [hfunction]
  apply (hrow.reads start after (congrArg _ hstart)).breaksOff
  intro next shorter _
  obtain ⟨fault, hfault⟩ := Pattern.exists_atLeast_eq_error_iff.mpr hmany
  dsimp only
  rw [hfault]
  exact ⟨fault, rfl⟩

theorem breaksAt_row (hopening : Mark '(' opening) (h : BreaksAt .items rest) :
    BreaksAt .row (opening ++ rest) := by
  intro cursor hrest
  rw [hopening.dropWhile rfl] at hrest
  rw [readRow]
  apply (expect_reads _ hrest).bind
  intro opened shorter hopened
  exact (h opened (congrArg _ hopened)).bind

theorem breaksAt_item (hcounted : Overloaded .counted rest) (h : BreaksAt .counted rest) :
    BreaksAt .items rest := by
  intro cursor hrest
  obtain ⟨c, more, hbegins, hmore⟩ := hcounted.counted_dropWhile
  obtain ⟨hfound, hend⟩ := not_row_end hbegins (hrest.trans hmore)
  rw [readItems, dif_neg hfound, if_neg hend]
  apply BreaksOff.bind
  apply h
  rw [rest_skip, hrest, List.dropWhile_idempotent]

theorem breaksAt_behindItem (hpattern : Counted text pattern) (h : BreaksAt .items rest) :
    BreaksAt .items (text ++ rest) := by
  intro cursor hrest
  obtain ⟨c, more, hbegins, hmore⟩ := hpattern.dropWhile
  obtain ⟨hfound, hend⟩ := not_row_end hbegins (hrest.trans (hmore _))
  have hstart : (cursor.skip isSpace).rest.dropWhile isSpace = (text ++ rest).dropWhile isSpace := by
    rw [rest_skip, hrest, List.dropWhile_idempotent]
  rw [readItems, dif_neg hfound, if_neg hend]
  apply (hpattern.reads _ rest hstart).breaksOff
  intro first shorter hfirst
  have hnext := (congrArg (List.dropWhile isSpace) hfirst).trans (List.dropWhile_idempotent _ _)
  exact (h first hnext).bind

end Rules

-- The induction is on the way to the row; each rule says how one more part in front of it is read.
theorem Overloaded.breaksAt {place : Place} {text : List Char} (h : Overloaded place text) :
    BreaksAt place text := by
  induction h with
  | group hopening _ ih => exact breaksAt_group hopening ih
  | atFunction hopening _ ih => exact breaksAt_atFunction hopening ih
  | counted hbefore hcount h ih => exact breaksAt_counted hbefore hcount h ih
  | first h ih => exact breaksAt_first h ih
  | behindFirst hfirst h ih => exact breaksAt_behindFirst hfirst h ih
  | operand hjoint h ih => exact breaksAt_operand hjoint h ih
  | behindOperand hjoint hpattern _ ih => exact breaksAt_behindOperand hjoint hpattern ih
  | plain hname hword h ih => exact breaksAt_plain hname hword h ih
  | threshold hword hargument _ ih => exact breaksAt_threshold hword hargument ih
  | tooMany hword hargument hrow hmany => exact breaksAt_tooMany hword hargument hrow hmany
  | row hopening _ ih => exact breaksAt_row hopening ih
  | item h ih => exact breaksAt_item h ih
  | behindItem hpattern _ ih => exact breaksAt_behindItem hpattern ih

/-- Behind the heading of a declaration, the line follows the grammar up to the end of a row with too many
selections. -/
inductive OverloadedLine : List Char → Prop
  | mk {isCriterion : Bool} {heading name colon rest : List Char}
      (hheading : Heading isCriterion heading name) (hcolon : Mark ':' colon)
      (h : Overloaded .compound rest) : OverloadedLine (heading ++ (colon ++ rest))

end Grammar

namespace Declaration

theorem readBody_breaksOnly (isCriterion : Bool) (name : List Char) (cursor : Cursor) :
    BreaksOnly (Overloaded .compound cursor.rest) (readBody isCriterion name cursor) := by
  rw [readBody]
  apply (readCompound_breaksOnly cursor).bind
  intro compound _
  dsimp only
  split
  · exact .ok _
  · exact .refuse _ _

theorem read_breaksOnly (line : List Char) : BreaksOnly (OverloadedLine line) (read line) := by
  cases read_begun line with
  | refuses h =>
    obtain ⟨diagnostic, hread⟩ := h
    rw [hread]
    exact ⟨fun fault hfault => by cases hfault⟩
  | @body isCriterion heading name colon cursor hheading hcolon hline hread =>
    have hcause (h : Overloaded .compound cursor.rest) : OverloadedLine line :=
      hline ▸ .mk hheading hcolon h
    rw [hread]
    exact (readBody_breaksOnly isCriterion name cursor).imp hcause

/-- Reading a line breaks off for no other reason than a row with too many selections, and whenever there
is nothing wrong with the line up to the end of such a row. -/
theorem breaksOff_read_iff (line : List Char) : BreaksOff (read line) ↔ OverloadedLine line := by
  constructor
  · rintro ⟨fault, hfault⟩
    exact (read_breaksOnly line).of_eq_fault fault hfault
  · rintro ⟨hheading, hcolon, h⟩
    obtain ⟨cursor, hrest, hread⟩ := read_of_heading hheading hcolon rfl
    rw [hread, readBody]
    exact (h.breaksAt cursor hrest).bind

end Declaration

end OpeningHand
