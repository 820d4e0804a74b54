import Mathlib
import OpeningHand.Proofs.DeclarationSoundness
import OpeningHand.Proofs.RenderedPatterns

/-!
# What derives from the grammar is read

Where a text that derives a pattern begins, the pattern is read and what stands behind the text is
left, unless there are too many selections from a row. So a line is read exactly if it derives a
declaration, and then it derives no other one.
-/

namespace OpeningHand

theorem isSpace_iff {c : Char} : isSpace c = true ↔ c = ' ' ∨ c = '\t' := by
  rw [isSpace, Bool.or_eq_true, beq_iff_eq, beq_iff_eq]

/-- Blanks behind a text are trimmed away. -/
theorem Text.trim_append_of_blank {blanks : List Char} (h : ∀ c ∈ blanks, isBlank c = true)
    (text : List Char) : trim (text ++ blanks) = trim text := by
  induction text with
  | nil =>
    have hnil : trimStart blanks = [] := List.dropWhile_eq_nil_iff.mpr h
    rw [List.nil_append, trim, hnil]
    rfl
  | cons c text ih =>
    rw [List.cons_append, trim, trim, trimStart_cons, trimStart_cons]
    split
    · exact ih
    · have hreverse : ∀ c ∈ blanks.reverse, isBlank c = true := fun c hc => h c (List.mem_reverse.mp hc)
      rw [trimEnd, trimEnd, ← List.cons_append, List.reverse_append,
        List.dropWhile_append_of_pos hreverse]

namespace Grammar

variable {bound limit : Nat} {α β : Type} {spaces : List Char}

theorem Spaces.dropWhile (h : Spaces spaces) (tail : List Char) :
    (spaces ++ tail).dropWhile isSpace = tail.dropWhile isSpace :=
  List.dropWhile_append_of_pos h

theorem Spaces.run (h : Spaces spaces) : Run spaces := by
  intro c hc
  rcases isSpace_iff.mp (h c hc) with rfl | rfl <;> rfl

theorem Spaces.blank (h : Spaces spaces) : ∀ c ∈ spaces, Text.isBlank c = true := by
  intro c hc
  rcases isSpace_iff.mp (h c hc) with rfl | rfl <;> rfl

/-- Spaces behind a run are trimmed away. -/
theorem Spaces.trim_append (h : Spaces spaces) (text : List Char) :
    Text.trim (text ++ spaces) = Text.trim text :=
  Text.trim_append_of_blank h.blank text

theorem Mark.dropWhile {c : Char} {mark : List Char} (h : Mark c mark) (hc : isSpace c = false)
    (tail : List Char) : (mark ++ tail).dropWhile isSpace = c :: tail := by
  cases h with
  | mk hspaces =>
    rw [List.append_assoc, hspaces.dropWhile]
    exact dropWhile_cons_of_not hc tail

/-- The value is read and the rest is left, or the computation breaks off. -/
inductive Attains (value : α) (rest : List Char) : Except ReadFailure (Ahead bound α) → Prop
  | reads {outcome : Except ReadFailure (Ahead bound α)} (h : Reads value rest outcome) :
      Attains value rest outcome
  | fault {fault : Fault} : Attains value rest (.error (.fault fault))

theorem Attains.reads_or_fault {value : α} {rest : List Char}
    {outcome : Except ReadFailure (Ahead bound α)} (h : Attains value rest outcome) :
    Reads value rest outcome ∨ ∃ fault, outcome = .error (.fault fault) := by
  cases h with
  | reads h => exact .inl h
  | fault => exact .inr ⟨_, rfl⟩

theorem Attains.bind {value : α} {result : β} {rest tail : List Char}
    {first : Except ReadFailure (Ahead bound α)}
    {onward : Ahead bound α → Except ReadFailure (Ahead limit β)} (h : Attains value rest first)
    (hnext : ∀ next shorter, next.rest = rest → Attains result tail (onward ⟨value, next, shorter⟩)) :
    Attains result tail (first >>= onward) := by
  cases h with
  | reads h => exact h.bind hnext
  | fault => exact .fault

end Grammar

namespace Cursor

open Grammar

variable {cursor : Cursor} {c : Char} {text rest : List Char}

/-! ### Runs and counts -/

/-- A run is read with the spaces in front of the bracket behind it, which does not matter as it is
trimmed. -/
theorem readName_run {name : List Char} (hrest : cursor.rest = name ++ text) (hrun : Run name)
    (htext : text.dropWhile isSpace = c :: rest) (hc : isBracket c = true) :
    Run cursor.readName.value ∧ Text.trim cursor.readName.value = Text.trim name ∧
      cursor.readName.next.rest = c :: rest := by
  have hspaces := spaces_takeWhile text
  have hsplit : cursor.rest = (name ++ text.takeWhile isSpace) ++ c :: rest := by
    rw [hrest, List.append_assoc, ← htext, List.takeWhile_append_dropWhile]
  have hwhole : Run (name ++ text.takeWhile isSpace) :=
    List.forall_mem_append.mpr ⟨hrun, hspaces.run⟩
  have hvalue := value_readName hsplit hwhole hc
  refine ⟨cursor.run_readName, ?_, rest_readName hsplit hwhole hc⟩
  rw [hvalue, hspaces.trim_append]

theorem readClosed_attains {closing : Char} {name : List Char} (empty unclosed : Flaw)
    (hrest : cursor.rest = name ++ text) (hname : Name name)
    (htext : text.dropWhile isSpace = closing :: rest) (hclosing : isBracket closing = true)
    (hspace : isSpace closing = false) :
    ∃ word, Text.trim word = Text.trim name ∧
      Reads word rest (cursor.readClosed closing empty unclosed) := by
  obtain ⟨-, htrim, hnext⟩ := readName_run hrest hname.run htext hclosing
  refine ⟨cursor.readName.value, htrim, ?_⟩
  have hempty : (Text.trim cursor.readName.value).isEmpty = false := by
    rw [htrim]
    exact List.isEmpty_eq_false_iff.mpr hname.visible
  rw [readClosed, hempty, if_neg Bool.false_ne_true]
  apply (expect_reads_next unclosed hnext hspace).bind
  intro next shorter hlast
  exact ⟨_, rfl, rfl, hlast⟩

theorem readThreshold_reads {argument : List Char} {count : Nat} (h : Argument argument count)
    (hrest : cursor.rest.dropWhile isSpace = (argument ++ rest).dropWhile isSpace) :
    Reads count rest cursor.readThreshold := by
  cases h with
  | mk hopening hrun hcount hclosing =>
    rw [List.append_assoc, hopening.dropWhile rfl, List.append_assoc] at hrest
    have hhead := hcount.head_ne
    have hread := numeral_iff.mp hcount
    rw [readThreshold]
    apply (expect_reads _ hrest).bind
    intro opened shorter hopened
    obtain ⟨-, htrim, hnext⟩ := readName_run hopened hrun (hclosing.dropWhile rfl rest) rfl
    rw [← htrim] at hhead hread
    dsimp only
    apply (expect_reads_next _ hnext rfl).bind
    intro closed shorter' hclosed
    rw [if_neg hhead]
    split
    · next found hfound =>
      obtain rfl : count = found := Option.some.inj (hread.symm.trans hfound)
      exact ⟨_, rfl, rfl, hclosed⟩
    · next hnone => rw [hread] at hnone; cases hnone

theorem readCombinator_reads {word : String} {combinator : Combinator} {name : List Char}
    (hword : Word word name) (hne : word.isEmpty = false)
    (hcombinator : Combinator.ofName? word = some combinator) (hrest : cursor.rest = name ++ text)
    (htext : text.dropWhile isSpace = c :: rest) (hc : isBracket c = true) :
    Reads combinator (c :: rest) cursor.readCombinator := by
  obtain ⟨-, htrim, hnext⟩ := readName_run hrest hword.run htext hc
  have hread : String.ofList (Text.trim cursor.readName.value) = word := by
    rw [htrim, hword.trim_eq, String.ofList_toList]
  rw [readCombinator, hread, hne, if_neg Bool.false_ne_true]
  split
  · next found hfound =>
    obtain rfl : combinator = found := Option.some.inj (hcombinator.symm.trans hfound)
    exact ⟨_, rfl, rfl, hnext⟩
  · next hnone => rw [hcombinator] at hnone; cases hnone

/-- A connective is read whether it stands once or twice, where something else follows it. -/
theorem expectConnective_joint {connective : Connective} {joint : List Char} (h : Joint connective joint)
    (hrest : cursor.rest.dropWhile isSpace = (joint ++ text).dropWhile isSpace)
    (hother : text.head? ≠ some connective.symbol) :
    Reads () text (cursor.expectConnective connective) := by
  cases h with
  | once hmark =>
    rw [hmark.dropWhile connective.isSpace_symbol] at hrest
    rw [expectConnective]
    apply (expect_reads _ hrest).bind
    intro first shorter hfirst
    dsimp only
    obtain ⟨last, hlast, hrest⟩ := consume_optional false hother hfirst
    refine ⟨_, rfl, rfl, ?_⟩
    change (first.consume connective.symbol fun _ => false).2.rest = text
    rw [hlast, hrest]
  | twice hmark =>
    rw [List.append_assoc, hmark.dropWhile connective.isSpace_symbol] at hrest
    exact expectConnective_reads connective hrest

end Cursor

namespace Grammar

/-! ### How texts begin -/

def Begins (c : Char) : Prop :=
  c.isDigit = true ∨ ∃ opening : Opening, c = opening.symbol

/-- What stands in front of a pattern is no mark that could stand behind one. -/
theorem ne_of_begins {c other : Char} (h : isSpace c = true ∨ Begins c)
    (hother : other = ')' ∨ ∃ connective : Connective, other = connective.symbol) : c ≠ other := by
  rintro rfl
  rcases hother with rfl | ⟨connective, rfl⟩
  · rcases h with hspace | hdigit | ⟨opening, hopening⟩
    · cases hspace
    · cases hdigit
    · cases opening <;> cases hopening
  · rcases h with hspace | hdigit | ⟨opening, hopening⟩
    · cases connective <;> cases hspace
    · cases connective <;> cases hdigit
    · cases connective <;> cases opening <;> cases hopening

variable {text : List Char} {pattern : Pattern}

theorem Atom.dropWhile (h : Atom text pattern) : ∃ (opening : Opening) (more : List Char), ∀ tail,
    (text ++ tail).dropWhile isSpace = opening.symbol :: (more ++ tail) := by
  cases h with
  | @card _ name closing hopening hname hclosing =>
    refine ⟨.card, name ++ closing, fun tail => ?_⟩
    rw [List.append_assoc]
    exact hopening.dropWhile rfl _
  | @named _ name closing hopening hname hclosing =>
    refine ⟨.name, name ++ closing, fun tail => ?_⟩
    rw [List.append_assoc]
    exact hopening.dropWhile rfl _
  | @group _ text closing _ hopening hcompound hclosing =>
    refine ⟨.group, text ++ closing, fun tail => ?_⟩
    rw [List.append_assoc]
    exact hopening.dropWhile rfl _
  | @function _ text _ hopening hfunction =>
    refine ⟨.function, text, fun tail => ?_⟩
    rw [List.append_assoc]
    exact hopening.dropWhile rfl _

theorem Counted.dropWhile (h : Counted text pattern) : ∃ c more, Begins c ∧ ∀ tail,
    (text ++ tail).dropWhile isSpace = c :: (more ++ tail) := by
  cases h with
  | @mk before digits atom after count pattern hbefore hcount hatom hafter =>
    obtain ⟨opening, more, hatom⟩ := hatom.dropWhile
    cases hcount with
    | none =>
      refine ⟨opening.symbol, more ++ after, .inr ⟨opening, rfl⟩, fun tail => ?_⟩
      rw [List.append_assoc, hbefore.dropWhile, List.nil_append, List.append_assoc, hatom,
        List.append_assoc]
    | digits hdigits =>
      obtain ⟨digit, digits, rfl⟩ := List.exists_cons_of_ne_nil hdigits.ne_nil
      have hdigit := hdigits.digits digit List.mem_cons_self
      refine ⟨digit, digits ++ (atom ++ after), .inl hdigit, fun tail => ?_⟩
      rw [List.append_assoc, hbefore.dropWhile]
      exact dropWhile_cons_of_not (isSpace_of_isDigit hdigit) _

theorem Joint.dropWhile {connective : Connective} {joint : List Char} (h : Joint connective joint) :
    ∃ more, ∀ tail, (joint ++ tail).dropWhile isSpace = connective.symbol :: (more ++ tail) := by
  cases h with
  | once hmark => exact ⟨[], hmark.dropWhile connective.isSpace_symbol⟩
  | twice hmark =>
    refine ⟨[connective.symbol], fun tail => ?_⟩
    rw [List.append_assoc]
    exact hmark.dropWhile connective.isSpace_symbol _

theorem Operands.dropWhile {connective : Connective} {others : List Pattern}
    (h : Operands connective text others) (hne : others ≠ []) :
    ∃ more, ∀ tail, (text ++ tail).dropWhile isSpace = connective.symbol :: (more ++ tail) := by
  cases h with
  | nil => exact absurd rfl hne
  | @cons _ _ text rest _ _ hjoint hpattern hothers =>
    obtain ⟨more, hmore⟩ := hjoint.dropWhile
    refine ⟨more ++ (text ++ rest), fun tail => ?_⟩
    rw [List.append_assoc, hmore, List.append_assoc more]

theorem Argument.dropWhile {count : Nat} (h : Argument text count) :
    ∃ more, ∀ tail, (text ++ tail).dropWhile isSpace = '(' :: (more ++ tail) := by
  cases h with
  | @mk _ text closing _ hopening hrun hcount hclosing =>
    refine ⟨text ++ closing, fun tail => ?_⟩
    rw [List.append_assoc]
    exact hopening.dropWhile rfl _

theorem Row.dropWhile {children : List Pattern} (h : Row text children) :
    ∃ more, ∀ tail, (text ++ tail).dropWhile isSpace = '(' :: (more ++ tail) := by
  cases h with
  | @mk _ text closing _ hopening hitems hclosing =>
    refine ⟨text ++ closing, fun tail => ?_⟩
    rw [List.append_assoc]
    exact hopening.dropWhile rfl _

/-- A text that goes on with a pattern behind its spaces begins with a space or as the pattern does. -/
theorem Begins.exists_eq_cons {c : Char} {more : List Char} (h : Begins c)
    (hdrop : text.dropWhile isSpace = c :: more) :
    ∃ first rest, text = first :: rest ∧ (isSpace first = true ∨ Begins first) := by
  cases text with
  | nil => cases hdrop
  | cons first rest =>
    refine ⟨first, rest, rfl, ?_⟩
    cases hspace : isSpace first with
    | true => exact .inl rfl
    | false =>
      rw [dropWhile_cons_of_not hspace] at hdrop
      obtain rfl := (List.cons.inj hdrop).1
      exact .inr h

theorem Counted.exists_eq_cons (h : Counted text pattern) :
    ∃ c more, text = c :: more ∧ (isSpace c = true ∨ Begins c) := by
  obtain ⟨c, more, hbegins, hdrop⟩ := h.dropWhile
  have hwhole := hdrop []
  rw [List.append_nil] at hwhole
  exact hbegins.exists_eq_cons hwhole

def Ending (tail : List Char) : Prop :=
  tail.dropWhile isSpace = [] ∨ ∃ rest, tail.dropWhile isSpace = ')' :: rest

theorem Ending.atCompoundEnd {cursor : Cursor} {tail : List Char} (h : Ending tail)
    (hrest : cursor.rest = tail.dropWhile isSpace) : cursor.atCompoundEnd = true := by
  rw [Cursor.atCompoundEnd, Cursor.current, hrest]
  rcases h with hnil | ⟨rest, hcons⟩
  · rw [hnil]
    rfl
  · rw [hcons]
    rfl

end Grammar

/-! ### Patterns -/

open Grammar Cursor

theorem Cursor.readCount_multiplicity {cursor : Cursor} {digits text : List Char} {count : Nat}
    {opening : Opening} {more : List Char} (h : Multiplicity digits count)
    (htext : text.dropWhile isSpace = opening.symbol :: more)
    (hrest : cursor.rest = (digits ++ text).dropWhile isSpace) :
    ∃ rest, rest.dropWhile isSpace = text.dropWhile isSpace ∧ Reads count rest cursor.readCount := by
  have hsymbol : opening.symbol.isDigit = false := by cases opening <;> rfl
  have hspace : isSpace opening.symbol = false := by cases opening <;> rfl
  cases h with
  | none =>
    have hnext : cursor.rest = opening.symbol :: more := hrest.trans htext
    refine ⟨cursor.rest, ?_, readCount_reads_one ?_⟩
    · rw [htext, hnext, dropWhile_cons_of_not hspace]
    · rw [hnext]
      rintro c ⟨⟩
      exact hsymbol
  | digits hdigits =>
    obtain ⟨digit, others, rfl⟩ := List.exists_cons_of_ne_nil hdigits.ne_nil
    have hdigit := hdigits.digits digit List.mem_cons_self
    have hnext : cursor.rest = (digit :: others) ++ text :=
      hrest.trans (dropWhile_cons_of_not (isSpace_of_isDigit hdigit) _)
    refine ⟨text, rfl, readCount_reads hnext (digits_iff.mp hdigits) ?_⟩
    -- A digit behind the count would be neither a space nor the opening.
    intro c hc
    apply Bool.eq_false_iff.mpr
    intro hdigit
    obtain ⟨rest, rfl⟩ := List.head?_eq_some_iff.mp hc
    rw [dropWhile_cons_of_not (isSpace_of_isDigit hdigit)] at htext
    rw [(List.cons.inj htext).1, hsymbol] at hdigit
    cases hdigit

section Readings

variable (text : List Char) (pattern : Pattern) (children : List Pattern)

/-- Where the text begins, the pattern is read, without a count. -/
def ReadsAtom : Prop :=
  ∀ (cursor : Cursor) (tail : List Char),
    cursor.rest.dropWhile isSpace = (text ++ tail).dropWhile isSpace →
      Attains pattern tail (readAtom cursor)

def ReadsCounted : Prop :=
  ∀ (cursor : Cursor) (tail : List Char),
    cursor.rest.dropWhile isSpace = (text ++ tail).dropWhile isSpace →
      Attains pattern (tail.dropWhile isSpace) (readPattern cursor)

/-- Where there is just the text left of a compound, its pattern is read with the spaces behind it. -/
def ReadsCompound : Prop :=
  ∀ (cursor : Cursor) (tail : List Char), cursor.rest = text ++ tail → Ending tail →
    Attains pattern (tail.dropWhile isSpace) (readCompound cursor)

def ReadsOperands (connective : Connective) : Prop :=
  ∀ (cursor : Cursor) (tail : List Char),
    cursor.rest = (text ++ tail).dropWhile isSpace → Ending tail →
      Attains children (tail.dropWhile isSpace) (readOperands connective cursor)

def ReadsFunction : Prop :=
  ∀ (cursor : Cursor) (tail : List Char), cursor.rest = text ++ tail →
    Attains pattern tail (readFunction cursor)

def ReadsRow : Prop :=
  ∀ (cursor : Cursor) (tail : List Char),
    cursor.rest.dropWhile isSpace = (text ++ tail).dropWhile isSpace →
      Attains children tail (readRow cursor)

/-- Where there is just the text left of a row, its patterns are read with the closing parenthesis. -/
def ReadsItems : Prop :=
  ∀ (cursor : Cursor) (tail rest : List Char),
    cursor.rest.dropWhile isSpace = (text ++ tail).dropWhile isSpace →
      tail.dropWhile isSpace = ')' :: rest → Attains children rest (readItems cursor)

end Readings

section Atoms

variable {opening name text closing : List Char} {pattern : Pattern}

theorem readsAtom_card (hopening : Mark '[' opening) (hname : Name name)
    (hclosing : Mark ']' closing) : ReadsAtom (opening ++ (name ++ closing)) (.ofCardName name) := by
  intro cursor tail hrest
  rw [List.append_assoc, hopening.dropWhile rfl, List.append_assoc] at hrest
  rw [readAtom]
  apply (readOpening_reads hrest rfl).bind
  intro next shorter hnext
  obtain ⟨word, htrim, hword⟩ := readClosed_attains .cardEmpty .cardClosing hnext hname
    (hclosing.dropWhile rfl tail) rfl rfl
  dsimp only
  apply hword.bind
  intro last shorter' hlast
  refine .reads ⟨_, rfl, ?_, hlast⟩
  rw [Pattern.ofCardName, Card.ofName, htrim]
  rfl

theorem readsAtom_named (hopening : Mark '<' opening) (hname : Name name)
    (hclosing : Mark '>' closing) : ReadsAtom (opening ++ (name ++ closing)) (.ofName name) := by
  intro cursor tail hrest
  rw [List.append_assoc, hopening.dropWhile rfl, List.append_assoc] at hrest
  rw [readAtom]
  apply (readOpening_reads hrest rfl).bind
  intro next shorter hnext
  obtain ⟨word, htrim, hword⟩ := readClosed_attains .referenceEmpty .referenceClosing hnext hname
    (hclosing.dropWhile rfl tail) rfl rfl
  dsimp only
  apply hword.bind
  intro last shorter' hlast
  refine .reads ⟨_, rfl, ?_, hlast⟩
  rw [Pattern.ofName, htrim]
  rfl

theorem readsAtom_group (hopening : Mark '(' opening) (hcompound : ReadsCompound text pattern)
    (hclosing : Mark ')' closing) : ReadsAtom (opening ++ (text ++ closing)) pattern := by
  intro cursor tail hrest
  rw [List.append_assoc, hopening.dropWhile rfl, List.append_assoc] at hrest
  have hclosed := hclosing.dropWhile rfl tail
  rw [readAtom]
  apply (readOpening_reads hrest rfl).bind
  intro next shorter hnext
  dsimp only
  apply (hcompound next _ hnext (.inr ⟨_, hclosed⟩)).bind
  intro compound shorter' hcompound
  rw [hclosed] at hcompound
  dsimp only
  apply (expect_reads_next _ hcompound rfl).bind
  intro last shorter'' hlast
  exact .reads ⟨_, rfl, rfl, hlast⟩

theorem readsAtom_function (hopening : Mark '@' opening) (hfunction : ReadsFunction text pattern) :
    ReadsAtom (opening ++ text) pattern := by
  intro cursor tail hrest
  rw [List.append_assoc, hopening.dropWhile rfl] at hrest
  rw [readAtom]
  apply (readOpening_reads hrest rfl).bind
  intro next shorter hnext
  dsimp only
  apply (hfunction next tail hnext).bind
  intro last shorter' hlast
  exact .reads ⟨_, rfl, rfl, hlast⟩

end Atoms

section Compounds

variable {text rest : List Char} {pattern : Pattern} {others : List Pattern} {connective : Connective}

theorem readsCounted {before digits after : List Char} {count : Nat} (hbefore : Spaces before)
    (hcount : Multiplicity digits count) (hatom : Atom text pattern) (hread : ReadsAtom text pattern)
    (hafter : Spaces after) :
    ReadsCounted (before ++ (digits ++ (text ++ after))) (.repeated count pattern) := by
  intro cursor tail hrest
  rw [List.append_assoc, hbefore.dropWhile, List.append_assoc, List.append_assoc] at hrest
  obtain ⟨opening, more, hopening⟩ := hatom.dropWhile
  have hskip : (cursor.skip isSpace).rest = _ := (cursor.rest_skip isSpace).trans hrest
  obtain ⟨rest, hrest, hdigits⟩ := readCount_multiplicity hcount (hopening _) hskip
  rw [readPattern]
  apply hdigits.bind
  intro next shorter hnext
  dsimp only
  apply (hread next _ (hnext ▸ hrest)).bind
  intro last shorter' hlast
  refine .reads ⟨_, rfl, rfl, ?_⟩
  change (last.skip isSpace).rest = _
  rw [rest_skip, hlast, hafter.dropWhile]

theorem readsCompound_single (h : Counted text pattern) (hread : ReadsCounted text pattern) :
    ReadsCompound text pattern := by
  intro cursor tail hrest hend
  obtain ⟨c, more, rfl, hc⟩ := h.exists_eq_cons
  rw [readCompound, if_neg (not_atCompoundEnd hrest (ne_of_begins hc (.inl rfl)))]
  apply (hread cursor tail (congrArg _ hrest)).bind
  intro first shorter hfirst
  dsimp only
  rw [if_pos (hend.atCompoundEnd hfirst)]
  exact .reads ⟨_, rfl, rfl, hfirst⟩

theorem readsCompound_joined (h : Counted text pattern) (hread : ReadsCounted text pattern)
    (hothers : Operands connective rest others) (hreadOthers : ReadsOperands rest others connective)
    (hne : others ≠ []) : ReadsCompound (text ++ rest) (connective.join (pattern :: others)) := by
  intro cursor tail hrest hend
  rw [List.append_assoc] at hrest
  obtain ⟨c, more, rfl, hc⟩ := h.exists_eq_cons
  obtain ⟨operands, hoperands⟩ := hothers.dropWhile hne
  rw [readCompound, if_neg (not_atCompoundEnd hrest (ne_of_begins hc (.inl rfl)))]
  apply (hread cursor _ (congrArg _ hrest)).bind
  intro next shorter hnext
  dsimp only
  have hsymbol := hnext.trans (hoperands tail)
  have hcurrent : next.current.bind Connective.ofSymbol? = some connective := by
    rw [current, hsymbol, List.head?_cons]
    exact connective.ofSymbol?_symbol
  rw [if_neg (not_atCompoundEnd hsymbol connective.symbol_ne_closing)]
  split
  · next hnone => rw [hcurrent] at hnone; cases hnone
  · next found hfound =>
    obtain rfl : connective = found := Option.some.inj (hcurrent.symm.trans hfound)
    apply (hreadOthers next tail hnext hend).bind
    intro last shorter' hlast
    exact .reads ⟨_, rfl, rfl, hlast⟩

theorem readsOperands_nil : ReadsOperands [] [] connective := by
  intro cursor tail hrest hend
  rw [readOperands, if_pos (hend.atCompoundEnd hrest)]
  exact .reads ⟨_, rfl, rfl, hrest⟩

theorem readsOperands_cons {joint : List Char} (hjoint : Joint connective joint)
    (h : Counted text pattern) (hread : ReadsCounted text pattern)
    (hreadOthers : ReadsOperands rest others connective) :
    ReadsOperands (joint ++ (text ++ rest)) (pattern :: others) connective := by
  intro cursor tail hrest hend
  rw [List.append_assoc, List.append_assoc] at hrest
  obtain ⟨more, hmore⟩ := hjoint.dropWhile
  obtain ⟨c, letters, rfl, hc⟩ := h.exists_eq_cons
  have hsymbol := hrest.trans (hmore _)
  have hother : (c :: letters ++ (rest ++ tail)).head? ≠ some connective.symbol := fun hhead =>
    ne_of_begins hc (.inr ⟨connective, rfl⟩) (Option.some.inj hhead)
  have hstart := (congrArg (List.dropWhile isSpace) hrest).trans (List.dropWhile_idempotent _ _)
  rw [readOperands, if_neg (not_atCompoundEnd hsymbol connective.symbol_ne_closing)]
  apply (expectConnective_joint hjoint hstart hother).bind
  intro start shorter hstart
  dsimp only
  apply (hread start _ (congrArg _ hstart)).bind
  intro first shorter' hfirst
  dsimp only
  apply (hreadOthers first tail hfirst hend).bind
  intro last shorter'' hlast
  exact .reads ⟨_, rfl, rfl, hlast⟩

end Compounds

section Functions

variable {word row text rest : List Char} {pattern : Pattern} {children others : List Pattern}

theorem readsRow {opening closing : List Char} (hopening : Mark '(' opening)
    (hitems : ReadsItems text children) (hclosing : Mark ')' closing) :
    ReadsRow (opening ++ (text ++ closing)) children := by
  intro cursor tail hrest
  rw [List.append_assoc, hopening.dropWhile rfl, List.append_assoc] at hrest
  rw [readRow]
  apply (expect_reads _ hrest).bind
  intro opened shorter hopened
  dsimp only
  apply (hitems opened _ tail (congrArg _ hopened) (hclosing.dropWhile rfl tail)).bind
  intro last shorter' hlast
  exact .reads ⟨_, rfl, rfl, hlast⟩

theorem readsItems_nil : ReadsItems [] [] := by
  intro cursor tail rest hrest hend
  exact .reads (readItems_reads_nil (hrest.trans hend))

/-- Where a pattern begins, a row does not end. -/
theorem not_row_end {cursor : Cursor} {c : Char} {more : List Char} (hbegins : Begins c)
    (hrest : cursor.rest.dropWhile isSpace = c :: more) :
    ¬(cursor.consume ')' isSpace).1 = true ∧ ¬(cursor.skip isSpace).atEnd = true := by
  have hconsume : cursor.consume ')' isSpace = (false, cursor.skip isSpace) := by
    apply consume_other
    rw [hrest, List.head?_cons]
    exact fun hhead => ne_of_begins (.inr hbegins) (.inl rfl) (Option.some.inj hhead)
  rw [hconsume, atEnd, rest_skip, hrest]
  exact ⟨Bool.false_ne_true, Bool.false_ne_true⟩

theorem readsItems_cons (h : Counted text pattern) (hread : ReadsCounted text pattern)
    (hreadOthers : ReadsItems rest others) : ReadsItems (text ++ rest) (pattern :: others) := by
  intro cursor tail behind hrest hend
  rw [List.append_assoc] at hrest
  obtain ⟨c, more, hbegins, hmore⟩ := h.dropWhile
  obtain ⟨hfound, hend'⟩ := not_row_end hbegins (hrest.trans (hmore _))
  have hstart : (cursor.skip isSpace).rest.dropWhile isSpace =
      (text ++ (rest ++ tail)).dropWhile isSpace := by
    rw [rest_skip, hrest, List.dropWhile_idempotent]
  rw [readItems, dif_neg hfound, if_neg hend']
  apply (hread _ _ hstart).bind
  intro first shorter hfirst
  dsimp only
  have hnext := (congrArg (List.dropWhile isSpace) hfirst).trans (List.dropWhile_idempotent _ _)
  apply (hreadOthers first tail behind hnext hend).bind
  intro last shorter' hlast
  exact .reads ⟨_, rfl, rfl, hlast⟩

/-- What the cursor stands at after the name of a function. -/
theorem readCombinator_row {name : String} {combinator : Combinator} {cursor : Cursor}
    {tail : List Char} (hword : Word name word) (hne : name.isEmpty = false)
    (hname : Combinator.ofName? name = some combinator) (hrow : Row row children)
    (hrest : cursor.rest = word ++ row ++ tail) :
    ∃ next, next.dropWhile isSpace = (row ++ tail).dropWhile isSpace ∧
      Reads combinator next cursor.readCombinator := by
  obtain ⟨more, hmore⟩ := hrow.dropWhile
  rw [List.append_assoc] at hrest
  exact ⟨_, by rw [hmore]; rfl, readCombinator_reads hword hne hname hrest (hmore tail) rfl⟩

theorem readsFunction_any (hword : Word "any" word) (hrow : Row row children)
    (hread : ReadsRow row children) (hne : children ≠ []) :
    ReadsFunction (word ++ row) (.anyOf children) := by
  intro cursor tail hrest
  obtain ⟨next, hnext, hcombinator⟩ := readCombinator_row hword rfl rfl hrow hrest
  rw [readFunction]
  apply hcombinator.bind
  intro start shorter hstart
  dsimp only
  apply (hread start tail (hstart ▸ hnext)).bind
  intro last shorter' hlast
  dsimp only
  rw [if_neg (mt List.isEmpty_iff.mp hne)]
  exact .reads ⟨_, rfl, rfl, hlast⟩

theorem readsFunction_all (hword : Word "all" word) (hrow : Row row children)
    (hread : ReadsRow row children) (hne : children ≠ []) :
    ReadsFunction (word ++ row) (.allOf children) := by
  intro cursor tail hrest
  obtain ⟨next, hnext, hcombinator⟩ := readCombinator_row hword rfl rfl hrow hrest
  rw [readFunction]
  apply hcombinator.bind
  intro start shorter hstart
  dsimp only
  apply (hread start tail (hstart ▸ hnext)).bind
  intro last shorter' hlast
  dsimp only
  rw [if_neg (mt List.isEmpty_iff.mp hne)]
  exact .reads ⟨_, rfl, rfl, hlast⟩

theorem readsFunction_absent (hword : Word "not" word) (hrow : Row row [pattern])
    (hread : ReadsRow row [pattern]) : ReadsFunction (word ++ row) (.absent pattern) := by
  intro cursor tail hrest
  obtain ⟨next, hnext, hcombinator⟩ := readCombinator_row hword rfl rfl hrow hrest
  rw [readFunction]
  apply hcombinator.bind
  intro start shorter hstart
  dsimp only
  apply (hread start tail (hstart ▸ hnext)).bind
  intro last shorter' hlast
  exact .reads ⟨_, rfl, rfl, hlast⟩

/-- Behind the word and the count of a threshold, it depends on the row. -/
theorem readFunction_threshold {argument : List Char} {count : Nat} {cursor : Cursor}
    (hword : Word "xof" word ∨ Word "atleast" word) (hargument : Argument argument count)
    (hrest : cursor.rest = word ++ (argument ++ rest)) :
    ∃ (start : Cursor) (hle : start.rest.length ≤ cursor.rest.length), start.rest = rest ∧
      readFunction cursor = readRow start >>= fun row =>
        match Pattern.atLeast count row.value with
        | .error fault => .error (.fault fault)
        | .ok none => row.next.refuse .argumentTooLarge
        | .ok (some pattern) => .ok ⟨pattern, row.next, Nat.lt_of_lt_of_le row.shorter hle⟩ := by
  obtain ⟨more, hmore⟩ := hargument.dropWhile
  have hcombinator : Reads .atLeast ('(' :: (more ++ rest)) cursor.readCombinator := by
    rcases hword with hword | hword
    · exact readCombinator_reads hword rfl rfl hrest (hmore _) rfl
    · exact readCombinator_reads hword rfl rfl hrest (hmore _) rfl
  obtain ⟨⟨_, start, hstart⟩, hcombinator, rfl, hnext⟩ := hcombinator
  have hthreshold : start.rest.dropWhile isSpace = (argument ++ rest).dropWhile isSpace := by
    rw [show start.rest = _ from hnext, hmore]
    rfl
  obtain ⟨⟨_, behind, hbehind⟩, hthreshold, rfl, hnext'⟩ := readThreshold_reads hargument hthreshold
  refine ⟨behind, (Nat.lt_of_lt_of_le hbehind (Nat.le_of_lt_succ hstart)).le, hnext', ?_⟩
  rw [readFunction, hcombinator]
  dsimp only [bind, Except.bind]
  rw [hthreshold]
  rfl

theorem readsFunction_threshold {argument : List Char} {count : Nat}
    (hword : Word "xof" word ∨ Word "atleast" word) (hargument : Argument argument count)
    (hread : ReadsRow row children) (hle : count ≤ children.length) :
    ReadsFunction (word ++ (argument ++ row)) (.threshold count children) := by
  intro cursor tail hrest
  rw [List.append_assoc, List.append_assoc] at hrest
  obtain ⟨start, _, hstart, hfunction⟩ := readFunction_threshold hword hargument hrest
  rw [hfunction]
  apply (hread start tail (congrArg _ hstart)).bind
  intro last shorter hlast
  dsimp only
  rcases Pattern.atLeast_of_le hle with hpattern | ⟨fault, -, hfault⟩
  · rw [hpattern]
    exact .reads ⟨_, rfl, rfl, hlast⟩
  · rw [hfault]
    exact .fault

end Functions

/-! ### All derivations -/

-- The recursion is on the derivation; what its last rule adds is read by the lemma for this rule.
mutual

theorem Grammar.Atom.reads : ∀ {text pattern}, Atom text pattern → ReadsAtom text pattern
  | _, _, .card hopening hname hclosing => readsAtom_card hopening hname hclosing
  | _, _, .named hopening hname hclosing => readsAtom_named hopening hname hclosing
  | _, _, .group hopening hcompound hclosing => readsAtom_group hopening hcompound.reads hclosing
  | _, _, .function hopening hfunction => readsAtom_function hopening hfunction.reads

theorem Grammar.Counted.reads : ∀ {text pattern}, Counted text pattern → ReadsCounted text pattern
  | _, _, .mk hbefore hcount hatom hafter => readsCounted hbefore hcount hatom hatom.reads hafter

theorem Grammar.Compound.reads : ∀ {text pattern}, Compound text pattern → ReadsCompound text pattern
  | _, _, .single h => readsCompound_single h h.reads
  | _, _, .joined hfirst hothers hne =>
    readsCompound_joined hfirst hfirst.reads hothers hothers.reads hne

theorem Grammar.Operands.reads : ∀ {connective text others}, Operands connective text others →
    ReadsOperands text others connective
  | _, _, _, .nil => readsOperands_nil
  | _, _, _, .cons hjoint hpattern hothers =>
    readsOperands_cons hjoint hpattern hpattern.reads hothers.reads

theorem Grammar.Function.reads : ∀ {text pattern}, Function text pattern → ReadsFunction text pattern
  | _, _, .any hword hrow hne => readsFunction_any hword hrow hrow.reads hne
  | _, _, .all hword hrow hne => readsFunction_all hword hrow hrow.reads hne
  | _, _, .threshold hword hargument hrow hle =>
    readsFunction_threshold hword hargument hrow.reads hle
  | _, _, .absent hword hrow => readsFunction_absent hword hrow hrow.reads

theorem Grammar.Row.reads : ∀ {text children}, Row text children → ReadsRow text children
  | _, _, .mk hopening hitems hclosing => readsRow hopening hitems.reads hclosing

theorem Grammar.Items.reads : ∀ {text children}, Items text children → ReadsItems text children
  | _, _, .nil => readsItems_nil
  | _, _, .cons hpattern hothers => readsItems_cons hpattern hpattern.reads hothers.reads

end

/-! ### Lines -/

theorem Cursor.closeCriterion_eq_ok_of_mark {cursor : Cursor} {second rest : List Char}
    {isCriterion : Bool} (hsecond : if isCriterion then Mark '>' second else second = [])
    (hrest : cursor.rest = second ++ rest) :
    ∃ closed, cursor.closeCriterion isCriterion = .ok closed ∧ closed.rest = rest := by
  cases isCriterion with
  | true =>
    have hdrop : cursor.rest.dropWhile isSpace = '>' :: rest := by
      rw [hrest, Mark.dropWhile hsecond rfl]
    obtain ⟨closed, hclosed, -, hnext⟩ := expect_reads .criterionClosing hdrop
    refine ⟨closed.next, ?_, hnext⟩
    rw [closeCriterion, if_pos rfl, hclosed]
    rfl
  | false =>
    obtain rfl : second = [] := hsecond
    exact ⟨cursor, rfl, hrest⟩

theorem Grammar.Heading.exists_eq {isCriterion : Bool} {heading name : List Char}
    (h : Heading isCriterion heading name) : ∃ opening closing second, Mark '<' opening ∧ Name name ∧
      Mark '>' closing ∧ (if isCriterion then Mark '>' second else second = []) ∧
      heading = opening ++ ((if isCriterion then ['<'] else []) ++ (name ++ (closing ++ second))) := by
  cases h with
  | @plain opening _ closing hopening hname hclosing =>
    exact ⟨opening, closing, [], hopening, hname, hclosing, rfl, by rw [List.append_nil]; rfl⟩
  | @criterion opening _ closing second hopening hname hclosing hsecond =>
    exact ⟨opening, closing, second, hopening, hname, hclosing, hsecond, rfl⟩

/-- A name is followed by no second opening bracket. -/
theorem Grammar.Name.head?_ne {name : List Char} (h : Name name) (tail : List Char) :
    (name ++ tail).head? ≠ some '<' := by
  intro hhead
  cases name with
  | nil => exact h.visible rfl
  | cons c name =>
    cases hhead
    exact absurd (h.run '<' List.mem_cons_self) (by decide)

namespace Declaration

/-- Behind the heading and the colon, the rest of the line is read. -/
theorem read_of_heading {line heading name colon rest : List Char} {isCriterion : Bool}
    (hheading : Heading isCriterion heading name) (hcolon : Mark ':' colon)
    (hline : line = heading ++ (colon ++ rest)) :
    ∃ cursor : Cursor, cursor.rest = rest ∧ read line = readBody isCriterion name cursor := by
  obtain ⟨opening, closing, second, hopening, hname, hclosing, hsecond, rfl⟩ := hheading.exists_eq
  have hstart : (Cursor.ofText line).rest.dropWhile isSpace =
      '<' :: ((if isCriterion then ['<'] else []) ++
        (name ++ (closing ++ (second ++ (colon ++ rest))))) := by
    rw [rest_ofText, hline, List.append_assoc, hopening.dropWhile rfl]
    simp only [List.append_assoc]
  obtain ⟨opened, hopened, -, hstart⟩ := expect_reads .nameOpening hstart
  obtain ⟨start, hconsume, hstart⟩ := consume_optional isCriterion (hname.head?_ne _) hstart
  obtain ⟨-, htrim, hword⟩ := readName_run hstart hname.run (hclosing.dropWhile rfl _) rfl
  obtain ⟨named, hnamed, -, hrest⟩ := expect_reads_next .nameClosing hword rfl
  obtain ⟨closed, hclosed, hrest⟩ := closeCriterion_eq_ok_of_mark hsecond hrest
  have hmark : closed.rest.dropWhile isSpace = ':' :: rest := by
    rw [hrest, hcolon.dropWhile rfl]
  obtain ⟨behind, hbehind, -, hrest⟩ := expect_reads .colon hmark
  have hvisible : (String.ofList (Text.trim name)).isEmpty = false := by
    apply Bool.eq_false_iff.mpr
    intro hempty
    exact hname.visible (by simpa using hempty)
  refine ⟨behind.next, hrest, ?_⟩
  rw [read, hopened]
  dsimp only [bind, Except.bind]
  rw [hconsume]
  dsimp only
  rw [htrim, hvisible, if_neg Bool.false_ne_true, hnamed]
  dsimp only
  rw [hclosed]
  dsimp only
  rw [hbehind]
  rfl

/-- A line that derives a declaration is read, unless there are too many selections from a row. -/
theorem read_of_line {line : List Char} {declaration : Declaration} (h : Line line declaration) :
    read line = .ok declaration ∨ ∃ fault, read line = .error (.fault fault) := by
  cases h with
  | @mk isCriterion heading name colon text after pattern hheading hcolon hcompound hafter =>
    obtain ⟨cursor, hrest, hread⟩ := read_of_heading hheading hcolon rfl
    have hblank : after.dropWhile isSpace = [] := List.dropWhile_eq_nil_iff.mpr hafter
    rw [hread, readBody]
    rcases (hcompound.reads cursor after hrest (.inl hblank)).reads_or_fault with
      ⟨compound, hok, hvalue, hnext⟩ | ⟨fault, hfault⟩
    · have hend : (compound.next.skip isSpace).atEnd = true := by
        rw [atEnd, rest_skip, hnext, hblank]
        rfl
      refine .inl ?_
      rw [hok]
      dsimp only [bind, Except.bind]
      rw [if_pos hend, hvalue]
      rfl
    · exact .inr ⟨fault, by rw [hfault]; rfl⟩

/-- If nothing in the line overflows while it is read, it is read exactly if it derives a declaration, and
then it derives no other one; any other line is malformed. What may overflow is the number of selections
from a row in the line, or the room for them. -/
theorem read_iff_line (line : List Char) :
    (∀ fault, read line = .error (.fault fault) →
      (fault = .productOverflow ∨ fault = .capacityOverflow) ∧ Overflows line fault) ∧
    ((∀ fault, read line ≠ .error (.fault fault)) →
      (∀ declaration, read line = .ok declaration ↔ Line line declaration) ∧
      (∀ declaration other, Line line declaration → Line line other → declaration = other) ∧
      ((∀ declaration, ¬Line line declaration) →
        ∃ diagnostic, read line = .error (.malformed diagnostic))) := by
  refine ⟨fun fault hfault => ?_, fun hfits => ?_⟩
  · exact ⟨(overflows_of_read hfault).eq_or_eq, overflows_of_read hfault⟩
  · have hcomplete : ∀ declaration, Line line declaration → read line = .ok declaration := by
      intro declaration hline
      rcases read_of_line hline with hread | ⟨fault, hfault⟩
      · exact hread
      · exact absurd hfault (hfits fault)
    refine ⟨fun declaration => ⟨line_of_read, hcomplete declaration⟩, ?_, fun hnone => ?_⟩
    · intro declaration other hline hother
      exact Except.ok.inj ((hcomplete declaration hline).symm.trans (hcomplete other hother))
    · match hread : read line with
      | .ok declaration => exact absurd (line_of_read hread) (hnone declaration)
      | .error (.malformed diagnostic) => exact ⟨diagnostic, rfl⟩
      | .error (.fault fault) => exact absurd hread (hfits fault)

/-- A function that asks for 31 patterns of a row with 62 of them, in a line with nothing to spare. -/
def narrowLine : List Char :=
  "<a>:@xof(31)(".toList ++ (List.replicate 62 "[x]".toList).flatten ++ [')']

set_option maxRecDepth 8000 in
theorem read_narrowLine : read narrowLine = .error (.fault .capacityOverflow) := by cbv

theorem items_replicate_card (count : ℕ) :
    Items (List.replicate count "[x]".toList).flatten (.replicate count (.card "x")) := by
  induction count with
  | zero => exact .nil
  | succ count ih =>
    have hname : Name "x".toList := ⟨run_of_any_eq_false (by decide), by decide⟩
    have hatom : Atom "[x]".toList (.card "x") := .card (mark_singleton '[') hname (mark_singleton ']')
    rw [List.replicate_succ, List.flatten_cons, List.replicate_succ]
    exact .cons hatom.counted ih

theorem line_narrowLine :
    Line narrowLine ⟨"a", false, .threshold 31 (.replicate 62 (.card "x"))⟩ := by
  have hname : Name "a".toList := ⟨run_of_any_eq_false (by decide), by decide⟩
  have htrim : String.ofList (Text.trim "a".toList) = "a" := by decide
  have hword : Word "xof" "xof".toList := ⟨run_of_any_eq_false (by decide), by decide⟩
  have hdigits : Digits (Text.trim "31".toList) 31 := digits_iff.mpr (by decide)
  have hargument := Argument.mk (mark_singleton '(') (run_of_any_eq_false (by decide))
    (.unsigned hdigits) (mark_singleton ')')
  have hrow := (items_replicate_card 62).row
  have hlength : 31 ≤ (List.replicate 62 (Pattern.card "x")).length := by simp
  -- The parts of the line are put together in another way, whatever the text of the row.
  unfold narrowLine
  generalize (List.replicate 62 "[x]".toList).flatten = row at hrow ⊢
  have hfunction := Function.threshold (.inl hword) hargument hrow hlength
  generalize Pattern.threshold 31 (.replicate 62 (.card "x")) = pattern at hfunction ⊢
  have hcompound := Compound.single (Atom.function (mark_singleton '@') hfunction).counted
  have hline := Line.mk (.plain (mark_singleton '<') hname (mark_singleton '>')) (mark_singleton ':')
    hcompound (List.forall_mem_nil _)
  rw [htrim, List.append_nil] at hline
  exact hline

/-- A line may derive a declaration and still not be read, although the number of selections is counted
without an overflow: there is no room for so many of them. -/
theorem line_without_room : (∃ declaration, Line narrowLine declaration) ∧
    Selection.count 62 31 = .ok 465428353255261088 ∧
    read narrowLine = .error (.fault .capacityOverflow) :=
  ⟨⟨_, line_narrowLine⟩, rfl, read_narrowLine⟩

def nestedLine : List Char :=
  "<<a >\t>: 2[ X ] && (<b>|@xof( +2 )([y][z]\t[w]))".toList

def nestedDeclaration : Declaration :=
  ⟨"a", true, .all [.times 2 (.card "x"), .any [.named "b", .any [.all [.card "y", .card "z"],
    .all [.card "y", .card "w"], .all [.card "z", .card "w"]]]]⟩

set_option maxRecDepth 4000 in
theorem read_nestedLine : read nestedLine = .ok nestedDeclaration := by cbv

def mixedLine : List Char :=
  "<a>: [x] & [y] | [z]".toList

theorem read_mixedLine :
    read mixedLine = .error (.malformed ⟨.sameConnective '&', 0, 15, mixedLine⟩) := by cbv

/-- A line with all kinds of patterns derives its declaration and no other one; a line with two
connectives side by side derives none. -/
theorem read_iff_line_nested :
    (∀ declaration, Line nestedLine declaration ↔ declaration = nestedDeclaration) ∧
      ∀ declaration, ¬Line mixedLine declaration := by
  have hnested : ∀ fault, read nestedLine ≠ .error (.fault fault) := by
    intro fault hfault
    rw [read_nestedLine] at hfault
    cases hfault
  have hmixed : ∀ fault, read mixedLine ≠ .error (.fault fault) := by
    intro fault hfault
    rw [read_mixedLine] at hfault
    cases hfault
  obtain ⟨hiff, hunique, -⟩ := (read_iff_line nestedLine).2 hnested
  have hline : Line nestedLine nestedDeclaration := (hiff _).mp read_nestedLine
  constructor
  · intro declaration
    exact ⟨fun h => hunique _ _ h hline, fun h => h ▸ hline⟩
  · intro declaration h
    have hread := (((read_iff_line mixedLine).2 hmixed).1 declaration).mpr h
    rw [read_mixedLine] at hread
    cases hread

end Declaration

end OpeningHand
