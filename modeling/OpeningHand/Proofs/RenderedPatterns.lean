import OpeningHand.Proofs.LeafReaders
import OpeningHand.Proofs.RegularReading

/-!
# Reading a rendered pattern back

The written form of a regular pattern is read as the pattern again, unless a node in it has no written
form of its own: nothing is written for the pattern that always holds, and two counts in a row are not
read. Reading follows the tree up to the first such node and is refused there.
-/

namespace OpeningHand

/-- The value is read exactly if it is legible; otherwise the text is refused. -/
structure Rereads {bound : Nat} {α : Type} (legible : Prop) (value : α) (rest : List Char)
    (outcome : Except ReadFailure (Ahead bound α)) : Prop where
  reads : legible → Reads value rest outcome
  refuses : ¬legible → Refuses outcome

namespace Rereads

variable {bound limit : Nat} {α β : Type} {legible other : Prop} {value : α} {result : β}
  {rest tail : List Char} {first : Except ReadFailure (Ahead bound α)}
  {onward : Ahead bound α → Except ReadFailure (Ahead limit β)}

theorem of_reads (h : Reads value rest first) (hlegible : legible) : Rereads legible value rest first :=
  ⟨fun _ => h, fun hnot => absurd hlegible hnot⟩

theorem of_refuses (h : Refuses first) (hnot : ¬legible) : Rereads legible value rest first :=
  ⟨fun hlegible => absurd hlegible hnot, fun _ => h⟩

theorem congr (h : Rereads legible value rest first) (hiff : legible ↔ other) :
    Rereads other value rest first :=
  ⟨fun hother => h.reads (hiff.mpr hother),
    fun hnot => h.refuses fun hlegible => hnot (hiff.mp hlegible)⟩

/-- Both parts of what is read have to be legible. -/
theorem bind (h : Rereads legible value rest first)
    (hnext : ∀ next shorter, next.rest = rest →
      Rereads other result tail (onward ⟨value, next, shorter⟩)) :
    Rereads (legible ∧ other) result tail (first >>= onward) := by
  constructor
  · rintro ⟨hlegible, hother⟩
    apply (h.reads hlegible).bind
    exact fun next shorter hrest => (hnext next shorter hrest).reads hother
  · intro hnot
    by_cases hlegible : legible
    · apply (h.reads hlegible).bind
      exact fun next shorter hrest => (hnext next shorter hrest).refuses fun hother =>
        hnot ⟨hlegible, hother⟩
    · exact (h.refuses hlegible).bind

/-- Nothing that follows is refused. -/
theorem bind_reads (h : Rereads legible value rest first)
    (hnext : ∀ next shorter, next.rest = rest → Reads result tail (onward ⟨value, next, shorter⟩)) :
    Rereads legible result tail (first >>= onward) := by
  constructor
  · intro hlegible
    exact (h.reads hlegible).bind hnext
  · intro hnot
    exact (h.refuses hnot).bind

end Rereads

namespace Pattern

def isTimes : Pattern → Bool
  | times _ _ => true
  | _ => false

/-- The node has a written form that is read. -/
def LegibleNode : Pattern → Prop
  | always => False
  | times _ child => child.isTimes = false
  | _ => True

abbrev Legible (pattern : Pattern) : Prop :=
  pattern.Everywhere LegibleNode

/-- What is legible in so many words. -/
theorem legible_iff {pattern : Pattern} : pattern.Legible ↔ always ∉ pattern.nodes ∧
    ∀ count inner child, times count (times inner child) ∉ pattern.nodes := by
  constructor
  · intro h
    refine ⟨fun hmem => h always hmem, fun count inner child hmem => ?_⟩
    have hnode : true = false := h _ hmem
    cases hnode
  · rintro ⟨halways, htimes⟩ node hnode
    match node with
    | always => exact absurd hnode halways
    | times count (times inner child) => exact absurd hnode (htimes count inner child)
    | times _ always | times _ (card _) | times _ (named _) | times _ (all _) | times _ (any _)
    | times _ (absent _) => rfl
    | card _ | named _ | all _ | any _ | absent _ => trivial

theorem legible_times {count : Nat} {child : Pattern} :
    (times count child).Legible ↔ child.Legible ∧ child.isTimes = false := by
  rw [Legible, everywhere_times]
  exact and_comm

end Pattern

/-! ### How a written form begins -/

theorem isSpace_of_isDigit {c : Char} (h : c.isDigit = true) : isSpace c = false := by
  apply Bool.eq_false_iff.mpr
  intro hspace
  simp only [isSpace, Bool.or_eq_true, beq_iff_eq] at hspace
  rcases hspace with rfl | rfl <;> cases h

theorem Opening.ofSymbol?_of_isDigit {c : Char} (h : c.isDigit = true) : Opening.ofSymbol? c = none := by
  unfold ofSymbol?
  split
  · cases h
  · cases h
  · cases h
  · cases h
  · rfl

namespace Pattern

theorem render_card (name : Card) : (card name).render = '[' :: name.toList ++ [']'] := rfl

theorem render_named (name : String) : (named name).render = '<' :: name.toList ++ ['>'] := rfl

theorem render_times (count : Nat) (child : Pattern) :
    (times count child).render = Text.numeral count ++ ' ' :: child.render := rfl

theorem render_absent (child : Pattern) :
    (absent child).render = '@' :: ("not".toList ++ '(' :: child.render ++ [')']) := rfl

/-- A written form begins with a visible character, and with a digit just for a repetition. -/
theorem exists_render_eq_cons (pattern : Pattern) : ∃ c rest, pattern.render = c :: rest ∧
    isSpace c = false ∧ c ≠ ')' ∧ c.isDigit = pattern.isTimes := by
  cases pattern with
  | always => exact ⟨'$', "noop".toList, rfl, by decide, by decide, rfl⟩
  | card name => exact ⟨'[', _, rfl, by decide, by decide, rfl⟩
  | named name => exact ⟨'<', _, rfl, by decide, by decide, rfl⟩
  | all children => exact ⟨'(', _, rfl, by decide, by decide, rfl⟩
  | any children => exact ⟨'(', _, rfl, by decide, by decide, rfl⟩
  | times count child =>
    obtain ⟨digit, digits, hdigits⟩ := List.exists_cons_of_ne_nil (Text.numeral_ne_nil count)
    have hdigit : digit.isDigit = true :=
      Text.isDigit_of_mem_numeral (hdigits ▸ List.mem_cons_self)
    refine ⟨digit, digits ++ ' ' :: child.render, ?_, isSpace_of_isDigit hdigit, ?_, hdigit⟩
    · rw [render_times, hdigits, List.cons_append]
    · rintro rfl
      cases hdigit
  | absent child => exact ⟨'@', _, rfl, by decide, by decide, rfl⟩

theorem dropWhile_render (pattern : Pattern) (tail : List Char) :
    (pattern.render ++ tail).dropWhile isSpace = pattern.render ++ tail := by
  obtain ⟨c, rest, hrender, hspace, -, -⟩ := pattern.exists_render_eq_cons
  rw [hrender, List.cons_append, dropWhile_cons_of_not hspace]

end Pattern

open Pattern Cursor

/-- Where the written form of the pattern begins, it is read without a count, unless it has one. -/
def RereadsAtom (pattern : Pattern) : Prop :=
  ∀ (cursor : Cursor) (tail : List Char), cursor.rest.dropWhile isSpace = pattern.render ++ tail →
    Rereads (pattern.Legible ∧ pattern.isTimes = false) pattern tail (readAtom cursor)

def RereadsPattern (pattern : Pattern) : Prop :=
  ∀ (cursor : Cursor) (tail : List Char), cursor.rest.dropWhile isSpace = pattern.render ++ tail →
    Rereads pattern.Legible pattern (tail.dropWhile isSpace) (readPattern cursor)

variable {pattern child : Pattern} {count : Nat}

/-! ### Counts -/

/-- What begins with no opening is refused. -/
theorem readAtom_refuses {cursor : Cursor} {c : Char} {rest : List Char}
    (h : cursor.rest.dropWhile isSpace = c :: rest) (hc : Opening.ofSymbol? c = none) :
    Refuses (readAtom cursor) := by
  rw [readAtom]
  exact (readOpening_refuses h hc).bind

theorem rereadsAtom_always : RereadsAtom always := by
  intro cursor tail hrest
  have hdollar : cursor.rest.dropWhile isSpace = '$' :: ("noop".toList ++ tail) := hrest
  apply Rereads.of_refuses (readAtom_refuses hdollar rfl)
  rintro ⟨hlegible, -⟩
  exact everywhere_always.mp hlegible

theorem rereadsAtom_times : RereadsAtom (times count child) := by
  intro cursor tail hrest
  -- A digit is no opening, and only a reader of counts gets past it.
  obtain ⟨c, rest, hrender, -, -, hdigit⟩ := (times count child).exists_render_eq_cons
  rw [hrender, List.cons_append] at hrest
  apply Rereads.of_refuses (readAtom_refuses hrest (Opening.ofSymbol?_of_isDigit hdigit))
  rintro ⟨-, htimes⟩
  cases htimes

theorem RereadsAtom.rereadsPattern (h : RereadsAtom pattern) (htimes : pattern.isTimes = false) :
    RereadsPattern pattern := by
  intro cursor tail hrest
  have hskip : (cursor.skip isSpace).rest = pattern.render ++ tail := by rw [rest_skip, hrest]
  obtain ⟨c, rest, hrender, -, -, hdigit⟩ := pattern.exists_render_eq_cons
  have hcount : Reads 1 (cursor.skip isSpace).rest (cursor.skip isSpace).readCount := by
    apply readCount_reads_one
    intro first hfirst
    rw [hskip, hrender] at hfirst
    cases hfirst
    rw [hdigit, htimes]
  rw [readPattern]
  apply hcount.bind
  intro next shorter hnext
  dsimp only
  have hatom : next.rest.dropWhile isSpace = pattern.render ++ tail := by
    rw [hnext, hskip, dropWhile_render]
  apply ((h next tail hatom).congr (and_iff_left htimes)).bind_reads
  intro last shorter' hlast
  refine ⟨_, rfl, rfl, ?_⟩
  change (last.skip isSpace).rest = _
  rw [rest_skip, hlast]

theorem RereadsAtom.rereadsPattern_times (h : RereadsAtom child) (htwo : 2 ≤ count)
    (hlimit : count < countLimit) : RereadsPattern (times count child) := by
  intro cursor tail hrest
  have hskip : (cursor.skip isSpace).rest = Text.numeral count ++ (' ' :: child.render ++ tail) := by
    rw [rest_skip, hrest, render_times, List.append_assoc]
  have hcount := readCount_reads hskip (Text.readNumeral?_numeral hlimit) (by rintro c ⟨⟩; rfl)
  rw [readPattern]
  apply hcount.bind
  intro next shorter hnext
  dsimp only
  have hatom : next.rest.dropWhile isSpace = child.render ++ tail := by
    rw [hnext]
    exact child.dropWhile_render tail
  apply ((h next tail hatom).congr legible_times.symm).bind_reads
  intro last shorter' hlast
  refine ⟨_, rfl, ?_, ?_⟩
  · change repeated count child = times count child
    match count with
    | count + 2 => rfl
  · change (last.skip isSpace).rest = _
    rw [rest_skip, hlast]

/-! ### Rows -/

namespace Connective

def node : Connective → List Pattern → Pattern
  | conjunction => all
  | disjunction => any

def separator (connective : Connective) : List Char :=
  [' ', connective.symbol, connective.symbol, ' ']

variable {children : List Pattern}

theorem join_of_two_le (connective : Connective) (h : 2 ≤ children.length) :
    connective.join children = connective.node children := by
  match connective, children with
  | conjunction, first :: second :: others => rfl
  | disjunction, first :: second :: others => rfl

theorem render_node (connective : Connective) (children : List Pattern) :
    (connective.node children).render = '(' :: renderRow connective.separator children ++ [')'] := by
  cases connective <;> rfl

theorem legible_node (connective : Connective) :
    (connective.node children).Legible ↔ ∀ child ∈ children, child.Legible := by
  cases connective with
  | conjunction =>
    refine everywhere_all.trans ?_
    exact and_iff_right trivial
  | disjunction =>
    refine everywhere_any.trans ?_
    exact and_iff_right trivial

theorem isTimes_node (connective : Connective) : (connective.node children).isTimes = false := by
  cases connective <;> rfl

theorem ofSymbol?_symbol (connective : Connective) :
    Connective.ofSymbol? connective.symbol = some connective := by
  cases connective <;> rfl

theorem symbol_ne_closing (connective : Connective) : connective.symbol ≠ ')' := by
  cases connective <;> decide

theorem isSpace_symbol (connective : Connective) : isSpace connective.symbol = false := by
  cases connective <;> decide

end Connective

theorem not_atCompoundEnd {cursor : Cursor} {c : Char} {rest : List Char}
    (h : cursor.rest = c :: rest) (hc : c ≠ ')') : ¬cursor.atCompoundEnd = true := by
  rw [atCompoundEnd, current, h, List.head?_cons]
  simpa using hc

/-- Behind the first pattern of a row, the others are read up to the end of the row. -/
theorem readOperands_rereads (connective : Connective) {children : List Pattern}
    (h : ∀ child ∈ children, RereadsPattern child) {cursor : Cursor} {tail : List Char}
    (hrest : cursor.rest =
      (renderRest connective.separator children ++ ')' :: tail).dropWhile isSpace) :
    Rereads (∀ child ∈ children, child.Legible) children (')' :: tail)
      (readOperands connective cursor) := by
  induction children generalizing cursor with
  | nil =>
    have hclosing : cursor.rest = ')' :: tail := hrest
    have hend : cursor.atCompoundEnd = true := by
      rw [atCompoundEnd, current, hclosing]
      rfl
    rw [readOperands, if_pos hend]
    exact .of_reads ⟨_, rfl, rfl, hclosing⟩ (List.forall_mem_nil _)
  | cons child children ih =>
    obtain ⟨hchild, hchildren⟩ := List.forall_mem_cons.mp h
    -- The space in front of the connective went with the pattern before it.
    have hsymbols : cursor.rest = connective.symbol :: connective.symbol :: ' ' ::
        (child.render ++ (renderRest connective.separator children ++ ')' :: tail)) := by
      rw [hrest, renderRest, List.append_assoc, List.append_assoc]
      exact dropWhile_cons_of_not connective.isSpace_symbol _
    have hconnective : cursor.rest.dropWhile isSpace = connective.symbol :: connective.symbol :: ' ' ::
        (child.render ++ (renderRest connective.separator children ++ ')' :: tail)) := by
      rw [hsymbols, dropWhile_cons_of_not connective.isSpace_symbol]
    rw [readOperands, if_neg (not_atCompoundEnd hsymbols connective.symbol_ne_closing)]
    apply (expectConnective_reads connective hconnective).bind
    intro start shorter hstart
    dsimp only
    have hpattern : start.rest.dropWhile isSpace =
        child.render ++ (renderRest connective.separator children ++ ')' :: tail) := by
      rw [hstart]
      exact child.dropWhile_render _
    apply ((hchild start _ hpattern).bind ?_).congr List.forall_mem_cons.symm
    intro next shorter' hnext
    dsimp only
    apply (ih hchildren hnext).bind_reads
    intro last shorter'' hlast
    exact ⟨_, rfl, rfl, hlast⟩

/-- Two or more patterns with a connective between them are read as its node. -/
theorem readCompound_rereads (connective : Connective) {children : List Pattern}
    (htwo : 2 ≤ children.length) (h : ∀ child ∈ children, RereadsPattern child) {cursor : Cursor}
    {tail : List Char}
    (hrest : cursor.rest = renderRow connective.separator children ++ ')' :: tail) :
    Rereads (∀ child ∈ children, child.Legible) (connective.node children) (')' :: tail)
      (readCompound cursor) := by
  match children with
  | first :: second :: others =>
    obtain ⟨hfirst, hothers⟩ := List.forall_mem_cons.mp h
    rw [renderRow, List.append_assoc] at hrest
    obtain ⟨c, rest, hrender, -, hclosing, -⟩ := first.exists_render_eq_cons
    have hcons : cursor.rest = c :: (rest ++ (renderRest connective.separator (second :: others) ++
        ')' :: tail)) := by
      rw [hrest, hrender, List.cons_append]
    have hpattern : cursor.rest.dropWhile isSpace =
        first.render ++ (renderRest connective.separator (second :: others) ++ ')' :: tail) := by
      rw [hrest, dropWhile_render]
    rw [readCompound, if_neg (not_atCompoundEnd hcons hclosing)]
    apply ((hfirst cursor _ hpattern).bind ?_).congr List.forall_mem_cons.symm
    intro next shorter hnext
    dsimp only
    have hsymbol : next.rest = connective.symbol :: (connective.symbol :: ' ' :: (second.render ++
        renderRest connective.separator others) ++ ')' :: tail) := by
      rw [hnext]
      exact dropWhile_cons_of_not connective.isSpace_symbol _
    have hcurrent : next.current.bind Connective.ofSymbol? = some connective := by
      rw [current, hsymbol, List.head?_cons]
      exact connective.ofSymbol?_symbol
    rw [if_neg (not_atCompoundEnd hsymbol connective.symbol_ne_closing)]
    split
    · next hnone => rw [hcurrent] at hnone; cases hnone
    · next found hfound =>
      obtain rfl : connective = found := Option.some.inj (hcurrent.symm.trans hfound)
      apply (readOperands_rereads connective hothers hnext).bind_reads
      intro last shorter' hlast
      exact ⟨_, rfl, connective.join_of_two_le htwo, hlast⟩

theorem rereadsAtom_node (connective : Connective) {children : List Pattern}
    (htwo : 2 ≤ children.length) (h : ∀ child ∈ children, RereadsPattern child) :
    RereadsAtom (connective.node children) := by
  intro cursor tail hrest
  have hopening : cursor.rest.dropWhile isSpace =
      '(' :: (renderRow connective.separator children ++ ')' :: tail) := by
    rw [hrest, connective.render_node, List.append_assoc]
    rfl
  have hlegible : (∀ child ∈ children, child.Legible) ↔
      (connective.node children).Legible ∧ (connective.node children).isTimes = false := by
    rw [connective.legible_node, and_iff_left connective.isTimes_node]
  rw [readAtom]
  apply (readOpening_reads hopening rfl).bind
  intro next shorter hnext
  dsimp only
  apply ((readCompound_rereads connective htwo h hnext).congr hlegible).bind_reads
  intro last shorter' hlast
  dsimp only
  apply (expect_reads_next _ hlast rfl).bind
  intro final shorter'' hfinal
  exact ⟨_, rfl, rfl, hfinal⟩

/-! ### Names and functions -/

theorem rereadsAtom_card {name : Card} (hname : Text.Nameable name.toList)
    (hlower : Card.ofName name.toList = name) : RereadsAtom (card name) := by
  intro cursor tail hrest
  have hopening : cursor.rest.dropWhile isSpace = '[' :: (name.toList ++ ']' :: tail) := by
    rw [hrest, render_card, List.append_assoc]
    rfl
  have hlegible : (card name).Legible ∧ (card name).isTimes = false :=
    ⟨everywhere_card.mpr trivial, rfl⟩
  refine .of_reads ?_ hlegible
  rw [readAtom]
  apply (readOpening_reads hopening rfl).bind
  intro next shorter hnext
  dsimp only
  apply (readClosed_reads _ _ hnext hname.trim_ne_nil hname.unbracketed rfl rfl).bind
  intro last shorter' hlast
  refine ⟨_, rfl, ?_, hlast⟩
  exact congrArg card hlower

theorem rereadsAtom_named {name : String} (hname : Text.Nameable name.toList) :
    RereadsAtom (named name) := by
  intro cursor tail hrest
  have hopening : cursor.rest.dropWhile isSpace = '<' :: (name.toList ++ '>' :: tail) := by
    rw [hrest, render_named, List.append_assoc]
    rfl
  have hlegible : (named name).Legible ∧ (named name).isTimes = false :=
    ⟨everywhere_named.mpr trivial, rfl⟩
  refine .of_reads ?_ hlegible
  rw [readAtom]
  apply (readOpening_reads hopening rfl).bind
  intro next shorter hnext
  dsimp only
  apply (readClosed_reads _ _ hnext hname.trim_ne_nil hname.unbracketed rfl rfl).bind
  intro last shorter' hlast
  refine ⟨_, rfl, ?_, hlast⟩
  change named (String.ofList (Text.trim name.toList)) = named name
  rw [hname.trimmed.trim_eq, String.ofList_toList]

theorem readItems_reads_nil {cursor : Cursor} {tail : List Char}
    (hrest : cursor.rest.dropWhile isSpace = ')' :: tail) : Reads [] tail (readItems cursor) := by
  obtain ⟨next, hconsume, hnext⟩ := consume_expected hrest
  have hfound : (cursor.consume ')' isSpace).1 = true := by rw [hconsume]
  rw [readItems, dif_pos hfound]
  refine ⟨_, rfl, rfl, ?_⟩
  change (cursor.consume ')' isSpace).2.rest = tail
  rw [hconsume, hnext]

/-- One pattern between parentheses is read as a row. -/
theorem readItems_rereads (h : RereadsPattern pattern) {cursor : Cursor} {tail : List Char}
    (hrest : cursor.rest = pattern.render ++ ')' :: tail) :
    Rereads pattern.Legible [pattern] tail (readItems cursor) := by
  obtain ⟨c, rest, hrender, hspace, hclosing, -⟩ := pattern.exists_render_eq_cons
  have hskip : (cursor.skip isSpace).rest = pattern.render ++ ')' :: tail := by
    rw [rest_skip, hrest, dropWhile_render]
  have hconsume : cursor.consume ')' isSpace = (false, cursor.skip isSpace) := by
    apply consume_other
    rw [← rest_skip, hskip, hrender, List.cons_append, List.head?_cons]
    exact fun heq => hclosing (Option.some.inj heq)
  have hfound : ¬(cursor.consume ')' isSpace).1 = true := by
    rw [hconsume]
    exact Bool.false_ne_true
  have hend : ¬(cursor.skip isSpace).atEnd = true := by
    rw [atEnd, hskip, hrender]
    exact Bool.false_ne_true
  have hpattern : (cursor.skip isSpace).rest.dropWhile isSpace = pattern.render ++ ')' :: tail := by
    rw [hskip, dropWhile_render]
  rw [readItems, dif_neg hfound, if_neg hend]
  apply (h (cursor.skip isSpace) _ hpattern).bind_reads
  intro next shorter hnext
  dsimp only
  have hnil : next.rest.dropWhile isSpace = ')' :: tail := by
    rw [hnext]
    rfl
  apply (readItems_reads_nil hnil).bind
  intro last shorter' hlast
  exact ⟨_, rfl, rfl, hlast⟩

theorem readRow_rereads (h : RereadsPattern pattern) {cursor : Cursor} {tail : List Char}
    (hrest : cursor.rest = '(' :: (pattern.render ++ ')' :: tail)) :
    Rereads pattern.Legible [pattern] tail (readRow cursor) := by
  rw [readRow]
  apply (expect_reads_next _ hrest rfl).bind
  intro next shorter hnext
  dsimp only
  apply (readItems_rereads h hnext).bind_reads
  intro last shorter' hlast
  exact ⟨_, rfl, rfl, hlast⟩

theorem readFunction_rereads_absent (h : RereadsPattern child) {cursor : Cursor} {tail : List Char}
    (hrest : cursor.rest = "not".toList ++ '(' :: (child.render ++ ')' :: tail)) :
    Rereads child.Legible (absent child) tail (readFunction cursor) := by
  rw [readFunction]
  apply (readCombinator_reads_absent hrest).bind
  intro next shorter hnext
  dsimp only
  apply (readRow_rereads h hnext).bind_reads
  intro last shorter' hlast
  exact ⟨_, rfl, rfl, hlast⟩

theorem rereadsAtom_absent (h : RereadsPattern child) : RereadsAtom (absent child) := by
  intro cursor tail hrest
  have hopening : cursor.rest.dropWhile isSpace =
      '@' :: ("not".toList ++ '(' :: (child.render ++ ')' :: tail)) := by
    rw [hrest, render_absent, List.cons_append, List.append_assoc, List.append_assoc]
    rfl
  have hlegible : child.Legible ↔ (absent child).Legible ∧ (absent child).isTimes = false := by
    refine Iff.trans ?_ (and_iff_left rfl).symm
    refine Iff.trans ?_ everywhere_absent.symm
    exact (and_iff_right trivial).symm
  rw [readAtom]
  apply (readOpening_reads hopening rfl).bind
  intro next shorter hnext
  dsimp only
  apply ((readFunction_rereads_absent h hnext).congr hlegible).bind_reads
  intro last shorter' hlast
  exact ⟨_, rfl, rfl, hlast⟩

/-! ### All patterns -/

theorem rereads_of_regular {pattern : Pattern} (h : pattern.Regular) :
    RereadsAtom pattern ∧ RereadsPattern pattern := by
  induction pattern with
  | always => exact ⟨rereadsAtom_always, rereadsAtom_always.rereadsPattern rfl⟩
  | card name =>
    obtain ⟨hname, hlower⟩ := everywhere_card.mp h
    have hatom := rereadsAtom_card hname hlower
    exact ⟨hatom, hatom.rereadsPattern rfl⟩
  | named name =>
    have hname : Text.Nameable name.toList := everywhere_named.mp h
    have hatom := rereadsAtom_named hname
    exact ⟨hatom, hatom.rereadsPattern rfl⟩
  | all children ih =>
    obtain ⟨htwo, hchildren⟩ := everywhere_all.mp h
    have hatom := rereadsAtom_node .conjunction htwo fun child hchild =>
      (ih child hchild (hchildren child hchild)).2
    exact ⟨hatom, hatom.rereadsPattern rfl⟩
  | any children ih =>
    obtain ⟨htwo, hchildren⟩ := everywhere_any.mp h
    have hatom := rereadsAtom_node .disjunction htwo fun child hchild =>
      (ih child hchild (hchildren child hchild)).2
    exact ⟨hatom, hatom.rereadsPattern rfl⟩
  | times count child ih =>
    obtain ⟨⟨htwo, hlimit⟩, hchild⟩ := everywhere_times.mp h
    exact ⟨rereadsAtom_times, (ih hchild).1.rereadsPattern_times htwo hlimit⟩
  | absent child ih =>
    obtain ⟨-, hchild⟩ := everywhere_absent.mp h
    have hatom := rereadsAtom_absent (ih hchild).2
    exact ⟨hatom, hatom.rereadsPattern rfl⟩

end OpeningHand
