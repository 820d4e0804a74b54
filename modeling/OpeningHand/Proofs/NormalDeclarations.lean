import Mathlib
import OpeningHand.Proofs.DeclarationCompleteness
import OpeningHand.Proofs.RebuiltPatterns

/-!
# The normal form of declarations

A declaration that is read is in normal form: its pattern has no node without effect, and its names are as they
have to be between brackets, down to the patterns that a threshold consists of. There is no more to say of what
can be read. Any declaration in normal form has a written form in which every part stands between brackets of
its own, and this is read as the declaration. The usual written form is shorter, but not always read.
-/

namespace OpeningHand

open Pattern Grammar

theorem Text.Nameable.name {text : List Char} (h : Text.Nameable text) : Name text :=
  ⟨h.unbracketed, h.trim_ne_nil⟩

/-! ### A written form for every regular pattern -/

namespace Pattern

def enclosed (count : ℕ) (text : List Char) : List Char :=
  ['('] ++ ((Text.numeral count ++ text) ++ [')'])

def applied (word : String) (row : List Char) : List Char :=
  ['@'] ++ (word.toList ++ (['('] ++ (row ++ [')'])))

mutual

/-- A written form in which every part has brackets of its own. For the pattern that always holds, a card is
asked for zero times. -/
def bracketed : Pattern → List Char
  | always => enclosed 0 "[x]".toList
  | card name => ['['] ++ (name.toList ++ [']'])
  | named name => ['<'] ++ (name.toList ++ ['>'])
  | all children => applied "all" (bracketedRow children)
  | any children => applied "any" (bracketedRow children)
  | times count child => enclosed count (bracketed child)
  | absent child => applied "not" (bracketed child)

def bracketedRow : List Pattern → List Char
  | [] => []
  | child :: children => bracketed child ++ bracketedRow children

end

variable {children : List Pattern} {pattern : Pattern} {count : ℕ}

theorem allOf_of_two_le (h : 2 ≤ children.length) : allOf children = all children :=
  Connective.join_of_two_le .conjunction h

theorem anyOf_of_two_le (h : 2 ≤ children.length) : anyOf children = any children :=
  Connective.join_of_two_le .disjunction h

theorem repeated_of_two_le (h : 2 ≤ count) : repeated count pattern = times count pattern := by
  match count with
  | _ + 2 => rfl

theorem RegularNode.compactNode {node : Pattern} (h : node.RegularNode) : node.CompactNode := by
  match node with
  | all _ | any _ => exact h
  | times _ _ => exact h.1
  | always | card _ | named _ | absent _ => trivial

theorem Regular.compact (h : pattern.Regular) : pattern.Compact :=
  fun node hnode => (h node hnode).compactNode

end Pattern

namespace Grammar

variable {text more : List Char} {count : ℕ} {pattern : Pattern} {children : List Pattern}

theorem Atom.enclosed (h : Atom text pattern) (hlimit : count < countLimit) :
    Atom (enclosed count text) (repeated count pattern) := by
  have hdigits : Digits (Text.numeral count) count := digits_iff.mpr (Text.readNumeral?_numeral hlimit)
  have hcounted := Counted.mk (List.forall_mem_nil _) (.digits hdigits) h (List.forall_mem_nil _)
  rw [List.nil_append, List.append_nil] at hcounted
  exact .group (mark_singleton '(') (.single hcounted) (mark_singleton ')')

theorem items_bracketedRow (h : ∀ child ∈ children, Atom child.bracketed child) :
    Items (bracketedRow children) children := by
  induction children with
  | nil => exact .nil
  | cons child children ih =>
    obtain ⟨hchild, hchildren⟩ := List.forall_mem_cons.mp h
    exact .cons hchild.counted (ih hchildren)

/-- The brackets can be read off the grammar. -/
theorem atom_bracketed (h : pattern.Regular) : Atom pattern.bracketed pattern := by
  induction pattern with
  | always =>
    have hname : Name "x".toList := ⟨run_of_any_eq_false (by decide), by decide⟩
    have hcard := Atom.card (mark_singleton '[') hname (mark_singleton ']')
    have hlimit : 0 < countLimit := by decide
    exact hcard.enclosed hlimit
  | card name =>
    obtain ⟨hname, hlower⟩ := everywhere_card.mp h
    have hcard := Atom.card (mark_singleton '[') hname.name (mark_singleton ']')
    rwa [ofCardName, hlower] at hcard
  | named name =>
    have hname : Text.Nameable name.toList := everywhere_named.mp h
    have hnamed := Atom.named (mark_singleton '<') hname.name (mark_singleton '>')
    rwa [ofName, hname.trimmed.trim_eq, String.ofList_toList] at hnamed
  | all children ih =>
    obtain ⟨htwo, hchildren⟩ := everywhere_all.mp h
    have hitems := items_bracketedRow fun child hchild => ih child hchild (hchildren child hchild)
    have hword : Word "all" "all".toList := ⟨run_of_any_eq_false (by decide), by decide⟩
    have hall := Function.all hword hitems.row (List.ne_nil_of_length_pos (Nat.zero_lt_of_lt htwo))
    rw [allOf_of_two_le htwo] at hall
    exact .function (mark_singleton '@') hall
  | any children ih =>
    obtain ⟨htwo, hchildren⟩ := everywhere_any.mp h
    have hitems := items_bracketedRow fun child hchild => ih child hchild (hchildren child hchild)
    have hword : Word "any" "any".toList := ⟨run_of_any_eq_false (by decide), by decide⟩
    have hany := Function.any hword hitems.row (List.ne_nil_of_length_pos (Nat.zero_lt_of_lt htwo))
    rw [anyOf_of_two_le htwo] at hany
    exact .function (mark_singleton '@') hany
  | times count child ih =>
    obtain ⟨⟨htwo, hlimit⟩, hchild⟩ := everywhere_times.mp h
    have htimes := (ih hchild).enclosed hlimit
    rwa [repeated_of_two_le htwo] at htimes
  | absent child ih =>
    obtain ⟨-, hchild⟩ := everywhere_absent.mp h
    have hitems := Items.cons (ih hchild).counted .nil
    rw [List.append_nil] at hitems
    have hword : Word "not" "not".toList := ⟨run_of_any_eq_false (by decide), by decide⟩
    exact .function (mark_singleton '@') (.absent hword hitems.row)

/-! ### Parentheses that are not empty -/

theorem Run.filter_eq_nil (h : Run text) : text.filter isBracket = [] :=
  List.filter_eq_nil_iff.mpr fun c hc => by rw [h c hc]; exact Bool.false_ne_true

/-- Among the brackets of the text, an opening parenthesis is never followed by a closing one. -/
structure Filled (text : List Char) : Prop where
  chain : (text.filter isBracket).IsChain fun c next => ¬(c = '(' ∧ next = ')')
  head : ∃ c ∈ (text.filter isBracket).head?, c ≠ ')'
  last : ∃ c ∈ (text.filter isBracket).getLast?, c ≠ '('

theorem Filled.append (h : Filled text) (hmore : Filled more) : Filled (text ++ more) := by
  obtain ⟨first, hfirst, hne⟩ := h.head
  obtain ⟨last, hlast, hne'⟩ := h.last
  obtain ⟨final, hfinal, hne''⟩ := hmore.last
  rw [Option.mem_def] at hfirst hlast hfinal
  constructor
  · -- where the texts meet, no opening parenthesis is the last bracket of the first one
    rw [List.filter_append, List.isChain_append]
    refine ⟨h.chain, hmore.chain, fun c hc next _ hpair => hne' ?_⟩
    rw [Option.mem_def, hlast] at hc
    exact (Option.some.inj hc).trans hpair.1
  · exact ⟨first, by simp [List.filter_append, hfirst], hne⟩
  · exact ⟨final, by simp [List.filter_append, hfinal], hne''⟩

theorem Filled.behind (h : Filled text) (hmore : Run more) : Filled (more ++ text) := by
  have hbrackets : (more ++ text).filter isBracket = text.filter isBracket := by
    rw [List.filter_append, hmore.filter_eq_nil, List.nil_append]
  exact ⟨hbrackets ▸ h.chain, hbrackets ▸ h.head, hbrackets ▸ h.last⟩

theorem Filled.parenthesized (h : Filled text) : Filled (['('] ++ (text ++ [')'])) := by
  obtain ⟨first, hfirst, hne⟩ := h.head
  obtain ⟨last, hlast, hne'⟩ := h.last
  rw [Option.mem_def] at hfirst hlast
  have hbrackets : (['('] ++ (text ++ [')'])).filter isBracket =
      ['('] ++ (text.filter isBracket ++ [')']) := by
    rw [List.filter_append, List.filter_append]
    rfl
  have hhead : (text.filter isBracket ++ [')']).head? = some first := by simp [hfirst]
  refine ⟨?_, ?_, ?_⟩
  · rw [hbrackets, List.isChain_append, List.isChain_append]
    refine ⟨List.isChain_singleton _, ⟨h.chain, List.isChain_singleton _, ?_⟩, ?_⟩
    · intro c hc next _ hpair
      rw [Option.mem_def, hlast] at hc
      exact hne' ((Option.some.inj hc).trans hpair.1)
    · intro c _ next hnext hpair
      rw [Option.mem_def, hhead] at hnext
      exact hne ((Option.some.inj hnext).trans hpair.2)
  · exact ⟨'(', by rw [hbrackets]; rfl, by decide⟩
  · exact ⟨')', by rw [hbrackets, ← List.append_assoc]; exact List.getLast?_concat, by decide⟩

theorem Filled.enclosed (h : Filled text) : Filled (enclosed count text) := by
  have hnumeral : Run (Text.numeral count) := by
    intro c hc
    have hdigit := Text.isDigit_of_mem_numeral hc
    apply Bool.eq_false_iff.mpr
    intro hbracket
    simp only [isBracket, Bool.or_eq_true, beq_iff_eq] at hbracket
    rcases hbracket with ((((rfl | rfl) | rfl) | rfl) | rfl) | rfl <;> cases hdigit
  exact (h.behind hnumeral).parenthesized

theorem Filled.applied {word : String} (h : Filled text) (hword : Run word.toList) :
    Filled (applied word text) := by
  have hmark : Run ['@'] := run_of_any_eq_false (by decide)
  exact (h.parenthesized.behind hword).behind hmark

theorem filled_singleton {c : Char} (hbracket : isBracket c = true) (hopening : c ≠ '(')
    (hclosing : c ≠ ')') : Filled [c] := by
  have hbrackets : [c].filter isBracket = [c] := List.filter_cons_of_pos hbracket
  refine ⟨?_, ⟨c, ?_, hclosing⟩, ⟨c, ?_, hopening⟩⟩
  · rw [hbrackets]
    exact List.isChain_singleton c
  · rw [hbrackets]
    rfl
  · rw [hbrackets]
    rfl

/-- A name stands between brackets that are no parentheses. -/
theorem filled_card (hrun : Run text) : Filled (['['] ++ (text ++ [']'])) :=
  (filled_singleton (by decide) (by decide) (by decide)).append
    ((filled_singleton (by decide) (by decide) (by decide)).behind hrun)

theorem filled_named (hrun : Run text) : Filled (['<'] ++ (text ++ ['>'])) :=
  (filled_singleton (by decide) (by decide) (by decide)).append
    ((filled_singleton (by decide) (by decide) (by decide)).behind hrun)

theorem filled_bracketedRow (h : ∀ child ∈ children, Filled child.bracketed) (hne : children ≠ []) :
    Filled (bracketedRow children) := by
  induction children with
  | nil => exact absurd rfl hne
  | cons child children ih =>
    obtain ⟨hchild, hchildren⟩ := List.forall_mem_cons.mp h
    cases children with
    | nil =>
      rw [bracketedRow, bracketedRow, List.append_nil]
      exact hchild
    | cons next children => exact hchild.append (ih hchildren (List.cons_ne_nil _ _))

theorem filled_bracketed (h : pattern.Regular) : Filled pattern.bracketed := by
  induction pattern with
  | always =>
    have hcard : Filled "[x]".toList := filled_card (run_of_any_eq_false (by decide) : Run "x".toList)
    exact hcard.enclosed
  | card name =>
    obtain ⟨hname, -⟩ := everywhere_card.mp h
    exact filled_card hname.unbracketed
  | named name =>
    have hname : Text.Nameable name.toList := everywhere_named.mp h
    exact filled_named hname.unbracketed
  | all children ih =>
    obtain ⟨htwo, hchildren⟩ := everywhere_all.mp h
    have hrow := filled_bracketedRow (fun child hchild => ih child hchild (hchildren child hchild))
      (List.ne_nil_of_length_pos (Nat.zero_lt_of_lt htwo))
    exact hrow.applied (run_of_any_eq_false (by decide))
  | any children ih =>
    obtain ⟨htwo, hchildren⟩ := everywhere_any.mp h
    have hrow := filled_bracketedRow (fun child hchild => ih child hchild (hchildren child hchild))
      (List.ne_nil_of_length_pos (Nat.zero_lt_of_lt htwo))
    exact hrow.applied (run_of_any_eq_false (by decide))
  | times count child ih =>
    obtain ⟨-, hchild⟩ := everywhere_times.mp h
    exact (ih hchild).enclosed
  | absent child ih =>
    obtain ⟨-, hchild⟩ := everywhere_absent.mp h
    exact (ih hchild).applied (run_of_any_eq_false (by decide))

theorem Mark.filter_eq {c : Char} (h : Mark c text) (hc : isBracket c = true) :
    text.filter isBracket = [c] := by
  cases h with
  | mk hspaces =>
    rw [List.filter_append, hspaces.run.filter_eq_nil]
    exact List.filter_cons_of_pos hc

/-- The count that a function asks for is all that stands between two parentheses. -/
theorem Argument.filter_eq (h : Argument text count) : text.filter isBracket = ['(', ')'] := by
  cases h with
  | mk hopening hrun _ hclosing =>
    rw [List.filter_append, List.filter_append, hopening.filter_eq rfl, hrun.filter_eq_nil,
      hclosing.filter_eq rfl]
    rfl

/-- Nothing overflows in a text without empty parentheses, as no function asks for a count there. -/
theorem Filled.not_overflows {fault : Fault} (h : Filled text) : ¬Overflows text fault := by
  rintro ⟨before, argument, row, after, count, children, rfl, hargument, -, -⟩
  have hchain := h.chain
  rw [List.filter_append, List.filter_append, hargument.filter_eq, List.isChain_append,
    List.isChain_append] at hchain
  obtain ⟨-, ⟨hpair, -, -⟩, -⟩ := hchain
  exact (List.isChain_cons_cons.mp hpair).1 ⟨rfl, rfl⟩

end Grammar

/-! ### The normal form -/

namespace Declaration

variable {declaration : Declaration}

/-- What all declarations that are read have in common. -/
structure Normal (declaration : Declaration) : Prop where
  name : Text.Nameable declaration.name.toList
  all : ∀ children, Pattern.all children ∈ declaration.pattern.nodes → 2 ≤ children.length
  any : ∀ children, Pattern.any children ∈ declaration.pattern.nodes → 2 ≤ children.length
  times : ∀ count child, Pattern.times count child ∈ declaration.pattern.nodes →
    2 ≤ count ∧ count < countLimit
  card : ∀ name, Pattern.card name ∈ declaration.pattern.nodes →
    Text.Nameable name.toList ∧ Card.ofName name.toList = name
  named : ∀ name, Pattern.named name ∈ declaration.pattern.nodes → Text.Nameable name.toList

theorem normal_iff : declaration.Normal ↔
    Text.Nameable declaration.name.toList ∧ declaration.pattern.Regular := by
  constructor
  · rintro ⟨hname, hall, hany, htimes, hcard, hnamed⟩
    refine ⟨hname, fun node hnode => ?_⟩
    match node with
    | .all children => exact hall children hnode
    | .any children => exact hany children hnode
    | .times count child => exact htimes count child hnode
    | .card name => exact hcard name hnode
    | .named name => exact hnamed name hnode
    | .always | .absent _ => trivial
  · rintro ⟨hname, hregular⟩
    exact ⟨hname, fun _ => hregular _, fun _ => hregular _, fun _ _ => hregular _, fun _ => hregular _,
      fun _ => hregular _⟩

def heading (declaration : Declaration) : List Char :=
  if declaration.isCriterion then ['<'] ++ '<' :: (declaration.name.toList ++ (['>'] ++ ['>']))
  else ['<'] ++ (declaration.name.toList ++ ['>'])

def bracketed (declaration : Declaration) : List Char :=
  declaration.heading ++ ([':'] ++ declaration.pattern.bracketed)

theorem heading_of_name (hname : Text.Nameable declaration.name.toList) :
    Heading declaration.isCriterion declaration.heading declaration.name.toList := by
  rw [heading]
  cases declaration.isCriterion with
  | true => exact .criterion (mark_singleton '<') hname.name (mark_singleton '>') (mark_singleton '>')
  | false => exact .plain (mark_singleton '<') hname.name (mark_singleton '>')

theorem filled_heading (hname : Text.Nameable declaration.name.toList) :
    Filled declaration.heading := by
  have hopening : Filled ['<'] := filled_singleton (by decide) (by decide) (by decide)
  have hclosing : Filled ['>'] := filled_singleton (by decide) (by decide) (by decide)
  rw [heading]
  split
  · exact (hopening.append hopening).append ((hclosing.append hclosing).behind hname.unbracketed)
  · exact filled_named hname.unbracketed

theorem line_bracketed (hname : Text.Nameable declaration.name.toList)
    (hregular : declaration.pattern.Regular) : Line declaration.bracketed declaration := by
  have hcompound := Compound.single (atom_bracketed hregular).counted
  have hline := Line.mk (heading_of_name hname) (mark_singleton ':') hcompound (List.forall_mem_nil _)
  rwa [hname.trimmed.trim_eq, String.ofList_toList, List.append_nil] at hline

/-- A regular pattern is read from the form with brackets, under any name. -/
theorem read_bracketed (hname : Text.Nameable declaration.name.toList)
    (hregular : declaration.pattern.Regular) : read declaration.bracketed = .ok declaration := by
  rcases read_of_line (line_bracketed hname hregular) with hread | ⟨fault, hfault⟩
  · exact hread
  · -- what the grammar allows is refused only where a threshold has too many choices
    have hcolon : Run [':'] := run_of_any_eq_false (by decide)
    have hfilled : Filled declaration.bracketed :=
      (filled_heading hname).append ((filled_bracketed hregular).behind hcolon)
    exact absurd (overflows_of_read hfault) hfilled.not_overflows

/-- What is read is in normal form, and all that is in normal form can be read. -/
theorem read_normal (declaration : Declaration) :
    (∀ line, read line = .ok declaration → declaration.Normal) ∧
      (declaration.Normal → read declaration.bracketed = .ok declaration) := by
  refine ⟨fun line hread => normal_iff.mpr (read_regular hread), fun hnormal => ?_⟩
  obtain ⟨hname, hregular⟩ := normal_iff.mp hnormal
  exact read_bracketed hname hregular

def knottyLine : List Char :=
  "<< a >>: 2 (3 [ X ]) & @not(@xof(2)([y] <b > 0[z]))".toList

def knottyDeclaration : Declaration :=
  ⟨"a", true, .all [.times 2 (.times 3 (.card "x")), .absent (.any [.all [.card "y", .named "b"],
    .all [.card "y", .always], .all [.named "b", .always]])]⟩

set_option maxRecDepth 4000 in
theorem read_knottyLine : read knottyLine = .ok knottyDeclaration := by cbv

theorem read_normal_knotty : read knottyLine = .ok knottyDeclaration ∧ knottyDeclaration.Normal ∧
    read knottyDeclaration.bracketed = .ok knottyDeclaration := by
  obtain ⟨hnormal, hbracketed⟩ := read_normal knottyDeclaration
  exact ⟨read_knottyLine, hnormal _ read_knottyLine, hbracketed (hnormal _ read_knottyLine)⟩

example : knottyDeclaration.bracketed =
    "<<a>>:@all((2(3[x]))@not(@any(@all([y]<b>)@all([y](0[x]))@all(<b>(0[x])))))".toList := by
  decide

/-- There is nothing to leave out in a pattern that was read. -/
theorem rebuild_of_read {line : List Char} (h : read line = .ok declaration) :
    declaration.pattern.rebuild .sparing = declaration.pattern :=
  (read_regular h).2.compact.rebuild_eq_self

end Declaration

end OpeningHand
