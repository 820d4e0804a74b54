import Mathlib
import OpeningHand.Proofs.ValidatedBooks

/-!
# Expanding references

In an acyclic context a pattern can be written without references: every name is replaced by the
expansion of what it resolves to, and a name that does not resolve by a choice among no patterns, which
leads nowhere. The expansion has the flow of the pattern, split by split.
-/

namespace OpeningHand

namespace Pattern

mutual

def substitute (replacement : String → Pattern) : Pattern → Pattern
  | always => always
  | card name => card name
  | named name => replacement name
  | all children => all (substituteRow replacement children)
  | any children => any (substituteRow replacement children)
  | times count child => times count (substitute replacement child)
  | absent child => absent (substitute replacement child)

def substituteRow (replacement : String → Pattern) : List Pattern → List Pattern
  | [] => []
  | child :: children => substitute replacement child :: substituteRow replacement children

end

variable {replacement other : String → Pattern}

theorem substituteRow_eq_map (children : List Pattern) :
    substituteRow replacement children = children.map (substitute replacement) := by
  induction children with
  | nil => rfl
  | cons child children ih => rw [substituteRow, ih, List.map_cons]

theorem substituteRow_congr {children : List Pattern}
    (h : ∀ child ∈ children, child.substitute replacement = child.substitute other) :
    substituteRow replacement children = substituteRow other children := by
  rw [substituteRow_eq_map, substituteRow_eq_map]
  exact List.map_congr_left h

/-- Only the names in a pattern matter for what is put in their place. -/
theorem substitute_congr {pattern : Pattern}
    (h : ∀ name ∈ pattern.references, replacement name = other name) :
    pattern.substitute replacement = pattern.substitute other := by
  induction pattern, h using referenceInduction with
  | always h => rfl
  | card name h => rfl
  | named name h hname => exact hname
  | all children h ih => rw [substitute, substitute, substituteRow_congr ih]
  | any children h ih => rw [substitute, substitute, substituteRow_congr ih]
  | times count child h ih => rw [substitute, substitute, ih]
  | absent child h ih => rw [substitute, substitute, ih]

theorem rowReferences_substituteRow {children : List Pattern}
    (h : ∀ child ∈ children, (child.substitute replacement).references = []) :
    rowReferences (substituteRow replacement children) = [] := by
  rw [substituteRow_eq_map, rowReferences_eq_flatMap, List.flatMap_map]
  exact List.flatMap_eq_nil_iff.mpr h

/-- If nothing that is put in the place of a name has references, none are left. -/
theorem references_substitute {pattern : Pattern}
    (h : ∀ name ∈ pattern.references, (replacement name).references = []) :
    (pattern.substitute replacement).references = [] := by
  induction pattern, h using referenceInduction with
  | always h => rfl
  | card name h => rfl
  | named name h hname => exact hname
  | all children h ih => exact rowReferences_substituteRow ih
  | any children h ih => exact rowReferences_substituteRow ih
  | times count child h ih => exact ih
  | absent child h ih => exact ih

theorem flowAll_substituteRow {flows others : String → Flow} {children : List Pattern}
    (h : ∀ child ∈ children, (child.substitute replacement).flow others = child.flow flows) :
    flowAll others (substituteRow replacement children) = flowAll flows children := by
  induction children with
  | nil => rfl
  | cons child children ih =>
    obtain ⟨hchild, hchildren⟩ := List.forall_mem_cons.mp h
    rw [substituteRow, flowAll, flowAll, hchild, ih hchildren]

theorem flowAny_substituteRow {flows others : String → Flow} {children : List Pattern}
    (h : ∀ child ∈ children, (child.substitute replacement).flow others = child.flow flows) :
    flowAny others (substituteRow replacement children) = flowAny flows children := by
  induction children with
  | nil => rfl
  | cons child children ih =>
    obtain ⟨hchild, hchildren⟩ := List.forall_mem_cons.mp h
    rw [substituteRow, flowAny, flowAny, hchild, ih hchildren]

/-- The flow stays the same if each name is replaced by a pattern with the flow of the name. -/
theorem flow_substitute {flows others : String → Flow} {pattern : Pattern}
    (h : ∀ name ∈ pattern.references, (replacement name).flow others = flows name) :
    (pattern.substitute replacement).flow others = pattern.flow flows := by
  induction pattern, h using referenceInduction with
  | always h => rfl
  | card name h => rfl
  | named name h hname => exact hname
  | all children h ih => exact flowAll_substituteRow ih
  | any children h ih => exact flowAny_substituteRow ih
  | times count child h ih => rw [substitute, flow, flow, ih]
  | absent child h ih => rw [substitute, flow, flow, ih]

end Pattern

namespace Context

variable {context : Context}

/-- A pattern without references has its flow in every context, at every depth. -/
theorem step_follows_of_references_eq_nil {pattern : Pattern} (h : pattern.references = [])
    (depth : Nat) (flows : String → Flow) :
    (context.step depth pattern).Follows (pattern.flow flows) := by
  rw [step_eq_lookup]
  apply Pattern.step_follows
  intro name hname
  rw [h] at hname
  cases hname

namespace Acyclic

/-- The pattern without references that a name stands for. -/
noncomputable def expansion (acyclic : context.Acyclic) : String → Pattern :=
  acyclic.meaning (.any []) Pattern.substitute

/-- The pattern with every reference replaced by what it leads to in the end. -/
noncomputable def expand (acyclic : context.Acyclic) (pattern : Pattern) : Pattern :=
  pattern.substitute acyclic.expansion

/-- A name that does not resolve expands to a choice among no patterns. -/
theorem expansion_of_none (acyclic : context.Acyclic) {name : String}
    (h : context.resolve name = none) : acyclic.expansion name = .any [] :=
  acyclic.meaning_of_none h

/-- A name expands to the expansion of the pattern that it resolves to. -/
theorem expansion_of_some (acyclic : context.Acyclic) {name : String} {pattern : Pattern}
    (h : context.resolve name = some pattern) : acyclic.expansion name = acyclic.expand pattern :=
  acyclic.meaning_of_some (fun _ _ _ => Pattern.substitute_congr) h

theorem references_expansion (acyclic : context.Acyclic) (name : String) :
    (acyclic.expansion name).references = [] := by
  induction name using acyclic.nameInduction with
  | unresolved name h =>
    rw [acyclic.expansion_of_none h]
    rfl
  | resolved name pattern h ih =>
    rw [acyclic.expansion_of_some h]
    exact Pattern.references_substitute ih

theorem references_expand (acyclic : context.Acyclic) (pattern : Pattern) :
    (acyclic.expand pattern).references = [] :=
  Pattern.references_substitute fun name _ => acyclic.references_expansion name

theorem flow_expansion (acyclic : context.Acyclic) (flows : String → Flow) (name : String) :
    (acyclic.expansion name).flow flows = acyclic.flow name := by
  induction name using acyclic.nameInduction with
  | unresolved name h =>
    rw [acyclic.expansion_of_none h, acyclic.flow_of_none h]
    rfl
  | resolved name pattern h ih =>
    rw [acyclic.expansion_of_some h, acyclic.flow_of_some h]
    exact Pattern.flow_substitute ih

/-- The expansion of a pattern has the flow of the pattern, whatever names stand for. -/
theorem flow_expand (acyclic : context.Acyclic) (flows : String → Flow) (pattern : Pattern) :
    (acyclic.expand pattern).flow flows = pattern.flow acyclic.flow :=
  Pattern.flow_substitute fun name _ => acyclic.flow_expansion flows name

end Acyclic

end Context

namespace RuleBook

/-- In a validated rule book, so in that of any text, references never lead back. Every pattern then has
an expansion without references, and on every stream it yields what the expansion does: with lookups
nested as deeply as there are names, or more deeply. -/
theorem evaluate_eq_expansion :
    (∀ text book, read text = .ok book → book.Validated) ∧
    ∀ book : RuleBook, book.Validated → book.context.Unlooped ∧
      ∃ acyclic : book.context.Acyclic, ∀ pattern,
        (acyclic.expand pattern).references = [] ∧
        ∀ stream, ∃ out, book.evaluate pattern stream = .ok out ∧
          (∀ depth, book.patterns.size ≤ depth → book.context.step depth pattern stream = .ok out) ∧
          ∀ (other : Context) (depth : Nat),
            other.step depth (acyclic.expand pattern) stream = .ok out := by
  refine ⟨fun text book => validated_of_read, ?_⟩
  intro book h
  refine ⟨h.unlooped, h.acyclic, ?_⟩
  intro pattern
  have hnone := h.acyclic.references_expand pattern
  refine ⟨hnone, ?_⟩
  intro stream
  refine ⟨pattern.flow h.acyclic.flow stream, (h.evaluate_follows pattern).answer stream, ?_, ?_⟩
  · intro depth hdepth
    exact (h.acyclic.step_follows (h.suffices hdepth pattern)).answer stream
  · intro other depth
    have hfollows : (other.step depth (h.acyclic.expand pattern)).Follows _ :=
      Context.step_follows_of_references_eq_nil hnone depth h.acyclic.flow
    rw [hfollows.answer, h.acyclic.flow_expand]

/-- The first name refers to itself, the second one to both others, and the last one to a name without
pattern. -/
def ringRules : List Char :=
  "<a>: <a>\n<b>: <a> | <c>\n<c>: @not(<d>)".toList

def ringBook : RuleBook :=
  (((empty.add ⟨"a", false, .named "a"⟩).add ⟨"b", false, .any [.named "a", .named "c"]⟩).add
    ⟨"c", false, .absent (.named "d")⟩).validate

theorem read_ringRules : read ringRules = .ok ringBook := by cbv

theorem evaluate_eq_expansion_ring :
    read ringRules = .ok ringBook ∧ ringBook.hidden = ["a"] ∧
      ∃ acyclic : ringBook.context.Acyclic,
        acyclic.expand (.times 2 (.named "b")) = .times 2 (.any [.any [], .absent (.any [])]) ∧
        Context.step ⟨fun _ => none, fun _ => true⟩ 0 (acyclic.expand (.times 2 (.named "b")))
            [.ofHand ⟨["x"]⟩] = .ok [.ofHand ⟨["x"]⟩] := by
  have hhidden : ringBook.hidden = ["a"] := by cbv
  have ha : ringBook.context.resolve "a" = none := by cbv
  have hb : ringBook.context.resolve "b" = some (.any [.named "a", .named "c"]) := by cbv
  have hc : ringBook.context.resolve "c" = some (.absent (.named "d")) := by cbv
  have hd : ringBook.context.resolve "d" = none := by cbv
  have hevaluate : ringBook.evaluate (.times 2 (.named "b")) [.ofHand ⟨["x"]⟩] =
      .ok [.ofHand ⟨["x"]⟩] := by cbv
  have hvalidated := evaluate_eq_expansion.1 ringRules ringBook read_ringRules
  obtain ⟨-, acyclic, hpattern⟩ := evaluate_eq_expansion.2 ringBook hvalidated
  refine ⟨read_ringRules, hhidden, acyclic, ?_, ?_⟩
  · rw [Context.Acyclic.expand, Pattern.substitute, Pattern.substitute, acyclic.expansion_of_some hb]
    simp only [Context.Acyclic.expand, Pattern.substitute, Pattern.substituteRow,
      acyclic.expansion_of_none ha, acyclic.expansion_of_some hc, acyclic.expansion_of_none hd]
  · obtain ⟨-, hstream⟩ := hpattern (.times 2 (.named "b"))
    obtain ⟨out, hout, -, hexpand⟩ := hstream [.ofHand ⟨["x"]⟩]
    rw [hexpand, ← hout, hevaluate]

end RuleBook

end OpeningHand
