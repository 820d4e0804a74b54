import Mathlib
import OpeningHand.Proofs.RegularPatterns
import OpeningHand.Proofs.Verdicts

/-!
# Patterns built anew

A pattern can be built anew from its leaves on, by the constructors that leave out nodes without effect. What
comes of it is compact, and a stream goes through it as it goes through the pattern. There is one exception:
nothing goes through a choice among no patterns, but the constructor of choices waives it, and then everything
does.
-/

namespace OpeningHand

namespace Pattern

/-- How the nodes above other patterns are made, absences apart. -/
structure Maker where
  all : List Pattern → Pattern
  any : List Pattern → Pattern
  times : ℕ → Pattern → Pattern

/-- Nodes without effect are left out. -/
def Maker.sparing : Maker :=
  ⟨allOf, anyOf, repeated⟩

/-- Only choices among no patterns are left out. -/
def Maker.lenient : Maker :=
  ⟨Pattern.all, fun children => if children = [] then always else Pattern.any children, Pattern.times⟩

mutual

def rebuild (maker : Maker) : Pattern → Pattern
  | always => always
  | card name => card name
  | named name => named name
  | all children => maker.all (rebuildRow maker children)
  | any children => maker.any (rebuildRow maker children)
  | times count child => maker.times count (rebuild maker child)
  | absent child => absent (rebuild maker child)

def rebuildRow (maker : Maker) : List Pattern → List Pattern
  | [] => []
  | child :: children => rebuild maker child :: rebuildRow maker children

end

variable {maker other : Maker} {flows : String → Flow} {pattern : Pattern} {children : List Pattern}

theorem rebuildRow_eq_map (children : List Pattern) :
    rebuildRow maker children = children.map (rebuild maker) := by
  induction children with
  | nil => rfl
  | cons child children ih => rw [rebuildRow, ih, List.map_cons]

/-! ### Nodes that are kept -/

def Maker.Keeps (maker : Maker) : Pattern → Prop
  | .all children => maker.all children = .all children
  | .any children => maker.any children = .any children
  | .times count child => maker.times count child = .times count child
  | _ => True

theorem rebuildRow_eq_self (h : ∀ child ∈ children, child.rebuild maker = child) :
    rebuildRow maker children = children := by
  rw [rebuildRow_eq_map]
  exact (List.map_congr_left h).trans (List.map_id children)

/-- A pattern whose nodes are all kept is built as it was. -/
theorem rebuild_eq_self (h : pattern.Everywhere maker.Keeps) : pattern.rebuild maker = pattern := by
  induction pattern with
  | always => rfl
  | card name => rfl
  | named name => rfl
  | all children ih =>
    obtain ⟨hnode, hchildren⟩ := everywhere_all.mp h
    rw [rebuild, rebuildRow_eq_self fun child hchild => ih child hchild (hchildren child hchild)]
    exact hnode
  | any children ih =>
    obtain ⟨hnode, hchildren⟩ := everywhere_any.mp h
    rw [rebuild, rebuildRow_eq_self fun child hchild => ih child hchild (hchildren child hchild)]
    exact hnode
  | times count child ih =>
    obtain ⟨hnode, hchild⟩ := everywhere_times.mp h
    rw [rebuild, ih hchild]
    exact hnode
  | absent child ih =>
    obtain ⟨-, hchild⟩ := everywhere_absent.mp h
    rw [rebuild, ih hchild]

theorem rebuild_lenient_eq_self (h : any [] ∉ pattern.nodes) : pattern.rebuild .lenient = pattern := by
  apply rebuild_eq_self
  intro node hnode
  match node with
  | any [] => exact absurd hnode h
  | any (_ :: _) => rfl
  | all _ | times _ _ => rfl
  | always | card _ | named _ | absent _ => trivial

/-! ### Compact patterns -/

def CompactNode : Pattern → Prop
  | all children => 2 ≤ children.length
  | any children => 2 ≤ children.length
  | times count _ => 2 ≤ count
  | _ => True

/-- There are at least two patterns in each row and each choice, and no repetition of less than two times. -/
abbrev Compact (pattern : Pattern) : Prop :=
  pattern.Everywhere CompactNode

theorem CompactNode.keeps {node : Pattern} (h : node.CompactNode) : Maker.sparing.Keeps node := by
  match node, h with
  | all (_ :: _ :: _), _ => rfl
  | any (_ :: _ :: _), _ => rfl
  | times (_ + 2) _, _ => rfl
  | always, _ | card _, _ | named _, _ | absent _, _ => trivial

theorem Compact.rebuild_eq_self (h : pattern.Compact) : pattern.rebuild .sparing = pattern :=
  Pattern.rebuild_eq_self fun node hnode => (h node hnode).keeps

theorem compact_rebuildRow (h : ∀ child ∈ children, (child.rebuild maker).Compact) :
    ∀ child ∈ rebuildRow maker children, child.Compact := by
  rw [rebuildRow_eq_map]
  exact List.forall_mem_map.mpr h

theorem compact_rebuild (pattern : Pattern) : (pattern.rebuild .sparing).Compact := by
  induction pattern with
  | always => exact everywhere_always.mpr trivial
  | card name => exact everywhere_card.mpr trivial
  | named name => exact everywhere_named.mpr trivial
  | all children ih => exact everywhere_allOf trivial (fun htwo => htwo) (compact_rebuildRow ih)
  | any children ih => exact everywhere_anyOf trivial (fun htwo => htwo) (compact_rebuildRow ih)
  | times count child ih => exact everywhere_repeated trivial (fun htwo => htwo) ih
  | absent child ih => exact everywhere_absent.mpr ⟨trivial, ih⟩

/-! ### The flow of a pattern that is built anew -/

theorem flow_repeated (count : ℕ) (child : Pattern) :
    (repeated count child).flow flows = (child.flow flows)^[count] := by
  match count with
  | 0 => rfl
  | 1 => rfl
  | _ + 2 => rfl

theorem flowAll_rebuildRow
    (h : ∀ child ∈ children, (child.rebuild maker).flow flows = (child.rebuild other).flow flows) :
    flowAll flows (rebuildRow maker children) = flowAll flows (rebuildRow other children) := by
  induction children with
  | nil => rfl
  | cons child children ih =>
    obtain ⟨hchild, hchildren⟩ := List.forall_mem_cons.mp h
    rw [rebuildRow, rebuildRow, flowAll, flowAll, hchild, ih hchildren]

theorem flowAny_rebuildRow
    (h : ∀ child ∈ children, (child.rebuild maker).flow flows = (child.rebuild other).flow flows) :
    flowAny flows (rebuildRow maker children) = flowAny flows (rebuildRow other children) := by
  induction children with
  | nil => rfl
  | cons child children ih =>
    obtain ⟨hchild, hchildren⟩ := List.forall_mem_cons.mp h
    rw [rebuildRow, rebuildRow, flowAny, flowAny, hchild, ih hchildren]

/-- Apart from choices among no patterns, the nodes that are left out do nothing to a stream. -/
theorem flow_rebuild (pattern : Pattern) :
    (pattern.rebuild .sparing).flow flows = (pattern.rebuild .lenient).flow flows := by
  induction pattern with
  | always => rfl
  | card name => rfl
  | named name => rfl
  | all children ih =>
    change (allOf (rebuildRow .sparing children)).flow flows = flowAll flows (rebuildRow .lenient children)
    rw [flow_allOf, flowAll_rebuildRow ih]
  | any children ih =>
    -- neither maker keeps the choice among no patterns, so only here both sides waive it
    cases children with
    | nil => rfl
    | cons child children =>
      change (anyOf (rebuildRow .sparing (child :: children))).flow flows =
        flowAny flows (rebuildRow .lenient (child :: children))
      rw [← flowAny_rebuildRow ih, flow_anyOf]
      exact List.cons_ne_nil _ _
  | times count child ih =>
    change (repeated count (child.rebuild .sparing)).flow flows = ((child.rebuild .lenient).flow flows)^[count]
    rw [flow_repeated, ih]
  | absent child ih => rw [rebuild, rebuild, flow, flow, ih]

end Pattern

namespace Context

variable {context : Context}

/-- A pattern that is built anew without the nodes that have no effect is compact. On every stream it yields
the same as the pattern does in which choices among no patterns are waived, so it yields the same as the
pattern itself if there is no such choice in it. -/
theorem Terminating.yields_rebuild (terminating : context.Terminating) (pattern : Pattern) :
    (pattern.rebuild .sparing).Compact ∧
    ∀ stream, ∃ out, context.Yields (pattern.rebuild .sparing) stream out ∧
      context.Yields (pattern.rebuild .lenient) stream out ∧
      (.any [] ∉ pattern.nodes → context.Yields pattern stream out) := by
  refine ⟨pattern.compact_rebuild, fun stream => ⟨_, terminating.yields_flow _ stream, ?_, fun hnone => ?_⟩⟩
  · rw [Pattern.flow_rebuild]
    exact terminating.yields_flow _ stream
  · rw [Pattern.flow_rebuild, Pattern.rebuild_lenient_eq_self hnone]
    exact terminating.yields_flow pattern stream

def looseRun : Pattern :=
  .all [.absent (.times 1 (.any [.card "swamp"])), .any [.named "run"], .times 0 (.card "swamp"), .all []]

theorem Terminating.yields_rebuild_run : runContext.Terminating ∧ Pattern.any [] ∉ looseRun.nodes ∧
    looseRun.rebuild .sparing = .all [.absent (.card "swamp"), .named "run", .always, .always] ∧
    runContext.Yields (looseRun.rebuild .sparing) [.ofHand ⟨["forest"]⟩]
      [⟨⟨["forest"]⟩, ⟨[]⟩⟩, ⟨⟨[]⟩, ⟨["forest"]⟩⟩] := by
  have hnone : Pattern.any [] ∉ looseRun.nodes := by decide
  have hrun : runContext.Yields looseRun [.ofHand ⟨["forest"]⟩]
      [⟨⟨["forest"]⟩, ⟨[]⟩⟩, ⟨⟨[]⟩, ⟨["forest"]⟩⟩] := ⟨3, by decide⟩
  obtain ⟨-, hyields⟩ := runContext_terminating.yields_rebuild looseRun
  obtain ⟨out, hout, -, hsame⟩ := hyields [.ofHand ⟨["forest"]⟩]
  refine ⟨runContext_terminating, hnone, by decide, ?_⟩
  rwa [hrun.unique (hsame hnone)]

/-- A choice among no patterns yields nothing, and built anew it lets everything through; so inside of an
absence it is the other way round. -/
theorem yields_rebuild_empty_choice : runContext.Terminating ∧
    runContext.Yields (.any []) [.ofHand ⟨["forest"]⟩] [] ∧
    runContext.Yields ((Pattern.any []).rebuild .sparing) [.ofHand ⟨["forest"]⟩] [.ofHand ⟨["forest"]⟩] ∧
    runContext.Yields (.absent (.any [])) [.ofHand ⟨["forest"]⟩] [.ofHand ⟨["forest"]⟩] ∧
    runContext.Yields ((Pattern.absent (.any [])).rebuild .sparing) [.ofHand ⟨["forest"]⟩] [] :=
  ⟨runContext_terminating, ⟨0, rfl⟩, ⟨0, rfl⟩, ⟨0, rfl⟩, ⟨0, rfl⟩⟩

end Context

end OpeningHand
