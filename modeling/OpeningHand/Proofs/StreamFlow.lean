import Mathlib.Data.List.Perm.Basic
import Mathlib.Logic.Function.Iterate
import OpeningHand.Evaluation
import OpeningHand.Proofs.PatternTrees

/-!
# The flow of a stream through a pattern

The flow of a pattern goes through all of its nodes: a row is the composition of its children, a
repetition is an iteration, and neither looks whether the stream has run dry or has settled. The step of
a pattern is its flow, so leaving a loop early never changes a stream. Up to order, a flow sends each
split of a stream on alone.
-/

namespace OpeningHand

/-- A way of going on from a stream that always has an answer. -/
abbrev Flow : Type := List Split → List Split

namespace Split

/-- The split after one more card is used, whether there is a copy of it or not. -/
def use (split : Split) (card : Card) : Split :=
  ⟨⟨split.remaining.cards.erase card⟩, split.selected.add card⟩

end Split

namespace Flow

def refused (flow : Flow) : Flow :=
  List.filter fun split => (flow [split]).isEmpty

end Flow

def Card.flow (card : Card) : Flow := fun stream =>
  (stream.filter (·.has card)).map (·.use card)

theorem Card.flow_singleton (card : Card) (split : Split) :
    Card.flow card [split] = if split.has card = true then [split.use card] else [] := by
  rw [Card.flow, List.filter_singleton]
  cases split.has card <;> rfl

namespace Pattern

mutual

/-- The flow of a pattern, where `follow` gives the flow of a name. -/
def flow (follow : String → Flow) : Pattern → Flow
  | always => id
  | card name => name.flow
  | named name => follow name
  | all children => flowAll follow children
  | any children => flowAny follow children
  | times count child => (flow follow child)^[count]
  | absent child => (flow follow child).refused

def flowAll (follow : String → Flow) : List Pattern → Flow
  | [] => id
  | child :: children => flowAll follow children ∘ flow follow child

def flowAny (follow : String → Flow) : List Pattern → Flow
  | [] => fun _ => []
  | child :: children => fun stream => flow follow child stream ++ flowAny follow children stream

end

variable {flows others : String → Flow}

theorem flowAll_congr {children : List Pattern}
    (h : ∀ child ∈ children, child.flow flows = child.flow others) :
    flowAll flows children = flowAll others children := by
  induction children with
  | nil => rfl
  | cons child children ih =>
    obtain ⟨hchild, hchildren⟩ := List.forall_mem_cons.mp h
    rw [flowAll, flowAll, hchild, ih hchildren]

theorem flowAny_congr {children : List Pattern}
    (h : ∀ child ∈ children, child.flow flows = child.flow others) :
    flowAny flows children = flowAny others children := by
  induction children with
  | nil => rfl
  | cons child children ih =>
    obtain ⟨hchild, hchildren⟩ := List.forall_mem_cons.mp h
    rw [flowAny, flowAny, hchild, ih hchildren]

/-- The flow of a pattern depends on the names in it only. -/
theorem flow_congr {pattern : Pattern} (h : ∀ name ∈ pattern.references, flows name = others name) :
    pattern.flow flows = pattern.flow others := by
  induction pattern, h using referenceInduction with
  | always h => rfl
  | card name h => rfl
  | named name h hname => exact hname
  | all children h ih => exact flowAll_congr ih
  | any children h ih => exact flowAny_congr ih
  | times count child h ih => rw [flow, flow, ih]
  | absent child h ih => rw [flow, flow, ih]

end Pattern

/-! ### The step of a pattern is its flow -/

namespace Step

/-- The step always has the answer that the flow gives, and nothing comes of a dry stream. -/
structure Follows (step : Step) (flow : Flow) : Prop where
  answer : ∀ stream, step stream = .ok (flow stream)
  dry : flow [] = []

variable {step : Step} {flow : Flow}

/-- A repetition that stops at a stream which has run dry, or which the step leaves as it is, still
gives the whole iteration. -/
theorem Follows.repeated (h : step.Follows flow) (count : Nat) :
    (step.repeated count).Follows flow^[count] := by
  have hdry : ∀ n, flow^[n] [] = [] := fun n => Function.iterate_fixed h.dry n
  refine ⟨?_, hdry count⟩
  induction count with
  | zero =>
    intro stream
    rfl
  | succ count ih =>
    intro stream
    rw [Function.iterate_succ_apply, Step.repeated]
    split
    · next hempty =>
      rw [List.isEmpty_iff.mp hempty, h.dry, hdry]
    · rw [h.answer]
      change (if flow stream = stream then _ else _) = _
      split
      · next hfixed =>
        rw [hfixed, Function.iterate_fixed hfixed]
        rfl
      · exact ih (flow stream)

theorem Follows.refused (h : step.Follows flow) : step.refused.Follows flow.refused := by
  refine ⟨?_, rfl⟩
  intro stream
  induction stream with
  | nil => rfl
  | cons split stream ih =>
    rw [Step.refused, h.answer, ih]
    change Except.ok (if _ then _ else _) = _
    rw [Flow.refused, List.filter_cons]

end Step

/-- Every split that passes the test for a copy of the card can be made to use one. -/
theorem Card.step_follows (card : Card) : (Card.step card).Follows (Card.flow card) := by
  refine ⟨?_, rfl⟩
  intro stream
  induction stream with
  | nil => rfl
  | cons split stream ih =>
    rw [Card.step, Card.flow, List.filter_cons]
    split
    · next h =>
      rw [List.mapM_cons, Split.select_of_has h, ← Card.step, ih]
      rfl
    · exact ih

namespace Pattern

variable {steps : String → Step} {flows : String → Flow}

theorem stepAll_follows {children : List Pattern}
    (h : ∀ child ∈ children, (child.step steps).Follows (child.flow flows)) :
    (stepAll steps children).Follows (flowAll flows children) := by
  induction children with
  | nil => exact ⟨fun _ => rfl, rfl⟩
  | cons child children ih =>
    obtain ⟨hchild, hchildren⟩ := List.forall_mem_cons.mp h
    have hrest := ih hchildren
    refine ⟨?_, by rw [flowAll, Function.comp_apply, hchild.dry, hrest.dry]⟩
    intro stream
    rw [stepAll, flowAll, Function.comp_apply]
    split
    · next hempty =>
      rw [List.isEmpty_iff.mp hempty, hchild.dry, hrest.dry]
    · rw [hchild.answer]
      exact hrest.answer (child.flow flows stream)

theorem stepAny_follows {children : List Pattern}
    (h : ∀ child ∈ children, (child.step steps).Follows (child.flow flows)) :
    (stepAny steps children).Follows (flowAny flows children) := by
  induction children with
  | nil => exact ⟨fun _ => rfl, rfl⟩
  | cons child children ih =>
    obtain ⟨hchild, hchildren⟩ := List.forall_mem_cons.mp h
    have hrest := ih hchildren
    refine ⟨?_, by simp only [flowAny, hchild.dry, hrest.dry, List.append_nil]⟩
    intro stream
    rw [stepAny, hchild.answer, hrest.answer]
    rfl

/-- If the names in a pattern have answers, the pattern has the answer of its flow. -/
theorem step_follows {pattern : Pattern}
    (h : ∀ name ∈ pattern.references, (steps name).Follows (flows name)) :
    (pattern.step steps).Follows (pattern.flow flows) := by
  induction pattern, h using referenceInduction with
  | always h => exact ⟨fun _ => rfl, rfl⟩
  | card name h => exact Card.step_follows name
  | named name h hname => exact hname
  | all children h ih => exact stepAll_follows ih
  | any children h ih => exact stepAny_follows ih
  | times count child h ih => exact ih.repeated count
  | absent child h ih => exact ih.refused

end Pattern

/-! ### Flows send each split on alone -/

namespace Flow

def Branching (flow : Flow) : Prop :=
  ∀ stream, (flow stream).Perm (stream.flatMap fun split => flow [split])

variable {first second : Flow}

theorem Branching.nil (h : first.Branching) : first [] = [] :=
  List.Perm.eq_nil (h [])

theorem Branching.append (h : first.Branching) (left right : List Split) :
    (first (left ++ right)).Perm (first left ++ first right) := by
  refine (h (left ++ right)).trans ?_
  rw [List.flatMap_append]
  exact ((h left).append (h right)).symm

theorem Branching.perm (h : first.Branching) {left right : List Split} (hperm : left.Perm right) :
    (first left).Perm (first right) :=
  (h left).trans ((hperm.flatMap_right _).trans (h right).symm)

theorem branching_id : Branching id := fun stream => by simp

theorem branching_filter (keep : Split → Bool) : Branching (List.filter keep) := by
  intro stream
  induction stream with
  | nil => rfl
  | cons split stream ih =>
    rw [← List.singleton_append, List.filter_append, List.singleton_append, List.flatMap_cons]
    exact (List.Perm.refl _).append ih

theorem branching_map (change : Split → Split) : Branching (List.map change) := fun stream => by
  simp [List.map_eq_flatMap]

theorem Branching.comp (hsecond : second.Branching) (hfirst : first.Branching) :
    Branching (second ∘ first) := by
  intro stream
  refine (hsecond.perm (hfirst stream)).trans ((hsecond _).trans ?_)
  rw [List.flatMap_assoc]
  exact List.Perm.flatMap_left stream fun split _ => (hsecond (first [split])).symm

theorem Branching.iterate (h : first.Branching) (count : Nat) : Branching first^[count] := by
  induction count with
  | zero => exact branching_id
  | succ count ih => exact ih.comp h

theorem Branching.side (hfirst : first.Branching) (hsecond : second.Branching) :
    Branching fun stream => first stream ++ second stream := by
  intro stream
  refine ((hfirst stream).append (hsecond stream)).trans ?_
  exact List.flatMap_append_perm stream _ _

end Flow

theorem Card.flow_branching (card : Card) : (Card.flow card).Branching :=
  (Flow.branching_map _).comp (Flow.branching_filter _)

namespace Pattern

variable {flows : String → Flow}

theorem flowAll_branching {children : List Pattern}
    (h : ∀ child ∈ children, (child.flow flows).Branching) :
    (flowAll flows children).Branching := by
  induction children with
  | nil => exact Flow.branching_id
  | cons child children ih =>
    obtain ⟨hchild, hchildren⟩ := List.forall_mem_cons.mp h
    exact (ih hchildren).comp hchild

theorem flowAny_branching {children : List Pattern}
    (h : ∀ child ∈ children, (child.flow flows).Branching) :
    (flowAny flows children).Branching := by
  induction children with
  | nil => exact fun stream => by simp [flowAny]
  | cons child children ih =>
    obtain ⟨hchild, hchildren⟩ := List.forall_mem_cons.mp h
    exact hchild.side (ih hchildren)

/-- If the names in a pattern branch, the pattern branches. -/
theorem flow_branching {pattern : Pattern}
    (h : ∀ name ∈ pattern.references, (flows name).Branching) :
    (pattern.flow flows).Branching := by
  induction pattern, h using referenceInduction with
  | always h => exact Flow.branching_id
  | card name h => exact Card.flow_branching name
  | named name h hname => exact hname
  | all children h ih => exact flowAll_branching ih
  | any children h ih => exact flowAny_branching ih
  | times count child h ih => exact ih.iterate count
  | absent child h _ => exact Flow.branching_filter _

end Pattern

end OpeningHand
