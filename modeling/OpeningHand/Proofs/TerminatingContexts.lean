import Mathlib.Data.Set.Finite.List
import Mathlib.Data.Set.Finite.Lattice
import Mathlib.Order.Filter.Finite
import OpeningHand.Proofs.BoundedReferences

/-!
# Contexts in which evaluation always ends

References may lead back and evaluation may still end, if cards are used on the way. In such a context a
name has a flow, every pattern yields its flow, and so its row is the composition of the children and its
repetition their iteration: leaving a loop early, at a stream that has run dry or that has settled, never
shows in a result.
-/

namespace OpeningHand

open Filter

/-! ### Steps that approach a limit -/

namespace Step

/-- Every result of the limit is a result of the steps from some depth on. -/
def Approach (steps : Nat → Step) (limit : Step) : Prop :=
  ∀ stream out, limit stream = .ok out → ∀ᶠ depth in atTop, steps depth stream = .ok out

variable {steps : Nat → Step} {limit : Step}

theorem approach_self (step : Step) : Approach (fun _ => step) step :=
  fun _ _ h => .of_forall fun _ => h

theorem Approach.repeated (h : Approach steps limit) (count : Nat) :
    Approach (fun depth => (steps depth).repeated count) (limit.repeated count) := by
  induction count with
  | zero => exact approach_self _
  | succ count ih =>
    intro stream out hout
    rw [Step.repeated] at hout
    split at hout
    · next hempty =>
      refine .of_forall fun depth => ?_
      beta_reduce
      rw [Step.repeated, if_pos hempty, ← hout]
    · next hempty =>
      obtain ⟨next, hnext, hrest⟩ := exists_of_bind_eq_ok hout
      split at hrest
      · next hsettled =>
        filter_upwards [h stream next hnext] with depth hdepth
        rw [Step.repeated, if_neg hempty, hdepth, ← hrest]
        exact if_pos hsettled
      · next hsettled =>
        filter_upwards [h stream next hnext, ih next out hrest] with depth hdepth hlater
        rw [Step.repeated, if_neg hempty, hdepth, ← hlater]
        exact if_neg hsettled

theorem Approach.refused (h : Approach steps limit) :
    Approach (fun depth => (steps depth).refused) limit.refused := by
  intro stream
  induction stream with
  | nil => exact approach_self _ []
  | cons split stream ih =>
    intro out hout
    rw [Step.refused] at hout
    obtain ⟨found, hfound, hout⟩ := exists_of_bind_eq_ok hout
    obtain ⟨others, hothers, hout⟩ := exists_of_bind_eq_ok hout
    filter_upwards [h _ _ hfound, ih _ hothers] with depth hfirst hrest
    rw [Step.refused, hfirst, hrest, ← hout]
    rfl

end Step

namespace Pattern

variable {steps : Nat → String → Step} {limit : String → Step}

theorem stepAll_approach {children : List Pattern}
    (h : ∀ child ∈ children, Step.Approach (fun depth => child.step (steps depth)) (child.step limit)) :
    Step.Approach (fun depth => stepAll (steps depth) children) (stepAll limit children) := by
  induction children with
  | nil => exact Step.approach_self _
  | cons child children ih =>
    obtain ⟨hchild, hchildren⟩ := List.forall_mem_cons.mp h
    intro stream out hout
    rw [stepAll] at hout
    split at hout
    · next hempty =>
      refine .of_forall fun depth => ?_
      beta_reduce
      rw [stepAll, if_pos hempty, ← hout]
    · next hempty =>
      obtain ⟨next, hnext, hrest⟩ := exists_of_bind_eq_ok hout
      filter_upwards [hchild _ _ hnext, ih hchildren _ _ hrest] with depth hdepth hlater
      rw [stepAll, if_neg hempty, hdepth]
      exact hlater

theorem stepAny_approach {children : List Pattern}
    (h : ∀ child ∈ children, Step.Approach (fun depth => child.step (steps depth)) (child.step limit)) :
    Step.Approach (fun depth => stepAny (steps depth) children) (stepAny limit children) := by
  induction children with
  | nil => exact Step.approach_self _
  | cons child children ih =>
    obtain ⟨hchild, hchildren⟩ := List.forall_mem_cons.mp h
    intro stream out hout
    rw [stepAny] at hout
    obtain ⟨first, hfirst, hout⟩ := exists_of_bind_eq_ok hout
    obtain ⟨rest, hrest, hout⟩ := exists_of_bind_eq_ok hout
    filter_upwards [hchild _ _ hfirst, ih hchildren _ _ hrest] with depth hdepth hlater
    rw [stepAny, hdepth, hlater, ← hout]
    rfl

/-- An evaluation asks its names for finitely many results only, so it has its own result as soon as
they have theirs. -/
theorem step_approach (h : ∀ name, Step.Approach (fun depth => steps depth name) (limit name))
    (pattern : Pattern) :
    Step.Approach (fun depth => pattern.step (steps depth)) (pattern.step limit) := by
  induction pattern with
  | always => exact Step.approach_self _
  | card name => exact Step.approach_self _
  | named name => exact h name
  | all children ih => exact stepAll_approach ih
  | any children ih => exact stepAny_approach ih
  | times count child ih => exact ih.repeated count
  | absent child ih => exact ih.refused

/-- A row can be gone through child by child, if nothing comes of a dry stream. -/
theorem stepAll_cons_eq_ok {steps : String → Step} {child : Pattern} {children : List Pattern}
    {stream next out : List Split} (hchild : child.step steps stream = .ok next)
    (hrest : stepAll steps children next = .ok out) (hdry : stream = [] → out = []) :
    stepAll steps (child :: children) stream = .ok out := by
  rw [stepAll]
  split
  · next hempty =>
    have hstream := List.isEmpty_iff.mp hempty
    rw [hstream, hdry hstream]
  · rw [hchild]
    exact hrest

theorem flowAll_eq_foldl {flows : String → Flow} (children : List Pattern) (stream : List Split) :
    flowAll flows children stream =
      children.foldl (fun before child => child.flow flows before) stream := by
  induction children generalizing stream with
  | nil => rfl
  | cons child children ih =>
    rw [flowAll, Function.comp_apply, ih, List.foldl_cons]

theorem flowAll_replicate {flows : String → Flow} (count : Nat) (child : Pattern) :
    flowAll flows (List.replicate count child) = (child.flow flows)^[count] := by
  induction count with
  | zero => rfl
  | succ count ih => rw [List.replicate_succ, flowAll, ih, Function.iterate_succ]

end Pattern

/-! ### Evaluation that always ends -/

namespace Context

variable {context : Context}

/-- Evaluation of every pattern on every stream comes to an end. -/
structure Terminating (context : Context) : Prop where
  exists_yields : ∀ pattern stream, ∃ out, context.Yields pattern stream out

theorem Yields.eq_nil {pattern : Pattern} {out : List Split} (h : context.Yields pattern [] out) :
    out = [] := by
  obtain ⟨depth, hdepth⟩ := h.eventually_flow.exists
  rw [← hdepth, (context.branching_within depth pattern).nil]

theorem Yields.named {name : String} {found : Pattern} {stream out : List Split}
    (hfound : context.resolve name = some found) (h : context.Yields found stream out) :
    context.Yields (.named name) stream out := by
  obtain ⟨depth, hout⟩ := h
  refine ⟨depth + 1, ?_⟩
  rw [step_eq_lookup]
  exact (lookup_succ_of_some hfound depth stream).trans hout

/-- If each name yields its flow, so does each pattern. -/
theorem yields_flow_of_names {flows : String → Flow}
    (h : ∀ name stream, context.Yields (.named name) stream (flows name stream))
    (pattern : Pattern) (stream : List Split) :
    context.Yields pattern stream (pattern.flow flows stream) := by
  have hfollows : (pattern.step fun name stream => .ok (flows name stream)).Follows
      (pattern.flow flows) :=
    Pattern.step_follows fun name _ => ⟨fun _ => rfl, (h name []).eq_nil⟩
  have happroach : Step.Approach (fun depth => pattern.step (context.lookup depth))
      (pattern.step fun name stream => .ok (flows name stream)) := by
    apply Pattern.step_approach
    rintro name stream _ ⟨⟩
    obtain ⟨depth, hdepth⟩ := h name stream
    filter_upwards [eventually_ge_atTop depth] with deeper hdeeper
    have hout := context.step_below_of_le hdeeper (.named name) stream _ hdepth
    rwa [step_eq_lookup] at hout
  obtain ⟨depth, hdepth⟩ := (happroach stream _ (hfollows.answer stream)).exists
  exact ⟨depth, (congrFun (step_eq_lookup context depth pattern) stream).trans hdepth⟩

namespace Terminating

/-- It is enough that evaluation of the names comes to an end. -/
theorem of_names (h : ∀ name stream, ∃ out, context.Yields (.named name) stream out) :
    context.Terminating := by
  choose flows hflows using h
  exact ⟨fun pattern stream => ⟨_, yields_flow_of_names hflows pattern stream⟩⟩

noncomputable def flow (terminating : context.Terminating) (name : String) : Flow := fun stream =>
  (terminating.exists_yields (.named name) stream).choose

theorem yields_flow (terminating : context.Terminating) (pattern : Pattern) (stream : List Split) :
    context.Yields pattern stream (pattern.flow terminating.flow stream) :=
  yields_flow_of_names (fun name stream => (terminating.exists_yields (.named name) stream).choose_spec)
    pattern stream

theorem yields_iff (terminating : context.Terminating) {pattern : Pattern} {stream out : List Split} :
    context.Yields pattern stream out ↔ out = pattern.flow terminating.flow stream := by
  constructor
  · exact fun h => h.unique (terminating.yields_flow pattern stream)
  · rintro rfl
    exact terminating.yields_flow pattern stream

theorem flow_of_some (terminating : context.Terminating) {name : String} {found : Pattern}
    (h : context.resolve name = some found) : terminating.flow name = found.flow terminating.flow := by
  funext stream
  have hnamed := (terminating.yields_flow found stream).named h
  exact (terminating.yields_iff.mp hnamed).symm

/-- On finitely many streams, a pattern has its flow at every sufficient depth. -/
theorem eventually_flow_eq (terminating : context.Terminating) (pattern : Pattern)
    {streams : Set (List Split)} (h : streams.Finite) :
    ∀ᶠ depth in atTop, ∀ stream ∈ streams,
      pattern.flow (context.flowWithin depth) stream = pattern.flow terminating.flow stream :=
  (eventually_all_finite h).mpr fun stream _ => (terminating.yields_flow pattern stream).eventually_flow

theorem branching (terminating : context.Terminating) (pattern : Pattern) :
    (pattern.flow terminating.flow).Branching := by
  intro stream
  have hsplits : {single | ∃ split ∈ stream, [split] = single}.Finite :=
    (List.finite_toSet stream).image _
  obtain ⟨depth, hstream, hsplits⟩ :=
    ((terminating.yields_flow pattern stream).eventually_flow.and
      (terminating.eventually_flow_eq pattern hsplits)).exists
  rw [← hstream]
  refine (context.branching_within depth pattern stream).trans (List.Perm.of_eq ?_)
  apply List.flatMap_congr
  exact fun split hsplit => hsplits [split] ⟨split, hsplit, rfl⟩

end Terminating

theorem Acyclic.terminating (acyclic : context.Acyclic) : context.Terminating :=
  ⟨fun pattern stream => ⟨_, acyclic.yields_flow pattern stream⟩⟩

/-- Where evaluation always ends, each pattern has one result on each stream, and none on a dry one. The
result of a row is the composition of the results of all its children, and the result of a repetition is
that of its child as many times over, or of a row of as many copies: no loop that is left early shows. -/
theorem Terminating.yields_foldl_iterate (terminating : context.Terminating) :
    ∃ result : Pattern → Flow,
      (∀ pattern stream out, context.Yields pattern stream out ↔ out = result pattern stream) ∧
      (∀ pattern, result pattern [] = []) ∧
      (∀ children stream, result (.all children) stream =
        children.foldl (fun before child => result child before) stream) ∧
      ∀ count child stream, result (.times count child) stream = (result child)^[count] stream ∧
        result (.times count child) stream = result (.all (List.replicate count child)) stream := by
  refine ⟨fun pattern => pattern.flow terminating.flow, ?_, ?_, ?_, ?_⟩
  · exact fun pattern stream out => terminating.yields_iff
  · exact fun pattern => (terminating.branching pattern).nil
  · exact fun children stream => Pattern.flowAll_eq_foldl children stream
  · intro count child stream
    refine ⟨rfl, ?_⟩
    change (child.flow terminating.flow)^[count] stream = Pattern.flowAll _ _ stream
    rw [Pattern.flowAll_replicate]

/-! ### A name that leads back to itself -/

def runPattern : Pattern :=
  .any [.always, .all [.card "forest", .named "run"]]

/-- The only name stands for a pattern that refers to it again, behind a card. -/
def runContext : Context :=
  ⟨fun name => if name = "run" then some runPattern else none, fun _ => true⟩

theorem size_lt_of_mem_flow (card : Card) {stream : List Split} {bound : Nat}
    (h : ∀ split ∈ stream, split.remaining.size < bound + 1) :
    ∀ split ∈ card.flow stream, split.remaining.size < bound := by
  intro after hafter
  obtain ⟨before, hbefore, rfl⟩ := List.mem_map.mp hafter
  obtain ⟨hmem, hhas⟩ := List.mem_filter.mp hbefore
  have hcard : card ∈ before.remaining.cards := (Pile.has_eq_true_iff _ _).mp hhas
  have hlength := List.length_erase_of_mem hcard
  have hsize := h before hmem
  have hpos := List.length_pos_of_mem hcard
  rw [Pile.size] at hsize
  change (before.remaining.cards.erase card).length < bound
  omega

/-- Each lookup uses a forest, so there are enough of them if there are more than cards. -/
theorem exists_lookup_run {bound : Nat} {stream : List Split}
    (h : ∀ split ∈ stream, split.remaining.size < bound) :
    ∃ out, runContext.lookup (bound + 1) "run" stream = .ok out := by
  have hrun : runContext.resolve "run" = some runPattern := rfl
  induction bound generalizing stream with
  | zero =>
    have hempty : stream = [] := List.eq_nil_iff_forall_not_mem.mpr fun split hsplit =>
      Nat.not_lt_zero _ (h split hsplit)
    exact ⟨[], by rw [hempty]; rfl⟩
  | succ bound ih =>
    have hcard := (Card.step_follows "forest").answer stream
    obtain ⟨out, hout⟩ := ih (size_lt_of_mem_flow "forest" h)
    have hdry : Card.flow "forest" stream = [] → out = [] := by
      intro hnext
      have hyields : runContext.Yields (.named "run") (Card.flow "forest" stream) out :=
        ⟨bound + 1, hout⟩
      rw [hnext] at hyields
      exact hyields.eq_nil
    have hnamed : Pattern.stepAll (runContext.lookup (bound + 1)) [.named "run"]
        (Card.flow "forest" stream) = .ok out := Pattern.stepAll_cons_eq_ok hout rfl hdry
    have hrest : (Pattern.all [.card "forest", .named "run"]).step (runContext.lookup (bound + 1))
        stream = .ok out := by
      refine Pattern.stepAll_cons_eq_ok hcard hnamed fun hstream => hdry ?_
      rw [hstream]
      rfl
    refine ⟨stream ++ (out ++ []), ?_⟩
    rw [lookup_succ_of_some hrun, step_eq_lookup, runPattern, Pattern.step, Pattern.stepAny,
      Pattern.stepAny, hrest]
    rfl

theorem runContext_terminating : runContext.Terminating := by
  apply Terminating.of_names
  intro name stream
  by_cases hname : name = "run"
  · subst hname
    obtain ⟨bound, hbound⟩ := ((List.finite_toSet stream).image (·.remaining.size)).bddAbove
    have hsize : ∀ split ∈ stream, split.remaining.size < bound + 1 := fun split hsplit =>
      Nat.lt_succ_of_le (hbound ⟨split, hsplit, rfl⟩)
    obtain ⟨out, hout⟩ := exists_lookup_run hsize
    refine ⟨out, bound + 2, ?_⟩
    rwa [step_eq_lookup]
  · have hnone : runContext.resolve name = none := if_neg hname
    exact ⟨[], 0, lookup_of_none hnone 0 stream⟩

theorem runContext_not_acyclic : ¬runContext.Acyclic := by
  intro acyclic
  have hmentioned : runContext.MentionedBy "run" "run" := ⟨runPattern, rfl, List.mem_cons_self⟩
  exact acyclic.wellFounded.asymmetric _ _ hmentioned hmentioned

theorem yields_foldl_iterate_run :
    runContext.Terminating ∧
      runContext.Yields (.all (List.replicate 2 (.named "run"))) [.ofHand ⟨["forest"]⟩]
        [⟨⟨["forest"]⟩, ⟨[]⟩⟩, ⟨⟨[]⟩, ⟨["forest"]⟩⟩, ⟨⟨[]⟩, ⟨["forest"]⟩⟩] := by
  have htwice : runContext.Yields (.times 2 (.named "run")) [.ofHand ⟨["forest"]⟩]
      [⟨⟨["forest"]⟩, ⟨[]⟩⟩, ⟨⟨[]⟩, ⟨["forest"]⟩⟩, ⟨⟨[]⟩, ⟨["forest"]⟩⟩] := ⟨3, by decide⟩
  obtain ⟨result, hresult, -, -, hrepeated⟩ := runContext_terminating.yields_foldl_iterate
  refine ⟨runContext_terminating, ?_⟩
  rw [hresult] at htwice ⊢
  rw [htwice, (hrepeated 2 (.named "run") _).2]

end Context

end OpeningHand
