import Mathlib.Order.Filter.AtTopBot.Basic
import OpeningHand.Proofs.ReferenceNesting

/-!
# References followed up to a depth

Behind a given depth every name can be taken to lead nowhere. Each name then has a flow, in every context,
whether references come to an end or not. A result of an evaluation is the result of the flows at all
depths from some depth on; so what flows have in common at every depth, all results have.
-/

namespace OpeningHand

namespace Pattern

variable {steps : String → Step} {flows : String → Flow}

/-- A result is that of the flow, if the results of the names are those of their flows. -/
theorem flow_of_step_eq_ok (hnames : ∀ name, (steps name).Below fun stream => .ok (flows name stream))
    (hdry : ∀ name, flows name [] = []) {pattern : Pattern} {stream out : List Split}
    (h : pattern.step steps stream = .ok out) : pattern.flow flows stream = out := by
  have hfollows : (pattern.step fun name stream => .ok (flows name stream)).Follows
      (pattern.flow flows) := step_follows fun name _ => ⟨fun _ => rfl, hdry name⟩
  have hout := step_below hnames pattern stream out h
  rw [hfollows.answer] at hout
  exact Except.ok.inj hout

end Pattern

namespace Context

variable {context : Context} {pattern : Pattern} {stream out : List Split} {depth : Nat}
  {name : String} {found : Pattern}

def flowWithin (context : Context) : Nat → String → Flow
  | 0, _ => fun _ => []
  | depth + 1, name =>
    match context.resolve name with
    | none => fun _ => []
    | some found => found.flow (context.flowWithin depth)

theorem flowWithin_of_none (h : context.resolve name = none) (depth : Nat) :
    context.flowWithin depth name = fun _ => [] := by
  cases depth with
  | zero => rfl
  | succ depth => rw [flowWithin, h]

theorem flowWithin_succ_of_some (h : context.resolve name = some found) (depth : Nat) :
    context.flowWithin (depth + 1) name = found.flow (context.flowWithin depth) := by
  rw [flowWithin, h]

/-- A property of flows that patterns take over from their names, and that the flow leading nowhere
has, holds of every name at every depth. -/
theorem flowWithin_induction {motive : Flow → Prop} (nowhere : motive fun _ => [])
    (pattern : ∀ flows : String → Flow, (∀ name, motive (flows name)) →
      ∀ pattern : Pattern, motive (pattern.flow flows))
    (context : Context) (depth : Nat) (name : String) : motive (context.flowWithin depth name) := by
  induction depth generalizing name with
  | zero => exact nowhere
  | succ depth ih =>
    cases hfound : context.resolve name with
    | none => rwa [flowWithin_of_none hfound]
    | some found =>
      rw [flowWithin_succ_of_some hfound]
      exact pattern _ ih found

theorem branching_within (context : Context) (depth : Nat) (pattern : Pattern) :
    (pattern.flow (context.flowWithin depth)).Branching := by
  apply Pattern.flow_branching
  intro name _
  refine flowWithin_induction ?_ ?_ context depth name
  · exact fun stream => by simp
  · exact fun flows hflows pattern => Pattern.flow_branching fun name _ => hflows name

theorem lookup_below_flowWithin (context : Context) (depth : Nat) (name : String) :
    (context.lookup depth name).Below fun stream => .ok (context.flowWithin depth name stream) := by
  induction depth generalizing name with
  | zero =>
    intro stream out hout
    cases hfound : context.resolve name with
    | none => rwa [lookup_of_none hfound] at hout
    | some found =>
      rw [lookup_zero_of_some hfound] at hout
      cases hout
  | succ depth ih =>
    intro stream out hout
    cases hfound : context.resolve name with
    | none =>
      rw [lookup_of_none hfound] at hout
      rwa [flowWithin_of_none hfound]
    | some found =>
      rw [lookup_succ_of_some hfound, step_eq_lookup] at hout
      have hdry := fun name => (context.branching_within depth (.named name)).nil
      rw [flowWithin_succ_of_some hfound, ← Pattern.flow_of_step_eq_ok ih hdry hout]

/-- A result at some depth is that of the flow at this depth. -/
theorem flow_of_step_eq_ok (h : context.step depth pattern stream = .ok out) :
    pattern.flow (context.flowWithin depth) stream = out := by
  rw [step_eq_lookup] at h
  exact Pattern.flow_of_step_eq_ok (context.lookup_below_flowWithin depth)
    (fun name => (context.branching_within depth (.named name)).nil) h

/-- A result is that of the flow at every sufficient depth. -/
theorem Yields.eventually_flow (h : context.Yields pattern stream out) :
    ∀ᶠ depth in Filter.atTop, pattern.flow (context.flowWithin depth) stream = out := by
  obtain ⟨depth, hout⟩ := h
  filter_upwards [Filter.eventually_ge_atTop depth] with deeper hdeeper
  exact flow_of_step_eq_ok (context.step_below_of_le hdeeper pattern stream out hout)

/-- Where the depth suffices for the references in a pattern, evaluation has the result of the flow. -/
theorem Suffices.step_follows (h : context.Suffices depth pattern) :
    (context.step depth pattern).Follows (pattern.flow (context.flowWithin depth)) := by
  induction depth generalizing pattern with
  | zero =>
    rw [step_eq_lookup]
    apply Pattern.step_follows
    intro name hname
    exact ⟨lookup_of_none (h name hname) 0, rfl⟩
  | succ depth ih =>
    rw [step_eq_lookup]
    apply Pattern.step_follows
    intro name hname
    cases hfound : context.resolve name with
    | none =>
      rw [flowWithin_of_none hfound]
      exact ⟨lookup_of_none hfound _, rfl⟩
    | some found =>
      have hfollows := ih (h name hname found hfound)
      rw [flowWithin_succ_of_some hfound]
      refine ⟨?_, hfollows.dry⟩
      intro stream
      rw [lookup_succ_of_some hfound, hfollows.answer]

end Context

end OpeningHand
