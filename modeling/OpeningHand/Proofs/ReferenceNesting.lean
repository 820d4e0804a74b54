import OpeningHand.Proofs.Outcomes
import OpeningHand.Proofs.StreamFlow

/-!
# References into a context

A lookup inside a lookup uses up one level of depth. A result that is there at some depth is there at
every larger one, so a pattern yields at most one stream. In an acyclic context references lead
downwards: what a name amounts to is given by recursion along its references, and every pattern yields
its flow.
-/

namespace OpeningHand

universe u

/-! ### More depth changes no result -/

namespace Step

/-- Wherever the step has a result, the other one has it as well. -/
def Below (step other : Step) : Prop :=
  ∀ stream out, step stream = .ok out → other stream = .ok out

variable {step other : Step}

theorem Below.refl (step : Step) : step.Below step := fun _ _ h => h

theorem Below.repeated (h : step.Below other) (count : Nat) :
    (step.repeated count).Below (other.repeated count) := by
  induction count with
  | zero => exact Below.refl _
  | succ count ih =>
    intro stream out hout
    rw [Step.repeated] at hout ⊢
    split at hout
    · next hempty => rw [if_pos hempty, ← hout]
    · next hempty =>
      obtain ⟨next, hnext, hrest⟩ := exists_of_bind_eq_ok hout
      rw [if_neg hempty, h stream next hnext]
      change (if next = stream then _ else _) = _
      split at hrest
      · next hsettled => rw [if_pos hsettled, ← hrest]
      · next hsettled =>
        rw [if_neg hsettled]
        exact ih next out hrest

theorem Below.refused (h : step.Below other) : step.refused.Below other.refused := by
  intro stream
  induction stream with
  | nil => exact fun _ hout => hout
  | cons split stream ih =>
    intro out hout
    rw [Step.refused] at hout ⊢
    obtain ⟨found, hfound, hout⟩ := exists_of_bind_eq_ok hout
    obtain ⟨others, hothers, hout⟩ := exists_of_bind_eq_ok hout
    rw [h _ _ hfound, ih _ hothers, ← hout]
    rfl

end Step

namespace Pattern

variable {steps others : String → Step}

theorem stepAll_below {children : List Pattern}
    (h : ∀ child ∈ children, (child.step steps).Below (child.step others)) :
    (stepAll steps children).Below (stepAll others children) := by
  induction children with
  | nil => exact Step.Below.refl _
  | cons child children ih =>
    obtain ⟨hchild, hchildren⟩ := List.forall_mem_cons.mp h
    intro stream out hout
    rw [stepAll] at hout ⊢
    split at hout
    · next hempty => rw [if_pos hempty, ← hout]
    · next hempty =>
      obtain ⟨next, hnext, hrest⟩ := exists_of_bind_eq_ok hout
      rw [if_neg hempty, hchild _ _ hnext]
      exact ih hchildren _ _ hrest

theorem stepAny_below {children : List Pattern}
    (h : ∀ child ∈ children, (child.step steps).Below (child.step others)) :
    (stepAny steps children).Below (stepAny others children) := by
  induction children with
  | nil => exact Step.Below.refl _
  | cons child children ih =>
    obtain ⟨hchild, hchildren⟩ := List.forall_mem_cons.mp h
    intro stream out hout
    rw [stepAny] at hout ⊢
    obtain ⟨first, hfirst, hout⟩ := exists_of_bind_eq_ok hout
    obtain ⟨rest, hrest, hout⟩ := exists_of_bind_eq_ok hout
    rw [hchild _ _ hfirst, ih hchildren _ _ hrest, ← hout]
    rfl

/-- A pattern keeps its result when the names in it get more results. -/
theorem step_below (h : ∀ name, (steps name).Below (others name)) (pattern : Pattern) :
    (pattern.step steps).Below (pattern.step others) := by
  induction pattern with
  | always => exact Step.Below.refl _
  | card name => exact Step.Below.refl _
  | named name => exact h name
  | all children ih => exact stepAll_below ih
  | any children ih => exact stepAny_below ih
  | times count child ih => exact ih.repeated count
  | absent child ih => exact ih.refused

end Pattern

namespace Context

variable {context : Context}

/-- The step of a name when lookups inside it may be nested up to a given depth. -/
def lookup (context : Context) : Nat → String → Step
  | 0, name => fun _ =>
    match context.resolve name with
    | none => .ok []
    | some _ => .error .endlessReference
  | depth + 1, name => fun stream =>
    match context.resolve name with
    | none => .ok []
    | some found => context.step depth found stream

theorem step_eq_lookup (context : Context) (depth : Nat) (pattern : Pattern) :
    context.step depth pattern = pattern.step (context.lookup depth) := by
  cases depth <;> rfl

theorem lookup_of_none {name : String} (h : context.resolve name = none) (depth : Nat)
    (stream : List Split) : context.lookup depth name stream = .ok [] := by
  cases depth <;> rw [lookup, h]

theorem lookup_zero_of_some {name : String} {found : Pattern}
    (h : context.resolve name = some found) (stream : List Split) :
    context.lookup 0 name stream = .error .endlessReference := by
  rw [lookup, h]

theorem lookup_succ_of_some {name : String} {found : Pattern}
    (h : context.resolve name = some found) (depth : Nat) (stream : List Split) :
    context.lookup (depth + 1) name stream = context.step depth found stream := by
  rw [lookup, h]

theorem lookup_below (context : Context) (depth : Nat) (name : String) :
    (context.lookup depth name).Below (context.lookup (depth + 1) name) := by
  intro stream out hout
  induction depth generalizing name stream out with
  | zero =>
    cases h : context.resolve name with
    | none => rwa [lookup_of_none h] at hout ⊢
    | some found => rw [lookup_zero_of_some h] at hout; cases hout
  | succ depth ih =>
    cases h : context.resolve name with
    | none => rwa [lookup_of_none h] at hout ⊢
    | some found =>
      rw [lookup_succ_of_some h, step_eq_lookup] at hout ⊢
      exact Pattern.step_below (fun name stream out => ih name stream out) found stream out hout

/-- A result stays the same when lookups may be nested more deeply. -/
theorem step_below_of_le (context : Context) {depth deeper : Nat} (h : depth ≤ deeper)
    (pattern : Pattern) : (context.step depth pattern).Below (context.step deeper pattern) := by
  induction h with
  | refl => exact Step.Below.refl _
  | @step deeper _ ih =>
    intro stream out hout
    have hdeeper := ih stream out hout
    rw [step_eq_lookup] at hdeeper ⊢
    exact Pattern.step_below (context.lookup_below deeper) pattern stream out hdeeper

/-- Evaluation of the pattern on the stream comes to an end, with the given outcome. -/
def Yields (context : Context) (pattern : Pattern) (stream out : List Split) : Prop :=
  ∃ depth, context.step depth pattern stream = .ok out

theorem Yields.unique {pattern : Pattern} {stream out other : List Split}
    (h : context.Yields pattern stream out) (hother : context.Yields pattern stream other) :
    out = other := by
  obtain ⟨depth, hout⟩ := h
  obtain ⟨deeper, hother⟩ := hother
  have hleft := context.step_below_of_le (Nat.le_max_left depth deeper) pattern stream out hout
  have hright := context.step_below_of_le (Nat.le_max_right depth deeper) pattern stream other hother
  rw [hleft] at hright
  exact Except.ok.inj hright

/-! ### Acyclic contexts -/

def MentionedBy (context : Context) (target name : String) : Prop :=
  ∃ pattern, context.resolve name = some pattern ∧ target ∈ pattern.references

/-- Every way of following references comes to an end. For finitely many names this says that no name
leads back to itself. -/
structure Acyclic (context : Context) : Prop where
  wellFounded : WellFounded context.MentionedBy

/-- Enough depth for the lookups in a pattern: no name resolves at depth 0, and one level less is enough
for what a name resolves to. -/
def Suffices (context : Context) : Nat → Pattern → Prop
  | 0, pattern => ∀ name ∈ pattern.references, context.resolve name = none
  | depth + 1, pattern => ∀ name ∈ pattern.references, ∀ found,
      context.resolve name = some found → context.Suffices depth found

theorem Suffices.succ {depth : Nat} {pattern : Pattern} (h : context.Suffices depth pattern) :
    context.Suffices (depth + 1) pattern := by
  induction depth generalizing pattern with
  | zero =>
    intro name hname found hfound
    rw [h name hname] at hfound
    cases hfound
  | succ depth ih => exact fun name hname found hfound => ih (h name hname found hfound)

theorem Suffices.mono {depth deeper : Nat} {pattern : Pattern} (h : context.Suffices depth pattern)
    (hle : depth ≤ deeper) : context.Suffices deeper pattern := by
  induction hle with
  | refl => exact h
  | step _ ih => exact ih.succ

namespace Acyclic

variable {α : Type u}

/-- What a name of an acyclic context amounts to, if an unresolved name amounts to `missing`, and
`interpret` gives what a pattern amounts to from what the names in it do. -/
noncomputable def meaning (acyclic : context.Acyclic) (missing : α)
    (interpret : (String → α) → Pattern → α) : String → α :=
  acyclic.wellFounded.fix fun name below =>
    match found : context.resolve name with
    | none => missing
    | some pattern => interpret (fun target =>
        if h : target ∈ pattern.references then below target ⟨pattern, found, h⟩ else missing) pattern

variable {missing : α} {interpret : (String → α) → Pattern → α}

theorem meaning_of_none (acyclic : context.Acyclic) {name : String}
    (h : context.resolve name = none) : acyclic.meaning missing interpret name = missing := by
  rw [meaning, WellFounded.fix_eq]
  split
  · rfl
  · next found => rw [h] at found; cases found

/-- An interpretation that looks only at the names in a pattern gives each name the meaning of its
pattern. -/
theorem meaning_of_some (acyclic : context.Acyclic)
    (hlocal : ∀ pattern f g, (∀ target ∈ pattern.references, f target = g target) →
      interpret f pattern = interpret g pattern)
    {name : String} {pattern : Pattern} (h : context.resolve name = some pattern) :
    acyclic.meaning missing interpret name =
      interpret (acyclic.meaning missing interpret) pattern := by
  rw [meaning, WellFounded.fix_eq]
  split
  · next found => rw [h] at found; cases found
  · next other found =>
    obtain rfl : pattern = other := Option.some.inj (h.symm.trans found)
    apply hlocal
    intro target htarget
    exact dif_pos htarget

noncomputable def flow (acyclic : context.Acyclic) : String → Flow :=
  acyclic.meaning (fun _ => []) Pattern.flow

theorem flow_of_none (acyclic : context.Acyclic) {name : String}
    (h : context.resolve name = none) : acyclic.flow name = fun _ => [] :=
  acyclic.meaning_of_none h

theorem flow_of_some (acyclic : context.Acyclic) {name : String} {pattern : Pattern}
    (h : context.resolve name = some pattern) : acyclic.flow name = pattern.flow acyclic.flow :=
  acyclic.meaning_of_some (fun _ _ _ => Pattern.flow_congr) h

/-- A property of names that each of them inherits from the names it mentions holds of all names. -/
theorem nameInduction (acyclic : context.Acyclic) {motive : String → Prop}
    (unresolved : ∀ name, context.resolve name = none → motive name)
    (resolved : ∀ name pattern, context.resolve name = some pattern →
      (∀ target ∈ pattern.references, motive target) → motive name) (name : String) :
    motive name := by
  induction name using acyclic.wellFounded.induction with
  | _ name ih =>
    cases h : context.resolve name with
    | none => exact unresolved name h
    | some pattern => exact resolved name pattern h fun target htarget => ih target ⟨pattern, h, htarget⟩

/-- One depth that suffices for all of the names in a row. -/
private theorem exists_suffices_row {names : List String}
    (h : ∀ name ∈ names, ∃ depth, ∀ found, context.resolve name = some found →
      context.Suffices depth found) :
    ∃ depth, ∀ name ∈ names, ∀ found, context.resolve name = some found →
      context.Suffices depth found := by
  induction names with
  | nil => exact ⟨0, List.forall_mem_nil _⟩
  | cons name names ih =>
    obtain ⟨hname, hnames⟩ := List.forall_mem_cons.mp h
    obtain ⟨depth, hdepth⟩ := hname
    obtain ⟨deeper, hdeeper⟩ := ih hnames
    refine ⟨max depth deeper, List.forall_mem_cons.mpr ⟨?_, ?_⟩⟩
    · exact fun found hfound => (hdepth found hfound).mono (Nat.le_max_left _ _)
    · exact fun other hother found hfound =>
        (hdeeper other hother found hfound).mono (Nat.le_max_right _ _)

/-- Some depth suffices for a pattern. -/
theorem exists_suffices (acyclic : context.Acyclic) (pattern : Pattern) :
    ∃ depth, context.Suffices depth pattern := by
  have hnames : ∀ name, ∃ depth, ∀ found, context.resolve name = some found →
      context.Suffices depth found := by
    intro name
    induction name using acyclic.nameInduction with
    | unresolved name h => exact ⟨0, fun found hfound => by rw [h] at hfound; cases hfound⟩
    | resolved name pattern h ih =>
      obtain ⟨depth, hdepth⟩ := exists_suffices_row ih
      refine ⟨depth + 1, fun found hfound => ?_⟩
      obtain rfl : pattern = found := Option.some.inj (h.symm.trans hfound)
      exact hdepth
  obtain ⟨depth, hdepth⟩ := exists_suffices_row fun name (_ : name ∈ pattern.references) => hnames name
  exact ⟨depth + 1, hdepth⟩

/-- Where the depth suffices, the step of a pattern is its flow. -/
theorem step_follows (acyclic : context.Acyclic) {depth : Nat} {pattern : Pattern}
    (h : context.Suffices depth pattern) :
    (context.step depth pattern).Follows (pattern.flow acyclic.flow) := by
  induction depth generalizing pattern with
  | zero =>
    rw [step_eq_lookup]
    apply Pattern.step_follows
    intro name hname
    rw [acyclic.flow_of_none (h name hname)]
    exact ⟨lookup_of_none (h name hname) 0, rfl⟩
  | succ depth ih =>
    rw [step_eq_lookup]
    apply Pattern.step_follows
    intro name hname
    cases hfound : context.resolve name with
    | none =>
      rw [acyclic.flow_of_none hfound]
      exact ⟨lookup_of_none hfound _, rfl⟩
    | some found =>
      have hfollows := ih (h name hname found hfound)
      rw [acyclic.flow_of_some hfound]
      refine ⟨?_, hfollows.dry⟩
      intro stream
      rw [lookup_succ_of_some hfound, hfollows.answer]

/-- Every pattern yields its flow. -/
theorem yields_flow (acyclic : context.Acyclic) (pattern : Pattern) (stream : List Split) :
    context.Yields pattern stream (pattern.flow acyclic.flow stream) := by
  obtain ⟨depth, hdepth⟩ := acyclic.exists_suffices pattern
  exact ⟨depth, (acyclic.step_follows hdepth).answer stream⟩

theorem flow_branching (acyclic : context.Acyclic) (name : String) :
    (acyclic.flow name).Branching := by
  induction name using acyclic.nameInduction with
  | unresolved name h =>
    rw [acyclic.flow_of_none h]
    exact fun stream => by simp
  | resolved name pattern h ih =>
    rw [acyclic.flow_of_some h]
    exact Pattern.flow_branching ih

end Acyclic

end Context

end OpeningHand
