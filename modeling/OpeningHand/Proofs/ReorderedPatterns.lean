import OpeningHand.Proofs.CardOccurrences
import OpeningHand.Proofs.ReferenceNesting

/-!
# Patterns up to the order of children

The order in which the nodes of a pattern list their children does not change the names it refers to, nor
whether there are absences in it. If the patterns behind the names are reordered as well, the same holds
for what the names lead to.
-/

namespace OpeningHand

namespace Pattern

/-- The second pattern is the first one with the children of any of its nodes in another order. A child
is reordered in itself at the head of its row, where a change of the order can bring it. -/
inductive Reordered : Pattern → Pattern → Prop
  | refl (pattern : Pattern) : Reordered pattern pattern
  | trans {first second third : Pattern} (h : Reordered first second) (h' : Reordered second third) :
      Reordered first third
  | all {children others : List Pattern} (h : children.Perm others) :
      Reordered (all children) (all others)
  | any {children others : List Pattern} (h : children.Perm others) :
      Reordered (any children) (any others)
  | inAll {child other : Pattern} (children : List Pattern) (h : Reordered child other) :
      Reordered (.all (child :: children)) (.all (other :: children))
  | inAny {child other : Pattern} (children : List Pattern) (h : Reordered child other) :
      Reordered (.any (child :: children)) (.any (other :: children))
  | inTimes {child other : Pattern} (count : ℕ) (h : Reordered child other) :
      Reordered (times count child) (times count other)
  | inAbsent {child other : Pattern} (h : Reordered child other) :
      Reordered (absent child) (absent other)

namespace Reordered

variable {pattern other : Pattern} {context : Context}

theorem references_perm (h : pattern.Reordered other) : pattern.references.Perm other.references := by
  induction h with
  | refl pattern => rfl
  | trans _ _ ih ih' => exact ih.trans ih'
  | all h | any h =>
    simp only [references, rowReferences_eq_flatMap]
    exact h.flatMap_right references
  | inAll children _ ih | inAny children _ ih => exact ih.append_right (rowReferences children)
  | inTimes _ _ ih | inAbsent _ ih => exact ih

theorem affirmative (h : pattern.Reordered other) (hpattern : context.Affirmative pattern) :
    context.Affirmative other := by
  induction h with
  | refl pattern => exact hpattern
  | trans _ _ ih ih' => exact ih' (ih hpattern)
  | all h =>
    rw [Context.affirmative_all] at hpattern ⊢
    exact fun child hchild => hpattern child (h.mem_iff.mpr hchild)
  | any h =>
    rw [Context.affirmative_any] at hpattern ⊢
    exact fun child hchild => hpattern child (h.mem_iff.mpr hchild)
  | inAll children _ ih =>
    rw [Context.affirmative_all, List.forall_mem_cons] at hpattern ⊢
    exact hpattern.imp_left ih
  | inAny children _ ih =>
    rw [Context.affirmative_any, List.forall_mem_cons] at hpattern ⊢
    exact hpattern.imp_left ih
  | inTimes count _ ih => exact Context.affirmative_times.mpr (ih (Context.affirmative_times.mp hpattern))
  | inAbsent _ _ => exact (Context.not_affirmative_absent hpattern).elim

end Reordered

end Pattern

namespace Context

/-- Each name resolves to a pattern that is reordered, or to none as before. -/
def Reordered (context other : Context) : Prop :=
  ∀ name, Option.Rel Pattern.Reordered (context.resolve name) (other.resolve name)

variable {context other : Context} {pattern later found : Pattern}

theorem Reordered.refl (context : Context) : context.Reordered context := by
  intro name
  cases context.resolve name with
  | none => exact .none
  | some found => exact .some (.refl found)

theorem Reordered.resolve_eq_none_iff (h : context.Reordered other) (name : String) :
    context.resolve name = none ↔ other.resolve name = none := by
  have hname := h name
  generalize context.resolve name = before at hname ⊢
  generalize other.resolve name = found at hname ⊢
  cases hname with
  | none => rfl
  | some _ => exact iff_of_false (Option.some_ne_none _) (Option.some_ne_none _)

theorem Reordered.exists_of_some (h : context.Reordered other) {name : String}
    (hfound : other.resolve name = some found) :
    ∃ before, context.resolve name = some before ∧ before.Reordered found := by
  have hname := h name
  rw [hfound] at hname
  generalize context.resolve name = before at hname
  cases hname with
  | some hname => exact ⟨_, rfl, hname⟩

/-- The depth that suffices for a pattern does so after the reordering. -/
theorem Suffices.reordered (hcontext : context.Reordered other) {depth : ℕ}
    (h : context.Suffices depth pattern) (hpattern : pattern.Reordered later) :
    other.Suffices depth later := by
  induction depth generalizing pattern later with
  | zero =>
    intro name hname
    exact (hcontext.resolve_eq_none_iff name).mp (h name (hpattern.references_perm.mem_iff.mpr hname))
  | succ depth ih =>
    intro name hname found hfound
    obtain ⟨before, hbefore, hreordered⟩ := hcontext.exists_of_some hfound
    exact ih (h name (hpattern.references_perm.mem_iff.mpr hname) before hbefore) hreordered

theorem Affirmative.reordered (hcontext : context.Reordered other) (h : context.Affirmative pattern)
    (hpattern : pattern.Reordered later) : other.Affirmative later := by
  intro child inside hnode
  have hlater := hpattern.affirmative h
  clear hpattern h
  induction hnode with
  | self => exact not_affirmative_absent hlater
  | named hfound _ ih =>
    obtain ⟨before, hbefore, hreordered⟩ := hcontext.exists_of_some hfound
    exact ih (hreordered.affirmative ((affirmative_named hbefore).mp hlater))
  | all hchild _ ih => exact ih (affirmative_all.mp hlater _ hchild)
  | any hchild _ ih => exact ih (affirmative_any.mp hlater _ hchild)
  | times _ ih => exact ih (affirmative_times.mp hlater)
  | absent _ _ => exact not_affirmative_absent hlater

end Context

end OpeningHand
