import Mathlib.Data.List.Perm.Basic
import Mathlib.Data.List.Count
import OpeningHand.Proofs.ReferenceNesting

/-!
# What happens to the cards of a hand

Going on from a split moves cards from the cards left to the cards used, and nothing else: none appears,
none disappears, and those left keep their order. No step asks for a card that is not there, so the only
way to break off is a reference that never ends.
-/

namespace OpeningHand

/-- The second split comes from the first one by using the cards, in this order. -/
structure Split.Spends (before : Split) (used : List Card) (after : Split) : Prop where
  parted : (used ++ after.remaining.cards).Perm before.remaining.cards
  selected : after.selected.cards = before.selected.cards ++ used
  remaining : after.remaining.cards = before.remaining.cards.diff used

namespace Split.Spends

variable {before middle after : Split} {used more : List Card}

theorem refl (split : Split) : split.Spends [] split :=
  ⟨List.Perm.refl _, (List.append_nil _).symm, rfl⟩

theorem trans (h : before.Spends used middle) (h' : middle.Spends more after) :
    before.Spends (used ++ more) after := by
  refine ⟨?_, ?_, ?_⟩
  · rw [List.append_assoc]
    exact (h'.parted.append_left used).trans h.parted
  · rw [h'.selected, h.selected, List.append_assoc]
  · rw [h'.remaining, h.remaining, List.diff_append]

theorem use {split : Split} {card : Card} (h : split.has card) :
    split.Spends [card] (split.use card) := by
  have hmem : card ∈ split.remaining.cards := (Pile.has_eq_true_iff _ _).mp h
  refine ⟨(List.perm_cons_erase hmem).symm, rfl, ?_⟩
  rw [List.diff_cons, List.diff_nil]
  rfl

theorem subperm (h : before.Spends used after) : used.Subperm before.remaining.cards :=
  (List.sublist_append_left used _).subperm.trans h.parted.subperm

theorem sublist (h : before.Spends used after) :
    after.remaining.cards.Sublist before.remaining.cards := by
  rw [h.remaining]
  exact List.diff_sublist _ _

theorem perm (h : before.Spends used after) :
    (after.remaining.cards ++ after.selected.cards).Perm
      (before.remaining.cards ++ before.selected.cards) := by
  rw [h.selected]
  calc (after.remaining.cards ++ (before.selected.cards ++ used)).Perm
        ((before.selected.cards ++ used) ++ after.remaining.cards) := List.perm_append_comm
    _ = before.selected.cards ++ (used ++ after.remaining.cards) := List.append_assoc _ _ _
    (before.selected.cards ++ (used ++ after.remaining.cards)).Perm
        (before.selected.cards ++ before.remaining.cards) := h.parted.append_left _
    List.Perm _ (before.remaining.cards ++ before.selected.cards) := List.perm_append_comm

end Split.Spends

def Leads (stream out : List Split) : Prop :=
  ∀ after ∈ out, ∃ before ∈ stream, ∃ used, before.Spends used after

namespace Leads

variable {stream middle out other : List Split}

theorem of_subset (h : out ⊆ stream) : Leads stream out :=
  fun after hafter => ⟨after, h hafter, [], .refl after⟩

theorem mono (h : Leads stream out) (hsub : stream ⊆ other) : Leads other out := by
  intro after hafter
  obtain ⟨before, hbefore, hspends⟩ := h after hafter
  exact ⟨before, hsub hbefore, hspends⟩

theorem trans (h : Leads stream middle) (h' : Leads middle out) : Leads stream out := by
  intro after hafter
  obtain ⟨split, hsplit, more, hmore⟩ := h' after hafter
  obtain ⟨before, hbefore, used, hused⟩ := h split hsplit
  exact ⟨before, hbefore, used ++ more, hused.trans hmore⟩

theorem append (h : Leads stream out) (h' : Leads stream other) : Leads stream (out ++ other) := by
  intro after hafter
  rcases List.mem_append.mp hafter with hafter | hafter
  · exact h after hafter
  · exact h' after hafter

end Leads

/-- A computation that breaks off only at an endless reference, and otherwise has a result as it
should be. -/
def Ensures {α : Type} (good : α → Prop) : Except Fault α → Prop
  | .ok value => good value
  | .error fault => fault = .endlessReference

theorem Ensures.imp {α : Type} {good better : α → Prop} {result : Except Fault α}
    (h : Ensures good result) (hbetter : ∀ value, good value → better value) :
    Ensures better result := by
  cases result with
  | ok value => exact hbetter value h
  | error fault => exact h

/-- Two computations of this kind that give the same results are the same. -/
theorem Ensures.eq_of_ok_iff {α : Type} {good better : α → Prop} {first second : Except Fault α}
    (h : Ensures good first) (h' : Ensures better second)
    (hok : ∀ value, first = .ok value ↔ second = .ok value) : first = second := by
  cases first with
  | ok value => exact ((hok value).mp rfl).symm
  | error fault =>
    cases second with
    | ok value => cases (hok value).mpr rfl
    | error other => exact congrArg Except.error (h.trans h'.symm)

theorem Ensures.bind {α β : Type} {first : Except Fault α} {next : α → Except Fault β}
    {good : α → Prop} {better : β → Prop} (h : Ensures good first)
    (hnext : ∀ value, good value → Ensures better (next value)) :
    Ensures better (first >>= next) := by
  cases first with
  | ok value => exact hnext value h
  | error fault => exact h

/-- A step that only ever moves cards which are there. -/
def Step.Careful (step : Step) : Prop :=
  ∀ stream, Ensures (Leads stream) (step stream)

namespace Step.Careful

variable {step : Step}

theorem stay : Careful .ok :=
  fun stream => Leads.of_subset (List.Subset.refl stream)

theorem repeated (h : step.Careful) (count : ℕ) : (step.repeated count).Careful := by
  induction count with
  | zero => exact stay
  | succ count ih =>
    intro stream
    rw [Step.repeated]
    split
    · exact stay stream
    · apply (h stream).bind
      intro next hnext
      split
      · exact stay stream
      · exact (ih next).imp fun out hout => hnext.trans hout

theorem refused (h : step.Careful) : step.refused.Careful := by
  intro stream
  induction stream with
  | nil => exact Leads.of_subset (List.Subset.refl [])
  | cons split stream ih =>
    rw [Step.refused]
    apply (h [split]).bind
    intro found _
    apply ih.bind
    intro others hothers
    have htail := hothers.mono (List.subset_cons_self split stream)
    change Leads (split :: stream) (if found.isEmpty then split :: others else others)
    split
    · intro after hafter
      rcases List.mem_cons.mp hafter with rfl | hafter
      · exact ⟨after, List.mem_cons_self, [], .refl after⟩
      · exact htail after hafter
    · exact htail

end Step.Careful

/-- The test for a copy of the card comes before the attempt to use one. -/
theorem Card.step_careful (card : Card) : (Card.step card).Careful := by
  intro stream
  rw [card.step_follows.answer]
  intro after hafter
  obtain ⟨before, hbefore, rfl⟩ := List.mem_map.mp hafter
  obtain ⟨hmem, hhas⟩ := List.mem_filter.mp hbefore
  exact ⟨before, hmem, [card], .use hhas⟩

namespace Pattern

variable {steps : String → Step}

theorem stepAll_careful {children : List Pattern}
    (h : ∀ child ∈ children, (child.step steps).Careful) :
    (stepAll steps children).Careful := by
  induction children with
  | nil => exact Step.Careful.stay
  | cons child children ih =>
    obtain ⟨hchild, hchildren⟩ := List.forall_mem_cons.mp h
    intro stream
    rw [stepAll]
    split
    · exact Step.Careful.stay stream
    · apply (hchild stream).bind
      intro next hnext
      exact (ih hchildren next).imp fun out hout => hnext.trans hout

theorem stepAny_careful {children : List Pattern}
    (h : ∀ child ∈ children, (child.step steps).Careful) :
    (stepAny steps children).Careful := by
  induction children with
  | nil => exact fun stream => Leads.of_subset (List.nil_subset stream)
  | cons child children ih =>
    obtain ⟨hchild, hchildren⟩ := List.forall_mem_cons.mp h
    intro stream
    rw [stepAny]
    apply (hchild stream).bind
    intro first hfirst
    apply (ih hchildren stream).bind
    intro others hothers
    exact hfirst.append hothers

theorem step_careful (h : ∀ name, (steps name).Careful) (pattern : Pattern) :
    (pattern.step steps).Careful := by
  induction pattern with
  | always => exact Step.Careful.stay
  | card name => exact Card.step_careful name
  | named name => exact h name
  | all children ih => exact stepAll_careful ih
  | any children ih => exact stepAny_careful ih
  | times count child ih => exact ih.repeated count
  | absent child ih => exact ih.refused

end Pattern

namespace Context

theorem lookup_careful (context : Context) (depth : ℕ) (name : String) :
    (context.lookup depth name).Careful := by
  induction depth generalizing name with
  | zero =>
    intro stream
    cases h : context.resolve name with
    | none =>
      rw [lookup_of_none h]
      exact Leads.of_subset (List.nil_subset stream)
    | some found =>
      rw [lookup_zero_of_some h]
      rfl
  | succ depth ih =>
    intro stream
    cases h : context.resolve name with
    | none =>
      rw [lookup_of_none h]
      exact Leads.of_subset (List.nil_subset stream)
    | some found =>
      rw [lookup_succ_of_some h, step_eq_lookup]
      exact Pattern.step_careful ih found stream

theorem step_careful (context : Context) (depth : ℕ) (pattern : Pattern) :
    (context.step depth pattern).Careful := by
  rw [step_eq_lookup]
  exact Pattern.step_careful (context.lookup_careful depth) pattern

theorem Yields.leads {context : Context} {pattern : Pattern} {stream out : List Split}
    (h : context.Yields pattern stream out) : Leads stream out := by
  obtain ⟨depth, hout⟩ := h
  have hcareful := context.step_careful depth pattern stream
  rwa [hout] at hcareful

/-- Each split that a pattern yields parts the cards of a split in the stream anew: those used come
behind the cards used before, and the others are left in their order. From a hand on its own this is a
partition of the hand. Evaluation never asks for a card that is not there, whether it ends or not. -/
theorem yields_partition (context : Context) (pattern : Pattern) (stream : List Split) :
    (∀ out, context.Yields pattern stream out → ∀ after ∈ out, ∃ before ∈ stream, ∃ used : List Card,
      (after.remaining.cards ++ after.selected.cards).Perm
        (before.remaining.cards ++ before.selected.cards) ∧
      after.selected.cards = before.selected.cards ++ used ∧
      used.Subperm before.remaining.cards ∧
      after.remaining.cards = before.remaining.cards.diff used ∧
      after.remaining.cards.Sublist before.remaining.cards) ∧
    (∀ hand, stream = [.ofHand hand] → ∀ out, context.Yields pattern stream out →
      ∀ after ∈ out, (after.remaining.cards ++ after.selected.cards).Perm hand.cards) ∧
    ∀ depth card, context.step depth pattern stream ≠ .error (.absentCard card) := by
  refine ⟨?_, ?_, ?_⟩
  · intro out hout after hafter
    obtain ⟨before, hbefore, used, hspends⟩ := hout.leads after hafter
    exact ⟨before, hbefore, used, hspends.perm, hspends.selected, hspends.subperm,
      hspends.remaining, hspends.sublist⟩
  · rintro hand rfl out hout after hafter
    obtain ⟨before, hbefore, used, hspends⟩ := hout.leads after hafter
    obtain rfl := List.mem_singleton.mp hbefore
    have hperm := hspends.perm
    rwa [Split.remaining_ofHand, Split.selected_ofHand, Pile.empty, List.append_nil] at hperm
  · intro depth card hfault
    have hcareful := context.step_careful depth pattern stream
    rw [hfault] at hcareful
    cases hcareful

theorem yields_partition_forests :
    (⟨fun _ => some (.any [.card "forest", .card "swamp"]), fun _ => true⟩ : Context).Yields
      (.all [.named "land", .card "forest"])
      [.ofHand ⟨["forest", "swamp", "island", "forest"]⟩]
      [⟨⟨["swamp", "island"]⟩, ⟨["forest", "forest"]⟩⟩,
        ⟨⟨["island", "forest"]⟩, ⟨["swamp", "forest"]⟩⟩] ∧
    ∀ after ∈ [(⟨⟨["swamp", "island"]⟩, ⟨["forest", "forest"]⟩⟩ : Split),
        ⟨⟨["island", "forest"]⟩, ⟨["swamp", "forest"]⟩⟩],
      (after.remaining.cards ++ after.selected.cards).Perm ["forest", "swamp", "island", "forest"] := by
  have hyields : (⟨fun _ => some (.any [.card "forest", .card "swamp"]), fun _ => true⟩ : Context).Yields
      (.all [.named "land", .card "forest"])
      [.ofHand ⟨["forest", "swamp", "island", "forest"]⟩]
      [⟨⟨["swamp", "island"]⟩, ⟨["forest", "forest"]⟩⟩,
        ⟨⟨["island", "forest"]⟩, ⟨["swamp", "forest"]⟩⟩] := ⟨1, by decide⟩
  exact ⟨hyields, (yields_partition _ _ _).2.1 _ rfl _ hyields⟩

end Context

end OpeningHand
