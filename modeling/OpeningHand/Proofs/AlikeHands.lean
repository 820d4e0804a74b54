import Mathlib
import OpeningHand.Proofs.SimulationCounts
import OpeningHand.Proofs.TerminatingContexts

/-!
# Hands that differ in the order of their cards

Which copy of a card is taken, and where the others lie, makes no difference to what is found in a hand.
Two streams whose splits are alike, place by place, are led on side by side through every node of a
pattern: they run dry together, they break off together, and what comes of them is alike again. A repetition
may stop early for one of them only, since it compares the splits of a stream as they are; but the pass that
the other one goes on with leaves it alike.
-/

namespace OpeningHand

/-- The same cards are left, maybe in another order, and the same ones have been used. -/
structure Split.Alike (split other : Split) : Prop where
  remaining : split.remaining.cards.Perm other.remaining.cards
  selected : split.selected = other.selected

namespace Split.Alike

variable {split other : Split}

theorem ofHand {hand other : Pile} (h : hand.cards.Perm other.cards) :
    (Split.ofHand hand).Alike (.ofHand other) :=
  ⟨h, rfl⟩

theorem size_eq (h : split.Alike other) : split.remaining.size = other.remaining.size :=
  h.remaining.length_eq

theorem has_iff (h : split.Alike other) (card : Card) :
    split.has card = true ↔ other.has card = true := by
  rw [has, has, Pile.has_eq_true_iff, Pile.has_eq_true_iff]
  exact h.remaining.mem_iff

theorem use (h : split.Alike other) (card : Card) : (split.use card).Alike (other.use card) := by
  refine ⟨h.remaining.erase card, ?_⟩
  change split.selected.add card = other.selected.add card
  rw [h.selected]

end Split.Alike

variable {stream other : List Split}

theorem isEmpty_iff_of_alike (h : List.Forall₂ Split.Alike stream other) :
    stream.isEmpty = true ↔ other.isEmpty = true := by
  cases h with
  | nil => rfl
  | cons _ _ => exact iff_of_false Bool.false_ne_true Bool.false_ne_true

/-- Streams that are alike run dry together. -/
theorem ite_of_alike {α : Type} {related : α → α → Prop} {empty empty' more more' : α}
    (h : List.Forall₂ Split.Alike stream other) (hempty : related empty empty')
    (hmore : related more more') :
    related (if stream.isEmpty then empty else more) (if other.isEmpty then empty' else more') := by
  by_cases hdry : stream.isEmpty = true
  · rwa [if_pos hdry, if_pos ((isEmpty_iff_of_alike h).mp hdry)]
  · rwa [if_neg hdry, if_neg (mt (isEmpty_iff_of_alike h).mpr hdry)]

theorem Card.flow_alike (card : Card) (h : List.Forall₂ Split.Alike stream other) :
    List.Forall₂ Split.Alike (card.flow stream) (card.flow other) := by
  have hkept : List.Forall₂ Split.Alike (stream.filter (·.has card)) (other.filter (·.has card)) :=
    List.rel_filter (fun _ _ hsplit => hsplit.has_iff card) h
  exact List.rel_map (fun _ _ hsplit => hsplit.use card) hkept

/-! ### Steps that do not see the order of the cards -/

namespace Step

/-- On streams that are alike the step breaks off for the same reason, or its results are alike. -/
def Impartial (step : Step) : Prop :=
  ∀ stream other, List.Forall₂ Split.Alike stream other →
    Together (List.Forall₂ Split.Alike) (step stream) (step other)

variable {step : Step}

theorem repeated_of_settled (h : step stream = .ok stream) (count : ℕ) :
    step.repeated count stream = .ok stream := by
  cases count with
  | zero => rfl
  | succ count =>
    rw [repeated, h]
    split
    · rfl
    · exact if_pos rfl

/-- A repetition may as well go on when a pass has changed nothing. -/
theorem repeated_succ (step : Step) (count : ℕ) (stream : List Split) :
    step.repeated (count + 1) stream =
      if stream.isEmpty then .ok stream else step stream >>= step.repeated count := by
  rw [repeated]
  split
  · rfl
  · cases hnext : step stream with
    | error fault => rfl
    | ok next =>
      change (if next = stream then .ok stream else step.repeated count next) = step.repeated count next
      split
      · next hsettled =>
        subst hsettled
        exact (repeated_of_settled hnext count).symm
      · rfl

namespace Impartial

theorem stay : Impartial .ok := fun _ _ h => .ok h

theorem repeated (h : step.Impartial) (count : ℕ) : (step.repeated count).Impartial := by
  induction count with
  | zero => exact stay
  | succ count ih =>
    intro stream other halike
    rw [repeated_succ, repeated_succ]
    exact ite_of_alike halike (Together.ok halike) ((h stream other halike).bind ih)

theorem refused (h : step.Impartial) : step.refused.Impartial := by
  intro stream other halike
  induction halike with
  | nil => exact .ok .nil
  | @cons split _ stream others hsplit _ ih =>
    rw [Step.refused, Step.refused]
    apply (h [split] [_] (.cons hsplit .nil)).bind
    intro found found' hfound
    apply ih.bind
    intro rest rest' hrest
    exact .ok (ite_of_alike hfound (.cons hsplit hrest) hrest)

end Impartial

end Step

theorem Card.step_impartial (card : Card) : (Card.step card).Impartial := by
  intro stream other h
  rw [card.step_follows.answer, card.step_follows.answer]
  exact .ok (card.flow_alike h)

namespace Pattern

variable {steps : String → Step}

theorem stepAll_impartial {children : List Pattern}
    (h : ∀ child ∈ children, (child.step steps).Impartial) : (stepAll steps children).Impartial := by
  induction children with
  | nil => exact .stay
  | cons child children ih =>
    obtain ⟨hchild, hchildren⟩ := List.forall_mem_cons.mp h
    intro stream other halike
    rw [stepAll, stepAll]
    exact ite_of_alike halike (Together.ok halike) ((hchild stream other halike).bind (ih hchildren))

theorem stepAny_impartial {children : List Pattern}
    (h : ∀ child ∈ children, (child.step steps).Impartial) : (stepAny steps children).Impartial := by
  induction children with
  | nil => exact fun _ _ _ => .ok .nil
  | cons child children ih =>
    obtain ⟨hchild, hchildren⟩ := List.forall_mem_cons.mp h
    intro stream other halike
    rw [stepAny, stepAny]
    apply (hchild stream other halike).bind
    intro first first' hfirst
    apply (ih hchildren stream other halike).bind
    intro rest rest' hrest
    exact .ok (List.rel_append hfirst hrest)

/-- A pattern is as impartial as the names in it. -/
theorem step_impartial (h : ∀ name, (steps name).Impartial) (pattern : Pattern) :
    (pattern.step steps).Impartial := by
  induction pattern with
  | always => exact .stay
  | card name => exact Card.step_impartial name
  | named name => exact h name
  | all children ih => exact stepAll_impartial ih
  | any children ih => exact stepAny_impartial ih
  | times count child ih => exact ih.repeated count
  | absent child ih => exact ih.refused

end Pattern

namespace Context

theorem lookup_impartial (context : Context) (depth : ℕ) (name : String) :
    (context.lookup depth name).Impartial := by
  induction depth generalizing name with
  | zero =>
    intro stream other halike
    cases hfound : context.resolve name with
    | none =>
      rw [lookup_of_none hfound, lookup_of_none hfound]
      exact .ok .nil
    | some found =>
      rw [lookup_zero_of_some hfound, lookup_zero_of_some hfound]
      exact .error _
  | succ depth ih =>
    intro stream other halike
    cases hfound : context.resolve name with
    | none =>
      rw [lookup_of_none hfound, lookup_of_none hfound]
      exact .ok .nil
    | some found =>
      rw [lookup_succ_of_some hfound, lookup_succ_of_some hfound, step_eq_lookup]
      exact Pattern.step_impartial ih found stream other halike

/-- However deep lookups may be nested, evaluation does not see the order of the cards. -/
theorem step_impartial (context : Context) (depth : ℕ) (pattern : Pattern) :
    (context.step depth pattern).Impartial := by
  rw [step_eq_lookup]
  exact Pattern.step_impartial (context.lookup_impartial depth) pattern

theorem Yields.alike {context : Context} {pattern : Pattern} {out : List Split}
    (h : context.Yields pattern stream out) (halike : List.Forall₂ Split.Alike stream other) :
    ∃ later, context.Yields pattern other later ∧ List.Forall₂ Split.Alike out later := by
  obtain ⟨depth, hout⟩ := h
  have htogether := context.step_impartial depth pattern stream other halike
  rw [hout] at htogether
  generalize hlater : context.step depth pattern other = outcome at htogether
  cases htogether with
  | ok hboth => exact ⟨_, ⟨depth, hlater⟩, hboth⟩

end Context

/-! ### Rule books -/

namespace RuleBook

theorem depth_eq_of_alike (book : RuleBook) (h : List.Forall₂ Split.Alike stream other) :
    book.depth stream = book.depth other := by
  have hsizes : stream.map (·.remaining.size) = other.map (·.remaining.size) := by
    rw [← List.forall₂_eq_eq_eq, List.forall₂_map_left_iff, List.forall₂_map_right_iff]
    exact h.imp fun _ _ hsplit => hsplit.size_eq
  rw [depth, depth, hsizes]

theorem evaluate_impartial (book : RuleBook) (pattern : Pattern) :
    (book.evaluate pattern).Impartial := by
  intro stream other h
  rw [evaluate, evaluate, book.depth_eq_of_alike h]
  exact book.context.step_impartial _ pattern stream other h

variable {hand other : Pile}

theorem satisfies_eq_of_perm (book : RuleBook) (h : hand.cards.Perm other.cards) (pattern : Pattern) :
    book.satisfies hand pattern = book.satisfies other pattern := by
  apply Together.eq
  apply (book.evaluate_impartial pattern [.ofHand hand] [.ofHand other]
    (.cons (.ofHand h) .nil)).bind
  intro stream stream' halike
  exact .ok (congrArg not (Bool.eq_iff_iff.mpr (isEmpty_iff_of_alike halike)))

theorem firstMatch_eq_of_perm (book : RuleBook) (h : hand.cards.Perm other.cards) :
    book.firstMatch hand = book.firstMatch other := by
  have hsatisfies : (fun criterion : Declaration => book.satisfies hand criterion.pattern) =
      fun criterion => book.satisfies other criterion.pattern :=
    funext fun criterion => book.satisfies_eq_of_perm h criterion.pattern
  rw [firstMatch, firstMatch, hsatisfies]

/-- Streams that are alike at every place lead to streams that are alike at every place: wherever
evaluation of one of them ends, that of the other one ends as well, so both do where evaluation always
ends. In every rule book, two hands of the same cards have the same first criterion, or neither of them
can be tested. -/
theorem yields_alike_firstMatch_eq :
    (∀ (context : Context) (pattern : Pattern) (stream other : List Split),
      List.Forall₂ Split.Alike stream other →
        (context.Terminating → ∃ out later, context.Yields pattern stream out ∧
          context.Yields pattern other later ∧ List.Forall₂ Split.Alike out later) ∧
        ∀ out, context.Yields pattern stream out → ∃ later, context.Yields pattern other later ∧
          out.length = later.length ∧ List.Forall₂ Split.Alike out later) ∧
    ∀ (book : RuleBook) (hand other : Pile), hand.cards.Perm other.cards →
      book.firstMatch hand = book.firstMatch other ∧
      book.firstCriterion hand = book.firstCriterion other := by
  constructor
  · intro context pattern stream other halike
    refine ⟨fun terminating => ?_, fun out hout => ?_⟩
    · obtain ⟨out, hout⟩ := terminating.exists_yields pattern stream
      obtain ⟨later, hlater, hboth⟩ := hout.alike halike
      exact ⟨out, later, hout, hlater, hboth⟩
    · obtain ⟨later, hlater, hboth⟩ := hout.alike halike
      exact ⟨later, hlater, hboth.length_eq, hboth⟩
  · intro book hand other hperm
    have hfirst := book.firstMatch_eq_of_perm hperm
    exact ⟨hfirst, by rw [firstCriterion, firstCriterion, hfirst]⟩

/-- References lead back to their name here, behind a card; and the criterion for both cards is the first
one, however they lie. -/
theorem yields_alike_firstMatch_eq_run :
    Context.runContext.Terminating ∧
    (∃ later, Context.runContext.Yields
        (.all [.absent (.times 2 (.card "swamp")), .times 2 (.named "run"), .card "swamp"])
        [.ofHand ⟨["swamp", "island", "forest"]⟩] later ∧
      List.Forall₂ Split.Alike [⟨⟨["forest", "island"]⟩, ⟨["swamp"]⟩⟩,
        ⟨⟨["island"]⟩, ⟨["forest", "swamp"]⟩⟩, ⟨⟨["island"]⟩, ⟨["forest", "swamp"]⟩⟩] later) ∧
    pairBook.firstMatch ⟨["y", "x"]⟩ = .ok (some 0) := by
  have hyields : Context.runContext.Yields
      (.all [.absent (.times 2 (.card "swamp")), .times 2 (.named "run"), .card "swamp"])
      [.ofHand ⟨["forest", "island", "swamp"]⟩]
      [⟨⟨["forest", "island"]⟩, ⟨["swamp"]⟩⟩, ⟨⟨["island"]⟩, ⟨["forest", "swamp"]⟩⟩,
        ⟨⟨["island"]⟩, ⟨["forest", "swamp"]⟩⟩] := ⟨3, by decide⟩
  have halike : List.Forall₂ Split.Alike [.ofHand ⟨["forest", "island", "swamp"]⟩]
      [.ofHand ⟨["swamp", "island", "forest"]⟩] := .cons (.ofHand (by decide)) .nil
  have hboth : pairBook.firstMatch ⟨["x", "y"]⟩ = .ok (some 0) := by decide +kernel
  obtain ⟨hstreams, hbooks⟩ := yields_alike_firstMatch_eq
  obtain ⟨later, hlater, -, hsame⟩ := (hstreams _ _ _ _ halike).2 _ hyields
  refine ⟨Context.runContext_terminating, ⟨later, hlater, hsame⟩, ?_⟩
  rw [← (hbooks pairBook ⟨["x", "y"]⟩ ⟨["y", "x"]⟩ (by decide)).1, hboth]

end RuleBook

end OpeningHand
