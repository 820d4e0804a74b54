import Mathlib.Algebra.Order.Sub.Basic
import Mathlib.Data.Multiset.Bind
import OpeningHand.Proofs.BoundedReferences
import OpeningHand.Proofs.HandPartition

/-!
# What a pattern takes out of a bag of cards

Where cards lie in a hand does not matter for what a pattern finds in it. A pattern can be read as taking
cards out of a bag: in a row each child takes from what the ones before it have left, a choice takes what
any child takes, and an absence takes nothing, and does so only where its child cannot take anything. Up
to order, this is all that the flow of a pattern does to a split, each way of taking the cards counted.
-/

namespace OpeningHand

abbrev Bag : Type := Multiset Card

/-- What can be taken out of a bag, as often as there are ways of taking it. -/
abbrev Taking : Type := Bag → Multiset Bag

def Pile.bag (pile : Pile) : Bag := pile.cards

namespace Split

def totals (split : Split) : Bag × Bag :=
  (split.remaining.bag, split.selected.bag)

def totalsAfter (split : Split) (taken : Bag) : Bag × Bag :=
  (split.remaining.bag - taken, split.selected.bag + taken)

theorem totalsAfter_zero (split : Split) : split.totalsAfter 0 = split.totals := by
  rw [totalsAfter, totals, tsub_zero, add_zero]

theorem totalsAfter_add (split : Split) (taken more : Bag) :
    split.totalsAfter (taken + more) =
      ((split.totalsAfter taken).1 - more, (split.totalsAfter taken).2 + more) := by
  rw [totalsAfter, totalsAfter, tsub_add_eq_tsub_tsub, add_assoc]

theorem totals_use (split : Split) (card : Card) : (split.use card).totals = split.totalsAfter {card} := by
  refine Prod.ext ?_ ?_
  · change ((split.remaining.cards.erase card : List Card) : Bag) = split.remaining.bag - {card}
    rw [Multiset.sub_singleton, Pile.bag, Multiset.coe_erase]
  · rfl

end Split

namespace Taking

def nothing : Taking := fun _ => {0}

/-- What the first one takes, with what the second one takes out of the rest. -/
def next (first second : Taking) : Taking := fun bag =>
  (first bag).bind fun taken => (second (bag - taken)).map (taken + ·)

def repeated (taking : Taking) : Nat → Taking
  | 0 => nothing
  | count + 1 => taking.next (taking.repeated count)

/-- Nothing is taken, and only where there is no way of taking anything. -/
def refused (taking : Taking) : Taking := fun bag =>
  if taking bag = 0 then {0} else 0

end Taking

def Card.taking (card : Card) : Taking := fun bag =>
  if card ∈ bag then {{card}} else 0

namespace Pattern

mutual

/-- What a pattern takes, where `lookup` gives what a name takes. -/
def taking (lookup : String → Taking) : Pattern → Taking
  | always => .nothing
  | card name => name.taking
  | named name => lookup name
  | all children => takingAll lookup children
  | any children => takingAny lookup children
  | times count child => (taking lookup child).repeated count
  | absent child => (taking lookup child).refused

def takingAll (lookup : String → Taking) : List Pattern → Taking
  | [] => .nothing
  | child :: children => (taking lookup child).next (takingAll lookup children)

def takingAny (lookup : String → Taking) : List Pattern → Taking
  | [] => 0
  | child :: children => taking lookup child + takingAny lookup children

end

end Pattern

/-! ### A flow takes what its pattern takes -/

/-- The flow goes on from a split once for each way of taking cards out of those that are left. -/
structure Flow.Takes (flow : Flow) (taking : Taking) : Prop where
  branching : flow.Branching
  totals_flow : ∀ start : Split, ((flow [start] : List Split) : Multiset Split).map Split.totals =
    (taking start.remaining.bag).map start.totalsAfter

namespace Flow.Takes

variable {first second : Flow} {taking others : Taking}

theorem nowhere : Flow.Takes (fun _ => []) 0 :=
  ⟨fun stream => by simp, fun _ => rfl⟩

theorem stay : Flow.Takes id .nothing := by
  refine ⟨branching_id, fun start => ?_⟩
  change {start.totals} = {start.totalsAfter 0}
  rw [start.totalsAfter_zero]

theorem side (h : first.Takes taking) (hothers : second.Takes others) :
    Flow.Takes (fun stream => first stream ++ second stream) (taking + others) := by
  refine ⟨h.branching.side hothers.branching, fun start => ?_⟩
  rw [← Multiset.coe_add, Multiset.map_add, h.totals_flow, hothers.totals_flow, ← Multiset.map_add]
  rfl

theorem comp (h : first.Takes taking) (hothers : second.Takes others) :
    Flow.Takes (second ∘ first) (taking.next others) := by
  refine ⟨hothers.branching.comp h.branching, fun start => ?_⟩
  -- What comes of a split in the middle depends on its cards only.
  let later : Bag × Bag → Multiset (Bag × Bag) := fun totals =>
    (others totals.1).map fun taken => (totals.1 - taken, totals.2 + taken)
  have hlater : ∀ middle : Split,
      ((second [middle] : List Split) : Multiset Split).map Split.totals = later middle.totals :=
    fun middle => hothers.totals_flow middle
  have hstream : ((second (first [start]) : List Split) : Multiset Split) =
      (first [start] : Multiset Split).bind fun middle => (second [middle] : Multiset Split) := by
    rw [Multiset.coe_bind, Multiset.coe_eq_coe]
    exact hothers.branching _
  calc ((second (first [start]) : List Split) : Multiset Split).map Split.totals
    _ = (first [start] : Multiset Split).bind fun middle => later middle.totals := by
        rw [hstream, Multiset.map_bind]
        simp only [hlater]
    _ = ((first [start] : Multiset Split).map Split.totals).bind later := (Multiset.bind_map _ _ _).symm
    _ = (taking start.remaining.bag).bind fun taken => later (start.totalsAfter taken) := by
        rw [h.totals_flow, Multiset.bind_map]
    _ = (taking.next others start.remaining.bag).map start.totalsAfter := by
        rw [Taking.next, Multiset.map_bind]
        refine Multiset.bind_congr fun taken _ => ?_
        rw [Multiset.map_map]
        exact Multiset.map_congr rfl fun more _ => (start.totalsAfter_add taken more).symm

theorem iterate (h : first.Takes taking) (count : Nat) : Flow.Takes first^[count] (taking.repeated count) := by
  induction count with
  | zero => exact stay
  | succ count ih => exact h.comp ih

theorem eq_nil_iff (h : first.Takes taking) (start : Split) :
    first [start] = [] ↔ taking start.remaining.bag = 0 := by
  have htotals := h.totals_flow start
  rw [← Multiset.coe_eq_zero, ← Multiset.map_eq_zero, htotals, Multiset.map_eq_zero]

theorem refused (h : first.Takes taking) : Flow.Takes first.refused taking.refused := by
  refine ⟨branching_filter _, fun start => ?_⟩
  rw [Flow.refused, List.filter_singleton, Taking.refused]
  by_cases hnone : first [start] = []
  · rw [if_pos ((h.eq_nil_iff start).mp hnone), hnone]
    change {start.totals} = {start.totalsAfter 0}
    rw [start.totalsAfter_zero]
  · have hsome : (first [start]).isEmpty = false := by simpa using hnone
    rw [if_neg fun htaking => hnone ((h.eq_nil_iff start).mpr htaking), hsome]
    rfl

end Flow.Takes

theorem Card.flow_takes (card : Card) : (Card.flow card).Takes card.taking := by
  refine ⟨card.flow_branching, fun start => ?_⟩
  have hmem : card ∈ start.remaining.bag ↔ start.has card = true :=
    (Pile.has_eq_true_iff start.remaining card).symm
  rw [card.flow_singleton, Card.taking]
  by_cases hcard : start.has card = true
  · rw [if_pos hcard, if_pos (hmem.mpr hcard)]
    change {(start.use card).totals} = {start.totalsAfter {card}}
    rw [start.totals_use]
  · rw [if_neg hcard, if_neg fun hbag => hcard (hmem.mp hbag)]
    rfl

namespace Pattern

variable {flows : String → Flow} {lookup : String → Taking}

theorem flowAll_takes {children : List Pattern}
    (h : ∀ child ∈ children, (child.flow flows).Takes (child.taking lookup)) :
    (flowAll flows children).Takes (takingAll lookup children) := by
  induction children with
  | nil => exact .stay
  | cons child children ih =>
    obtain ⟨hchild, hchildren⟩ := List.forall_mem_cons.mp h
    exact hchild.comp (ih hchildren)

theorem flowAny_takes {children : List Pattern}
    (h : ∀ child ∈ children, (child.flow flows).Takes (child.taking lookup)) :
    (flowAny flows children).Takes (takingAny lookup children) := by
  induction children with
  | nil => exact .nowhere
  | cons child children ih =>
    obtain ⟨hchild, hchildren⟩ := List.forall_mem_cons.mp h
    exact hchild.side (ih hchildren)

/-- If the flows of the names take what `lookup` says, the flow of a pattern takes what the pattern
takes. -/
theorem flow_takes (h : ∀ name, (flows name).Takes (lookup name)) (pattern : Pattern) :
    (pattern.flow flows).Takes (pattern.taking lookup) := by
  induction pattern with
  | always => exact .stay
  | card name => exact Card.flow_takes name
  | named name => exact h name
  | all children ih => exact flowAll_takes ih
  | any children ih => exact flowAny_takes ih
  | times count child ih => exact ih.iterate count
  | absent child ih => exact ih.refused

end Pattern

namespace Context

/-- What a name takes when references are followed up to a given depth. -/
def takingWithin (context : Context) : Nat → String → Taking
  | 0, _ => 0
  | depth + 1, name =>
    match context.resolve name with
    | none => 0
    | some found => found.taking (context.takingWithin depth)

variable {context : Context} {name : String} {found : Pattern}

theorem takingWithin_of_none (h : context.resolve name = none) (depth : Nat) :
    context.takingWithin depth name = 0 := by
  cases depth with
  | zero => rfl
  | succ depth => rw [takingWithin, h]

theorem takingWithin_succ_of_some (h : context.resolve name = some found) (depth : Nat) :
    context.takingWithin (depth + 1) name = found.taking (context.takingWithin depth) := by
  rw [takingWithin, h]

theorem flowWithin_takes (context : Context) (depth : Nat) (name : String) :
    (context.flowWithin depth name).Takes (context.takingWithin depth name) := by
  induction depth generalizing name with
  | zero => exact .nowhere
  | succ depth ih =>
    cases hfound : context.resolve name with
    | none =>
      rw [flowWithin_of_none hfound, takingWithin_of_none hfound]
      exact .nowhere
    | some found =>
      rw [flowWithin_succ_of_some hfound, takingWithin_succ_of_some hfound]
      exact Pattern.flow_takes ih found

/-- At every depth, a pattern takes cards out of the bag of those that are left. -/
theorem takes_within (context : Context) (depth : Nat) (pattern : Pattern) :
    (pattern.flow (context.flowWithin depth)).Takes (pattern.taking (context.takingWithin depth)) :=
  Pattern.flow_takes (context.flowWithin_takes depth) pattern

end Context

/-! ### What is taken from a split -/

namespace Split

def taken (before after : Split) : Bag :=
  before.remaining.bag - after.remaining.bag

/-- A split without the order in which cards were used. -/
def outcome (split : Split) : Pile × Bag :=
  (split.remaining, split.selected.bag)

variable {before after : Split} {used : List Card}

theorem Spends.taken_eq (h : before.Spends used after) : before.taken after = used := by
  have hbag : before.remaining.bag = used + after.remaining.bag :=
    Multiset.coe_eq_coe.mpr h.parted.symm
  rw [taken, hbag, add_tsub_cancel_right]

theorem Spends.bag_selected (h : before.Spends used after) :
    after.selected.bag = before.selected.bag + before.taken after := by
  rw [h.taken_eq, Pile.bag, h.selected]
  rfl

/-- Where cards come from tells which splits they leave. -/
theorem Spends.outcome_eq (h : before.Spends used after) : after.outcome =
    (⟨before.remaining.cards.diff (before.taken after).toList⟩,
      before.selected.bag + before.taken after) := by
  have hused : (before.taken after).toList.Perm used := by
    rw [← Multiset.coe_eq_coe, Multiset.coe_toList, h.taken_eq]
  rw [outcome, h.bag_selected, hused.diff_left, ← h.remaining]

end Split

/-- The cards taken on the ways of a flow are what its pattern takes. -/
theorem Flow.Takes.map_taken {flow : Flow} {taking : Taking} (h : flow.Takes taking) {start : Split}
    (hle : ∀ taken ∈ taking start.remaining.bag, taken ≤ start.remaining.bag) :
    ((flow [start] : List Split) : Multiset Split).map start.taken = taking start.remaining.bag := by
  have hleft : ∀ taken ∈ taking start.remaining.bag,
      start.remaining.bag - (start.totalsAfter taken).1 = taken :=
    fun taken htaken => tsub_tsub_cancel_of_le (hle taken htaken)
  calc (flow [start] : Multiset Split).map start.taken
    _ = ((flow [start] : Multiset Split).map Split.totals).map (start.remaining.bag - ·.1) := by
        rw [Multiset.map_map]
        rfl
    _ = (taking start.remaining.bag).map fun taken =>
          start.remaining.bag - (start.totalsAfter taken).1 := by
        rw [h.totals_flow, Multiset.map_map]
        rfl
    _ = taking start.remaining.bag := by
        rw [Multiset.map_congr rfl hleft, Multiset.map_id']

theorem Leads.outcome_perm {start : Split} {out others : List Split} (h : Leads [start] out)
    (hothers : Leads [start] others) (htaken : (out.map start.taken).Perm (others.map start.taken)) :
    (out.map Split.outcome).Perm (others.map Split.outcome) := by
  have houtcome : ∀ {splits : List Split}, Leads [start] splits → splits.map Split.outcome =
      (splits.map start.taken).map fun taken =>
        (⟨start.remaining.cards.diff taken.toList⟩, start.selected.bag + taken) := by
    intro splits hleads
    rw [List.map_map]
    refine List.map_congr_left fun after hafter => ?_
    obtain ⟨before, hbefore, used, hspends⟩ := hleads after hafter
    obtain rfl := List.mem_singleton.mp hbefore
    exact hspends.outcome_eq
  rw [houtcome h, houtcome hothers]
  exact htaken.map _

end OpeningHand
