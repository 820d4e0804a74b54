import OpeningHand.Proofs.ReorderedPatterns
import OpeningHand.Proofs.TerminatingContexts

/-!
# Patterns without absences

A pattern without absences, whose references come to an end, amounts to a list of demands: bags of cards
that can be read off the pattern before any hand is drawn. From a split it goes on once for each demand
that the cards left can meet. So more cards never hurt, and the order of the children of a node does not
matter. A pattern that leads back to itself may make demands without end, so that no list holds them all.
-/

namespace OpeningHand

open Filter

def bagSums (bags others : List Bag) : List Bag :=
  bags.flatMap fun bag => others.map (bag + ·)

def bagMultiples (bags : List Bag) : Nat → List Bag
  | 0 => [0]
  | count + 1 => bagSums bags (bagMultiples bags count)

namespace Pattern

mutual

/-- The demands of a pattern, where `lookup` gives those of a name. -/
def demands (lookup : String → List Bag) : Pattern → List Bag
  | always => [0]
  | card name => [{name}]
  | named name => lookup name
  | all children => demandsAll lookup children
  | any children => demandsAny lookup children
  | times count child => bagMultiples (demands lookup child) count
  | absent _ => []

def demandsAll (lookup : String → List Bag) : List Pattern → List Bag
  | [] => [0]
  | child :: children => bagSums (demands lookup child) (demandsAll lookup children)

def demandsAny (lookup : String → List Bag) : List Pattern → List Bag
  | [] => []
  | child :: children => demands lookup child ++ demandsAny lookup children

end

end Pattern

namespace Context

def demandsWithin (context : Context) : Nat → String → List Bag
  | 0, _ => []
  | depth + 1, name =>
    match context.resolve name with
    | none => []
    | some found => found.demands (context.demandsWithin depth)

/-- The demands of a pattern when references are followed up to a given depth. -/
def demands (context : Context) (depth : Nat) (pattern : Pattern) : List Bag :=
  pattern.demands (context.demandsWithin depth)

end Context

/-! ### Takings that meet demands -/

namespace Taking

/-- Just the demands that the bag can meet are taken. -/
def Asks (taking : Taking) (demands : List Bag) : Prop :=
  ∀ bag, taking bag = (demands : Multiset Bag).filter (· ≤ bag)

variable {first second : Taking} {demands others : List Bag}

theorem asks_nowhere : Asks 0 [] := fun _ => rfl

theorem asks_nothing : Taking.nothing.Asks [0] := by
  intro bag
  refine (Multiset.filter_eq_self.mpr fun demand h => ?_).symm
  rw [Multiset.mem_singleton.mp h]
  exact Multiset.zero_le bag

theorem asks_card (card : Card) : card.taking.Asks [{card}] := by
  intro bag
  rw [Card.taking, Multiset.coe_singleton]
  by_cases hcard : card ∈ bag
  · rw [if_pos hcard]
    refine (Multiset.filter_eq_self.mpr fun demand h => ?_).symm
    rw [Multiset.mem_singleton.mp h]
    exact Multiset.singleton_le.mpr hcard
  · rw [if_neg hcard, eq_comm, Multiset.filter_eq_nil]
    intro demand h hle
    rw [Multiset.mem_singleton.mp h] at hle
    exact hcard (Multiset.singleton_le.mp hle)

theorem Asks.side (h : first.Asks demands) (h' : second.Asks others) :
    (first + second).Asks (demands ++ others) := by
  intro bag
  rw [← Multiset.coe_add, Multiset.filter_add, ← h bag, ← h' bag]
  rfl

theorem coe_bagSums (demands others : List Bag) : (bagSums demands others : Multiset Bag) =
    (demands : Multiset Bag).bind fun demand => (others : Multiset Bag).map (demand + ·) := by
  rw [bagSums, ← Multiset.coe_bind]
  rfl

theorem Asks.next (h : first.Asks demands) (h' : second.Asks others) :
    (first.next second).Asks (bagSums demands others) := by
  intro bag
  rw [coe_bagSums, ← bind_filter_le, ← h bag]
  exact Multiset.bind_congr fun taken _ => congrArg _ (h' (bag - taken))

theorem Asks.repeated (h : first.Asks demands) (count : Nat) :
    (first.repeated count).Asks (bagMultiples demands count) := by
  induction count with
  | zero => exact asks_nothing
  | succ count ih => exact h.next ih

end Taking

namespace Pattern

variable {context : Context} {lookup others : String → Taking} {listed : String → List Bag}

theorem takingAll_asks {children : List Pattern}
    (h : ∀ child ∈ children, (child.taking lookup).Asks (child.demands listed)) :
    (takingAll lookup children).Asks (demandsAll listed children) := by
  induction children with
  | nil => exact Taking.asks_nothing
  | cons child children ih =>
    obtain ⟨hchild, hchildren⟩ := List.forall_mem_cons.mp h
    exact hchild.next (ih hchildren)

theorem takingAny_asks {children : List Pattern}
    (h : ∀ child ∈ children, (child.taking lookup).Asks (child.demands listed)) :
    (takingAny lookup children).Asks (demandsAny listed children) := by
  induction children with
  | nil => exact Taking.asks_nowhere
  | cons child children ih =>
    obtain ⟨hchild, hchildren⟩ := List.forall_mem_cons.mp h
    exact hchild.side (ih hchildren)

/-- Without absences a pattern takes its demands, if names do. -/
theorem taking_asks
    (hnames : ∀ name, context.Affirmative (.named name) → (lookup name).Asks (listed name))
    {pattern : Pattern} (h : context.Affirmative pattern) :
    (pattern.taking lookup).Asks (pattern.demands listed) := by
  induction pattern with
  | always => exact Taking.asks_nothing
  | card name => exact Taking.asks_card name
  | named name => exact hnames name h
  | all children ih =>
    exact takingAll_asks fun child hchild => ih child hchild (Context.affirmative_all.mp h child hchild)
  | any children ih =>
    exact takingAny_asks fun child hchild => ih child hchild (Context.affirmative_any.mp h child hchild)
  | times count child ih => exact (ih (Context.affirmative_times.mp h)).repeated count
  | absent child ih => exact (Context.not_affirmative_absent h).elim

end Pattern

namespace Context

variable {context : Context}

theorem takingWithin_asks (depth : Nat) (name : String) (h : context.Affirmative (.named name)) :
    (context.takingWithin depth name).Asks (context.demandsWithin depth name) := by
  induction depth generalizing name with
  | zero => exact Taking.asks_nowhere
  | succ depth ih =>
    rw [takingWithin, demandsWithin]
    cases hfound : context.resolve name with
    | none => exact Taking.asks_nowhere
    | some found => exact Pattern.taking_asks ih ((affirmative_named hfound).mp h)

/-- Without absences a pattern takes its demands. -/
theorem Affirmative.asks_within {pattern : Pattern} (h : context.Affirmative pattern) (depth : Nat) :
    (pattern.taking (context.takingWithin depth)).Asks (context.demands depth pattern) :=
  Pattern.taking_asks (takingWithin_asks depth) h

end Context

/-! ### Demands of reordered patterns -/

section

variable {demands others more : List Bag}

theorem bagSums_perm {demands' others' : List Bag} (h : demands.Perm demands')
    (hothers : others.Perm others') : (bagSums demands others).Perm (bagSums demands' others') :=
  (h.flatMap_right _).trans (List.Perm.flatMap_left demands' fun _ _ => hothers.map _)

theorem bagMultiples_perm (h : demands.Perm others) (count : ℕ) :
    (bagMultiples demands count).Perm (bagMultiples others count) := by
  induction count with
  | zero => rfl
  | succ count ih => exact bagSums_perm h ih

theorem bagSums_left_comm (demands others more : List Bag) :
    (bagSums demands (bagSums others more)).Perm (bagSums others (bagSums demands more)) := by
  rw [← Multiset.coe_eq_coe]
  simp only [Taking.coe_bagSums, Multiset.map_bind, Multiset.map_map, Function.comp_def]
  rw [Multiset.bind_bind]
  simp only [add_left_comm]

end

namespace Pattern

variable {listed others : String → List Bag}

theorem demandsAll_perm_of_mem {children : List Pattern}
    (h : ∀ child ∈ children, (child.demands listed).Perm (child.demands others)) :
    (demandsAll listed children).Perm (demandsAll others children) := by
  induction children with
  | nil => rfl
  | cons child children ih =>
    obtain ⟨hchild, hchildren⟩ := List.forall_mem_cons.mp h
    exact bagSums_perm hchild (ih hchildren)

theorem demandsAny_perm_of_mem {children : List Pattern}
    (h : ∀ child ∈ children, (child.demands listed).Perm (child.demands others)) :
    (demandsAny listed children).Perm (demandsAny others children) := by
  induction children with
  | nil => rfl
  | cons child children ih =>
    obtain ⟨hchild, hchildren⟩ := List.forall_mem_cons.mp h
    exact hchild.append (ih hchildren)

theorem demands_perm_of_names (h : ∀ name, (listed name).Perm (others name)) (pattern : Pattern) :
    (pattern.demands listed).Perm (pattern.demands others) := by
  induction pattern with
  | always | card | absent => rfl
  | named name => exact h name
  | all children ih => exact demandsAll_perm_of_mem ih
  | any children ih => exact demandsAny_perm_of_mem ih
  | times count child ih => exact bagMultiples_perm ih count

theorem demandsAll_perm {children reordered : List Pattern} (h : children.Perm reordered) :
    (demandsAll listed children).Perm (demandsAll listed reordered) := by
  induction h with
  | nil => rfl
  | cons child _ ih => exact bagSums_perm (.refl _) ih
  | swap child other children => exact bagSums_left_comm _ _ _
  | trans _ _ ih ih' => exact ih.trans ih'

theorem demandsAny_perm {children reordered : List Pattern} (h : children.Perm reordered) :
    (demandsAny listed children).Perm (demandsAny listed reordered) := by
  induction h with
  | nil => rfl
  | cons child _ ih => exact ih.append_left _
  | swap child other children =>
    simp only [demandsAny, ← List.append_assoc]
    exact List.perm_append_comm.append_right _
  | trans _ _ ih ih' => exact ih.trans ih'

theorem Reordered.demands_perm {pattern reordered : Pattern} (h : pattern.Reordered reordered) :
    (pattern.demands listed).Perm (reordered.demands listed) := by
  induction h with
  | refl pattern => rfl
  | trans _ _ ih ih' => exact ih.trans ih'
  | all h => exact demandsAll_perm h
  | any h => exact demandsAny_perm h
  | inAll children _ ih => exact bagSums_perm ih (.refl _)
  | inAny children _ ih => exact ih.append_right _
  | inTimes count _ ih => exact bagMultiples_perm ih count
  | inAbsent _ _ => rfl

end Pattern

namespace Context

variable {context other : Context}

theorem Reordered.demandsWithin_perm (h : context.Reordered other) (depth : ℕ) (name : String) :
    (context.demandsWithin depth name).Perm (other.demandsWithin depth name) := by
  induction depth generalizing name with
  | zero => rfl
  | succ depth ih =>
    rw [demandsWithin, demandsWithin]
    cases hfound : other.resolve name with
    | none => rw [(h.resolve_eq_none_iff name).mpr hfound]
    | some found =>
      obtain ⟨before, hbefore, hreordered⟩ := h.exists_of_some hfound
      rw [hbefore]
      exact (Pattern.demands_perm_of_names ih before).trans hreordered.demands_perm

theorem Reordered.demands_perm (h : context.Reordered other) {pattern later : Pattern}
    (hpattern : pattern.Reordered later) (depth : ℕ) :
    (context.demands depth pattern).Perm (other.demands depth later) :=
  (Pattern.demands_perm_of_names (h.demandsWithin_perm depth) pattern).trans hpattern.demands_perm

end Context

theorem Flow.Takes.taken_perm {flow : Flow} {taking : Taking} {demands : List Bag} (h : flow.Takes taking)
    (hasks : taking.Asks demands) (start : Split) :
    ((flow [start]).map start.taken).Perm (demands.filter (· ≤ start.remaining.bag)) := by
  have htaking : taking start.remaining.bag = (demands.filter (· ≤ start.remaining.bag) : List Bag) :=
    hasks start.remaining.bag
  rw [← Multiset.coe_eq_coe, ← htaking]
  apply h.map_taken
  intro taken htaken
  rw [hasks start.remaining.bag] at htaken
  exact (Multiset.mem_filter.mp htaken).2

namespace Context

variable {context : Context} {pattern : Pattern}

theorem Affirmative.eventually_taken_perm (h : context.Affirmative pattern) {start : Split}
    {out : List Split} (hout : context.Yields pattern [start] out) : ∀ᶠ depth in atTop,
      (out.map start.taken).Perm ((context.demands depth pattern).filter (· ≤ start.remaining.bag)) := by
  filter_upwards [hout.eventually_flow] with depth hdepth
  rw [← hdepth]
  exact (context.takes_within depth pattern).taken_perm (h.asks_within depth) start

/-- A hand with more cards meets the demands that a smaller one meets. -/
theorem Affirmative.ne_nil_of_le (h : context.Affirmative pattern) {start larger : Split}
    {out more : List Split} (hle : start.remaining.bag ≤ larger.remaining.bag)
    (hout : context.Yields pattern [start] out) (hmore : context.Yields pattern [larger] more)
    (hsome : out ≠ []) : more ≠ [] := by
  rintro rfl
  -- A depth that is deep enough for both hands.
  obtain ⟨depth, htaken, hlarger⟩ :=
    ((h.eventually_taken_perm hout).and (h.eventually_taken_perm hmore)).exists
  obtain ⟨after, hafter⟩ := List.exists_mem_of_ne_nil out hsome
  have hdemand := htaken.mem_iff.mp (List.mem_map_of_mem hafter)
  rw [List.mem_filter, decide_eq_true_eq] at hdemand
  have hmet : start.taken after ∈ (context.demands depth pattern).filter (· ≤ larger.remaining.bag) := by
    rw [List.mem_filter, decide_eq_true_eq]
    exact ⟨hdemand.1, hdemand.2.trans hle⟩
  exact List.not_mem_nil (hlarger.mem_iff.mpr hmet)

theorem Affirmative.outcome_perm {other : Context} {later : Pattern} (h : context.Affirmative pattern)
    (hcontext : context.Reordered other) (hpattern : pattern.Reordered later) {start : Split}
    {out others : List Split} (hout : context.Yields pattern [start] out)
    (hothers : other.Yields later [start] others) :
    (others.map Split.outcome).Perm (out.map Split.outcome) := by
  obtain ⟨depth, htaken, hlater⟩ := ((h.eventually_taken_perm hout).and
    ((h.reordered hcontext hpattern).eventually_taken_perm hothers)).exists
  have hdemands := (hcontext.demands_perm hpattern depth).filter (· ≤ start.remaining.bag)
  exact hothers.leads.outcome_perm hout.leads (hlater.trans (hdemands.symm.trans htaken.symm))

/-- A pattern without absences takes its demands, as far as the hand can meet them. So a hand with more
cards has the pattern as well, and another order of children changes nothing but the order of splits and
of the cards used in them. Where references come to an end at some depth, as they do in an acyclic
context, evaluation does so for every hand, and the demands at this depth are one list for all hands; in
general they are those at every depth from some depth on. -/
theorem Affirmative.yields_demands (h : context.Affirmative pattern) :
    (∀ start out, context.Yields pattern [start] out →
      (∀ after ∈ out, after.selected.bag = start.selected.bag + start.taken after) ∧
      (∀ᶠ depth in atTop, (out.map start.taken).Perm
        ((context.demands depth pattern).filter (· ≤ start.remaining.bag))) ∧
      (∀ larger more, start.remaining.bag ≤ larger.remaining.bag →
        context.Yields pattern [larger] more → out ≠ [] → more ≠ []) ∧
      ∀ other later others, context.Reordered other → pattern.Reordered later →
        other.Yields later [start] others →
        (others.map Split.outcome).Perm (out.map Split.outcome)) ∧
    (∀ depth, context.Suffices depth pattern → ∀ start,
      (∃ out, context.Yields pattern [start] out ∧ (out.map start.taken).Perm
        ((context.demands depth pattern).filter (· ≤ start.remaining.bag))) ∧
      ∀ other later, context.Reordered other → pattern.Reordered later →
        ∃ others, other.Yields later [start] others) ∧
    (context.Acyclic → ∃ depth, context.Suffices depth pattern) := by
  refine ⟨fun start out hout => ⟨?_, h.eventually_taken_perm hout, ?_, ?_⟩, ?_,
    fun acyclic => acyclic.exists_suffices pattern⟩
  · intro after hafter
    obtain ⟨before, hbefore, used, hspends⟩ := hout.leads after hafter
    obtain rfl := List.mem_singleton.mp hbefore
    exact hspends.bag_selected
  · exact fun larger more hle hmore => h.ne_nil_of_le hle hout hmore
  · exact fun other later others hcontext hpattern => h.outcome_perm hcontext hpattern hout
  · intro depth hdepth start
    refine ⟨⟨_, ⟨depth, hdepth.step_follows.answer [start]⟩, ?_⟩, ?_⟩
    · exact (context.takes_within depth pattern).taken_perm (h.asks_within depth) start
    · intro other later hcontext hpattern
      exact ⟨_, depth, (hdepth.reordered hcontext hpattern).step_follows.answer [start]⟩

theorem Affirmative.yields_demands_pair :
    let context : Context :=
      ⟨fun name => if name = "pair" then some (.times 2 (.card "forest")) else none, fun _ => true⟩
    let pattern : Pattern := .all [.any [.card "forest", .card "swamp"], .any [.named "pair", .named "ramp"]]
    context.Affirmative pattern ∧ context.Suffices 1 pattern ∧
      context.demands 1 pattern = [{"forest", "forest", "forest"}, {"swamp", "forest", "forest"}] ∧
      ∃ out, context.Yields pattern [.ofHand ⟨["forest", "swamp", "forest"]⟩] out ∧
        out.map (Split.taken (.ofHand ⟨["forest", "swamp", "forest"]⟩)) =
          [{"swamp", "forest", "forest"}] := by
  intro context pattern
  have haffirmative : context.Affirmative pattern := by
    apply affirmative_of_affirms
    · intro name found hfound
      obtain ⟨-, rfl⟩ := Option.ite_some_none_eq_some.mp hfound
      rfl
    · rfl
  have hsuffices : context.Suffices 1 pattern := by
    intro name _ found hfound
    obtain ⟨-, rfl⟩ := Option.ite_some_none_eq_some.mp hfound
    exact List.forall_mem_nil _
  have hdemands : context.demands 1 pattern =
      [{"forest", "forest", "forest"}, {"swamp", "forest", "forest"}] := by decide
  obtain ⟨-, hlist, -⟩ := haffirmative.yields_demands
  obtain ⟨out, hout, htaken⟩ := (hlist 1 hsuffices (.ofHand ⟨["forest", "swamp", "forest"]⟩)).1
  rw [hdemands] at htaken
  exact ⟨haffirmative, hsuffices, hdemands, out, hout, List.perm_singleton.mp htaken⟩

/-! ### Demands without end -/

/-- The run goes on once with each number of forests there are. -/
theorem length_flow_run {count : ℕ} {split : Split}
    (h : split.remaining.cards = List.replicate count "forest") :
    (runContext_terminating.flow "run" [split]).length = count + 1 := by
  have hfound : runContext.resolve "run" = some runPattern := rfl
  have hrun : ∀ split, runContext_terminating.flow "run" [split] =
      split :: (runContext_terminating.flow "run" (Card.flow "forest" [split]) ++ []) :=
    fun split => congrFun (runContext_terminating.flow_of_some hfound) [split]
  induction count generalizing split with
  | zero =>
    have hnext : Card.flow "forest" [split] = [] := by
      rw [Card.flow_singleton, Split.has, Pile.has, h]
      rfl
    have hdry : runContext_terminating.flow "run" [] = [] :=
      (runContext_terminating.branching (.named "run")).nil
    rw [hrun, hnext, hdry]
    rfl
  | succ count ih =>
    have hhas : split.has "forest" = true :=
      (Pile.has_eq_true_iff _ _).mpr (h ▸ List.mem_cons_self)
    have hnext : Card.flow "forest" [split] = [split.use "forest"] := by
      rw [Card.flow_singleton, if_pos hhas]
    have huse : (split.use "forest").remaining.cards = List.replicate count "forest" := by
      change split.remaining.cards.erase "forest" = _
      rw [h, List.replicate_succ, List.erase_cons_head]
    rw [hrun, hnext, List.append_nil, List.length_cons, ih huse]

theorem runContext_affirmative : runContext.Affirmative (.named "run") := by
  apply affirmative_of_affirms
  · intro name found hfound
    obtain ⟨-, rfl⟩ := Option.ite_some_none_eq_some.mp hfound
    rfl
  · rfl

/-- Where a name leads back to itself, evaluation may always come to an end, and still there is no list
that holds the demands for every hand. -/
theorem run_demands_endless : runContext.Terminating ∧ ¬runContext.Acyclic ∧
    runContext.Affirmative (.named "run") ∧
    ∀ demands : List Bag, ∃ start out, runContext.Yields (.named "run") [start] out ∧
      ¬(out.map start.taken).Perm (demands.filter (· ≤ start.remaining.bag)) := by
  refine ⟨runContext_terminating, runContext_not_acyclic, runContext_affirmative, fun demands => ?_⟩
  -- One forest for each demand of the list, so that there is one outcome too many.
  let start : Split := .ofHand ⟨List.replicate demands.length "forest"⟩
  refine ⟨start, _, runContext_terminating.yields_flow (.named "run") [start], fun hperm => ?_⟩
  have hlength := hperm.length_eq
  rw [List.length_map] at hlength
  have hrun : (runContext_terminating.flow "run" [start]).length = demands.length + 1 :=
    length_flow_run rfl
  have hle := List.length_filter_le (fun demand => decide (demand ≤ start.remaining.bag)) demands
  exact absurd (hrun.symm.trans hlength) (by omega)

end Context

end OpeningHand
