import OpeningHand.Proofs.HandPartition
import OpeningHand.Proofs.TerminatingContexts

/-!
# Repetitions that settle

A repetition uses a card each time that it moves a split, so beyond the number of cards in a hand it
leads to the same splits, however often the pattern is repeated. Their copies may still become more. If
each split that comes back from the pattern comes back alone, the stream itself settles.
-/

namespace OpeningHand

open Filter

namespace Flow

/-! ### Flows along routes -/

/-- The splits of a stream go along a number of routes, each of which leads a split on to one split or to
none. What has gone along the first route comes first. -/
def Routed (flow : Flow) : Prop :=
  ∃ routes : List (Split → Option Split),
    ∀ stream, flow stream = routes.flatMap fun route => stream.filterMap route

variable {first second flow : Flow}

theorem routed_nowhere : Routed fun _ => [] := ⟨[], fun _ => rfl⟩

theorem routed_map (change : Split → Split) : Routed (List.map change) := by
  refine ⟨[some ∘ change], fun stream => ?_⟩
  rw [List.flatMap_singleton, List.filterMap_eq_map]

theorem routed_id : Routed id := by
  simpa only [List.map_id_fun] using routed_map id

theorem routed_filter (keep : Split → Bool) : Routed (List.filter keep) := by
  refine ⟨[Option.guard keep], fun stream => ?_⟩
  rw [List.flatMap_singleton, List.filterMap_eq_filter]

theorem Routed.side (h : first.Routed) (h' : second.Routed) :
    Routed fun stream => first stream ++ second stream := by
  obtain ⟨routes, hroutes⟩ := h
  obtain ⟨others, hothers⟩ := h'
  refine ⟨routes ++ others, fun stream => ?_⟩
  simp only [List.flatMap_append, hroutes, hothers]

theorem Routed.comp (h : first.Routed) (h' : second.Routed) : Routed (second ∘ first) := by
  obtain ⟨routes, hroutes⟩ := h
  obtain ⟨others, hothers⟩ := h'
  refine ⟨others.flatMap fun other => routes.map fun route split => (route split).bind other, ?_⟩
  intro stream
  rw [Function.comp_apply, hothers, hroutes, List.flatMap_assoc]
  refine List.flatMap_congr fun other _ => ?_
  rw [List.flatMap_map, List.filterMap_flatMap]
  exact List.flatMap_congr fun route _ => List.filterMap_filterMap

theorem Routed.iterate (h : flow.Routed) (count : ℕ) : Routed flow^[count] := by
  induction count with
  | zero => exact routed_id
  | succ count ih => exact h.comp ih

/-- A split that comes back alone along one route goes along no other route. -/
theorem route_eq_none {before after : List (Split → Option Split)} {route other : Split → Option Split}
    {split next : Split} (hother : other ∈ before ++ after) (hnext : other split = some next)
    (halone : ((before ++ route :: after).flatMap fun route => (route split).toList) = [split]) :
    next = split ∧ route split = none := by
  have hmem : next ∈ (before ++ after).flatMap fun route => (route split).toList :=
    List.mem_flatMap.mpr ⟨other, hother, Option.mem_toList.mpr hnext⟩
  have hperm : ((route split).toList ++ (before ++ after).flatMap fun route => (route split).toList).Perm
      [split] := by
    rw [List.flatMap_append, List.flatMap_cons] at halone
    rw [← halone, List.flatMap_append]
    exact List.perm_append_comm_assoc _ _ _
  cases hroute : route split with
  | none =>
    rw [hroute, Option.toList_none, List.nil_append] at hperm
    exact ⟨List.mem_singleton.mp (hperm.mem_iff.mp hmem), rfl⟩
  | some found =>
    rw [hroute, Option.toList_some, List.singleton_append] at hperm
    have hempty := Nat.succ.inj hperm.length_eq
    rw [List.length_eq_zero_iff.mp hempty] at hmem
    cases hmem

/-- If no split of a stream is moved, a route leads on from what comes of the stream as from the stream
itself. -/
theorem filterMap_route {routes : List (Split → Option Split)} {stream : List Split}
    (halone : ∀ split ∈ stream, ∀ route ∈ routes, ∀ next, route split = some next →
      (routes.flatMap fun route => (route split).toList) = [split])
    {route : Split → Option Split} (hroute : route ∈ routes) :
    (routes.flatMap fun other => stream.filterMap other).filterMap route = stream.filterMap route := by
  have hkept : (stream.filterMap route).filterMap route = stream.filterMap route := by
    rw [List.filterMap_filterMap]
    refine List.filterMap_congr fun split hsplit => ?_
    cases hnext : route split with
    | none => rfl
    | some next =>
      have hmem : next ∈ routes.flatMap fun route => (route split).toList :=
        List.mem_flatMap.mpr ⟨route, hroute, Option.mem_toList.mpr hnext⟩
      rw [halone split hsplit route hroute next hnext, List.mem_singleton] at hmem
      rw [hmem] at hnext
      rw [hmem, Option.bind_some, hnext]
  obtain ⟨before, after, rfl⟩ := List.append_of_mem hroute
  -- What has gone along another route does not go along this one.
  have hstray : ∀ others ⊆ before ++ after,
      (others.flatMap fun other => stream.filterMap other).filterMap route = [] := by
    intro others hothers
    rw [List.filterMap_eq_nil_iff]
    intro next hnext
    obtain ⟨other, hother, hnext⟩ := List.mem_flatMap.mp hnext
    obtain ⟨split, hsplit, hnext⟩ := List.mem_filterMap.mp hnext
    have hroutes : other ∈ before ++ route :: after :=
      List.perm_middle.mem_iff.mpr (List.mem_cons_of_mem route (hothers hother))
    obtain ⟨rfl, hnone⟩ :=
      route_eq_none (hothers hother) hnext (halone split hsplit other hroutes next hnext)
    exact hnone
  rw [List.flatMap_append, List.flatMap_cons, List.filterMap_append, List.filterMap_append,
    hstray before (List.subset_append_left _ _), hstray after (List.subset_append_right _ _), hkept,
    List.nil_append, List.append_nil]

/-- A stream whose splits come back alone or not at all is settled after one flow. -/
theorem Routed.flow_flow (h : flow.Routed) {stream : List Split}
    (hback : ∀ split ∈ stream, flow [split] = [] ∨ flow [split] = [split]) :
    flow (flow stream) = flow stream := by
  obtain ⟨routes, hroutes⟩ := h
  have hsingle : ∀ split, flow [split] = routes.flatMap fun route => (route split).toList := by
    intro split
    rw [hroutes]
    refine List.flatMap_congr fun route _ => ?_
    cases hroute : route split with
    | none => rw [List.filterMap_cons_none hroute, List.filterMap_nil, Option.toList_none]
    | some next => rw [List.filterMap_cons_some hroute, List.filterMap_nil, Option.toList_some]
  have halone : ∀ split ∈ stream, ∀ route ∈ routes, ∀ next, route split = some next →
      (routes.flatMap fun route => (route split).toList) = [split] := by
    intro split hsplit route hroute next hnext
    rcases hback split hsplit with hnone | hself
    · rw [hsingle, List.flatMap_eq_nil_iff] at hnone
      have hempty := hnone route hroute
      rw [hnext, Option.toList_some] at hempty
      cases hempty
    · rw [← hsingle, hself]
  rw [hroutes stream, hroutes]
  exact List.flatMap_congr fun route hroute => filterMap_route halone hroute

end Flow

/-! ### The flow of a pattern goes along routes -/

theorem Card.flow_routed (card : Card) : (Card.flow card).Routed :=
  (Flow.routed_filter _).comp (Flow.routed_map _)

namespace Pattern

variable {flows : String → Flow}

theorem flowAll_routed {children : List Pattern} (h : ∀ child ∈ children, (child.flow flows).Routed) :
    (flowAll flows children).Routed := by
  induction children with
  | nil => exact Flow.routed_id
  | cons child children ih =>
    obtain ⟨hchild, hchildren⟩ := List.forall_mem_cons.mp h
    exact hchild.comp (ih hchildren)

theorem flowAny_routed {children : List Pattern} (h : ∀ child ∈ children, (child.flow flows).Routed) :
    (flowAny flows children).Routed := by
  induction children with
  | nil => exact Flow.routed_nowhere
  | cons child children ih =>
    obtain ⟨hchild, hchildren⟩ := List.forall_mem_cons.mp h
    exact hchild.side (ih hchildren)

theorem flow_routed (h : ∀ name, (flows name).Routed) (pattern : Pattern) :
    (pattern.flow flows).Routed := by
  induction pattern with
  | always => exact Flow.routed_id
  | card name => exact Card.flow_routed name
  | named name => exact h name
  | all children ih => exact flowAll_routed ih
  | any children ih => exact flowAny_routed ih
  | times count child ih => exact ih.iterate count
  | absent child _ => exact Flow.routed_filter _

end Pattern

/-! ### Splits that a flow moves have fewer cards left -/

namespace Split.Spends

variable {before after : Split} {used : List Card}

theorem eq_of_nil (h : before.Spends [] after) : after = before := by
  have hremaining := h.remaining
  have hselected := h.selected
  rw [List.diff_nil] at hremaining
  rw [List.append_nil] at hselected
  change (⟨⟨after.remaining.cards⟩, ⟨after.selected.cards⟩⟩ : Split) = before
  rw [hremaining, hselected]

theorem size_lt (h : before.Spends used after) (hmoved : after ≠ before) :
    after.remaining.size < before.remaining.size := by
  have hlength := h.parted.length_eq
  rw [List.length_append] at hlength
  have hused : used ≠ [] := by
    rintro rfl
    exact hmoved h.eq_of_nil
  have hpos := List.length_pos_of_ne_nil hused
  change after.remaining.cards.length < before.remaining.cards.length
  omega

end Split.Spends

/-- From a split the flow goes on to splits that come from it by using cards, and it does so with each
split of a stream. -/
structure Flow.Moving (flow : Flow) : Prop where
  branching : flow.Branching
  leads : ∀ stream, Leads stream (flow stream)

namespace Flow.Moving

variable {flow : Flow} {start before after : Split} {count : ℕ}

theorem size_lt (h : flow.Moving) (hafter : after ∈ flow [before]) (hmoved : after ≠ before) :
    after.remaining.size < before.remaining.size := by
  obtain ⟨split, hsplit, used, hspends⟩ := h.leads [before] after hafter
  obtain rfl := List.mem_singleton.mp hsplit
  exact hspends.size_lt hmoved

theorem mem_iterate_succ (h : flow.Moving) : after ∈ flow^[count + 1] [start] ↔
    ∃ before ∈ flow^[count] [start], after ∈ flow [before] := by
  rw [Function.iterate_succ_apply', (h.branching _).mem_iff, List.mem_flatMap]

/-- On a way that is longer than the number of cards it uses, some split stays as it is. So the way can
be made longer and shorter by one. -/
theorem mem_iterate_of_lt (h : flow.Moving) (hafter : after ∈ flow^[count] [start])
    (hlong : start.remaining.size < after.remaining.size + count) :
    after ∈ flow^[count + 1] [start] ∧ ∃ less, count = less + 1 ∧ after ∈ flow^[less] [start] := by
  induction count generalizing after with
  | zero =>
    rw [List.mem_singleton.mp hafter] at hlong
    exact absurd hlong (Nat.lt_irrefl _)
  | succ count ih =>
    obtain ⟨before, hbefore, hnext⟩ := h.mem_iterate_succ.mp hafter
    by_cases hmoved : after = before
    · -- The last flow leaves the split as it is, so it can be left out or done once more.
      subst hmoved
      exact ⟨h.mem_iterate_succ.mpr ⟨after, hafter, hnext⟩, count, rfl, hbefore⟩
    · have hsize := h.size_lt hnext hmoved
      obtain ⟨hmore, less, rfl, hless⟩ := ih hbefore (by omega)
      exact ⟨h.mem_iterate_succ.mpr ⟨before, hmore, hnext⟩, less + 1, rfl,
        h.mem_iterate_succ.mpr ⟨before, hless, hnext⟩⟩

/-- Beyond the number of cards, the same splits are reached however often the flow is repeated. -/
theorem mem_iterate_iff (h : flow.Moving) (hcount : start.remaining.size < count) :
    after ∈ flow^[count] [start] ↔ after ∈ flow^[start.remaining.size + 1] [start] := by
  induction count, hcount using Nat.le_induction with
  | base => rfl
  | succ count hcount ih =>
    rw [← ih]
    constructor
    · intro hafter
      obtain ⟨-, less, hless, hbefore⟩ := h.mem_iterate_of_lt hafter (by omega)
      rwa [Nat.succ.inj hless]
    · exact fun hafter => (h.mem_iterate_of_lt hafter (by omega)).1

/-- If splits come back alone, then after some flows a split has used as many cards, or it is left as it
is. -/
theorem fixed_or_le (h : flow.Moving) (hback : ∀ split, split ∈ flow [split] → flow [split] = [split])
    (hafter : after ∈ flow^[count] [start]) :
    flow [after] = [after] ∨ after.remaining.size + count ≤ start.remaining.size := by
  induction count generalizing after with
  | zero =>
    obtain rfl := List.mem_singleton.mp hafter
    exact .inr (Nat.le_refl _)
  | succ count ih =>
    obtain ⟨before, hbefore, hnext⟩ := h.mem_iterate_succ.mp hafter
    by_cases hmoved : after = before
    · subst hmoved
      exact .inl (hback after hnext)
    · have hsize := h.size_lt hnext hmoved
      rcases ih hbefore with hfixed | hle
      · rw [hfixed, List.mem_singleton] at hnext
        exact absurd hnext hmoved
      · exact .inr (by omega)

/-- After as many flows as there are cards, no split is moved any more. -/
theorem eq_nil_or_fixed (h : flow.Moving)
    (hback : ∀ split, split ∈ flow [split] → flow [split] = [split])
    (hafter : after ∈ flow^[start.remaining.size] [start]) :
    flow [after] = [] ∨ flow [after] = [after] := by
  rcases h.fixed_or_le hback hafter with hfixed | hle
  · exact .inr hfixed
  · rw [or_iff_not_imp_left]
    intro hsome
    obtain ⟨next, hnext⟩ := List.exists_mem_of_ne_nil _ hsome
    by_cases hmoved : next = after
    · exact hback after (hmoved ▸ hnext)
    · have hsize := h.size_lt hnext hmoved
      omega

end Flow.Moving

/-! ### Repetitions of a pattern -/

namespace Context

variable {context : Context}

theorem routed_within (context : Context) (depth : ℕ) (pattern : Pattern) :
    (pattern.flow (context.flowWithin depth)).Routed :=
  Pattern.flow_routed (flowWithin_induction Flow.routed_nowhere
    (fun _ hflows pattern => Pattern.flow_routed hflows pattern) context depth) pattern

namespace Terminating

theorem moving (terminating : context.Terminating) (pattern : Pattern) :
    (pattern.flow terminating.flow).Moving :=
  ⟨terminating.branching pattern, fun stream => (terminating.yields_flow pattern stream).leads⟩

/-- At some depth, the flow has its routes for the splits of a stream and for what comes of it. -/
theorem flow_flow (terminating : context.Terminating) (pattern : Pattern) {stream : List Split}
    (hback : ∀ split ∈ stream, pattern.flow terminating.flow [split] = [] ∨
      pattern.flow terminating.flow [split] = [split]) :
    pattern.flow terminating.flow (pattern.flow terminating.flow stream) =
      pattern.flow terminating.flow stream := by
  have hsingles : {single | ∃ split ∈ stream, [split] = single}.Finite :=
    (List.finite_toSet stream).image _
  -- The routes may differ from depth to depth, so one depth has to do for all of these streams.
  have hstreams := (hsingles.insert (pattern.flow terminating.flow stream)).insert stream
  obtain ⟨depth, hdepth⟩ := (terminating.eventually_flow_eq pattern hstreams).exists
  have hstream := hdepth stream (.inl rfl)
  have hnext := hdepth (pattern.flow terminating.flow stream) (.inr (.inl rfl))
  rw [← hnext, ← hstream]
  apply (context.routed_within depth pattern).flow_flow
  intro split hsplit
  rw [hdepth [split] (.inr (.inr ⟨split, hsplit, rfl⟩))]
  exact hback split hsplit

/-- Beyond the number of cards of a hand, a repetition leads to the same splits whatever the count. If
moreover a split that comes back from the pattern comes back alone, the stream does not change any more
after one time more than there are cards, and it is the result for all larger counts. -/
theorem yields_times_settled (terminating : context.Terminating) (child : Pattern) (start : Split) :
    ∃ settled, context.Yields (.times (start.remaining.size + 1) child) [start] settled ∧
      (∀ count, start.remaining.size < count →
        ∃ out, context.Yields (.times count child) [start] out ∧ ∀ split, split ∈ out ↔ split ∈ settled) ∧
      ((∀ split out, context.Yields child [split] out → split ∈ out → out = [split]) →
        context.Yields child settled settled ∧ ∀ count, start.remaining.size < count →
          context.Yields (.times count child) [start] settled) := by
  have hmoving := terminating.moving child
  refine ⟨_, terminating.yields_flow _ [start], fun count hcount => ?_, fun hback => ?_⟩
  · exact ⟨_, terminating.yields_flow _ [start], fun split => hmoving.mem_iterate_iff hcount⟩
  · -- A split that the last pass leaves is one that stays, so another pass does not even change the order.
    have halone : ∀ split, split ∈ child.flow terminating.flow [split] →
        child.flow terminating.flow [split] = [split] :=
      fun split => hback split _ (terminating.yields_flow child [split])
    have hsettled : child.flow terminating.flow
        ((child.flow terminating.flow)^[start.remaining.size + 1] [start]) =
        (child.flow terminating.flow)^[start.remaining.size + 1] [start] := by
      rw [Function.iterate_succ_apply']
      exact terminating.flow_flow child fun split => hmoving.eq_nil_or_fixed halone
    refine ⟨terminating.yields_iff.mpr hsettled.symm, fun count hcount => ?_⟩
    rw [terminating.yields_iff]
    obtain ⟨more, rfl⟩ := Nat.exists_eq_add_of_lt hcount
    change _ = (child.flow terminating.flow)^[start.remaining.size + more + 1] [start]
    rw [Nat.add_right_comm, Nat.add_comm (start.remaining.size + 1) more, Function.iterate_add_apply,
      Function.iterate_fixed hsettled]
    rfl

/-- All forests are used, whatever else is in the hand. -/
theorem yields_times_settled_forests : runContext.Terminating ∧
    runContext.Yields
      (.times 18446744073709551615 (.any [.card "forest", .absent (.card "forest")]))
      [.ofHand ⟨["forest", "swamp", "forest"]⟩] [⟨⟨["swamp"]⟩, ⟨["forest", "forest"]⟩⟩] := by
  have hback : ∀ split out, runContext.Yields (.any [.card "forest", .absent (.card "forest")]) [split] out →
      split ∈ out → out = [split] := by
    intro split out hout hmem
    rw [runContext_terminating.yields_iff] at hout
    change out = Card.flow "forest" [split] ++ (Flow.refused (Card.flow "forest") [split] ++ []) at hout
    rw [Flow.refused, List.filter_singleton, Card.flow_singleton] at hout
    split at hout
    · have hsingle : out = [split.use "forest"] := hout
      rw [hsingle] at hmem
      exact hsingle.trans (congrArg ([·]) (List.mem_singleton.mp hmem).symm)
    · rw [hout]
      rfl
  obtain ⟨settled, hfirst, -, hsettles⟩ := runContext_terminating.yields_times_settled
    (.any [.card "forest", .absent (.card "forest")]) (.ofHand ⟨["forest", "swamp", "forest"]⟩)
  have hfour : runContext.Yields (.times 4 (.any [.card "forest", .absent (.card "forest")]))
      [.ofHand ⟨["forest", "swamp", "forest"]⟩] [⟨⟨["swamp"]⟩, ⟨["forest", "forest"]⟩⟩] := ⟨0, by decide⟩
  rw [hfirst.unique hfour] at hsettles
  exact ⟨runContext_terminating, (hsettles hback).2 18446744073709551615 (by decide)⟩

/-- Two absences side by side let the splits of an empty hand come back twice each time. -/
theorem times_absences_double : runContext.Terminating ∧
    runContext.Yields (.times 2 (.any [.absent (.card "forest"), .absent (.card "swamp")]))
      [.ofHand .empty] (List.replicate 4 (.ofHand .empty)) ∧
    runContext.Yields (.times 3 (.any [.absent (.card "forest"), .absent (.card "swamp")]))
      [.ofHand .empty] (List.replicate 8 (.ofHand .empty)) :=
  ⟨runContext_terminating, ⟨0, by decide⟩, ⟨0, by decide⟩⟩

end Terminating

end Context

end OpeningHand
