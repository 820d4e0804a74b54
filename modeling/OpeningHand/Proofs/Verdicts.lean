import Mathlib
import OpeningHand.Proofs.OperandOrder
import OpeningHand.Proofs.SelectionRoom
import OpeningHand.Proofs.SettledRepetition

/-!
# When a pattern holds

A hand has a pattern if its stream does not run dry. Nothing comes of a dry stream, so the beginning of a row
holds wherever the whole row does. A repetition that holds therefore holds with a smaller count as well, and
above the number of cards the count does not matter. A threshold is made of the conjunctions of all selections
side by side, and holds if as many of the patterns hold together, or more. Absences make no difference to any
of this.
-/

namespace OpeningHand

namespace Pattern

variable {flows : String → Flow} {children row : List Pattern} {count size : ℕ}

/-! ### The flow of a threshold -/

theorem flowAll_append (front back : List Pattern) (stream : List Split) :
    flowAll flows (front ++ back) stream = flowAll flows back (flowAll flows front stream) := by
  simp only [flowAll_eq_foldl, List.foldl_append]

theorem flowAny_eq_flatMap (children : List Pattern) (stream : List Split) :
    flowAny flows children stream = children.flatMap fun child => child.flow flows stream := by
  induction children with
  | nil => rfl
  | cons child children ih =>
    rw [List.flatMap_cons, ← ih]
    rfl

theorem flow_allOf (children : List Pattern) : (allOf children).flow flows = flowAll flows children := by
  match children with
  | [] => rfl
  | [child] => rfl
  | _ :: _ :: _ => rfl

theorem flow_anyOf (h : children ≠ []) : (anyOf children).flow flows = flowAny flows children := by
  match children with
  | [] => exact absurd rfl h
  | [child] => exact funext fun stream => (List.append_nil _).symm
  | _ :: _ :: _ => rfl

theorem choices_one (children : List Pattern) : choices 1 children = children.map ([·]) := by
  induction children with
  | nil => rfl
  | cons child children ih =>
    rw [choices, ih, choices]
    rfl

/-- However a threshold is written, its flow is that of the conjunctions of all choices side by side. -/
theorem flow_threshold (h : count ≤ children.length) (stream : List Split) :
    (threshold count children).flow flows stream =
      (choices count children).flatMap fun row => flowAll flows row stream := by
  rw [threshold]
  split
  · next hcount =>
    rw [hcount, choices, List.flatMap_singleton]
    rfl
  · next hpos =>
    split
    · next hcount =>
      have hne : children ≠ [] := List.ne_nil_of_length_pos (by omega)
      rw [hcount, choices_one, flow_anyOf hne, flowAny_eq_flatMap, List.flatMap_map]
      rfl
    · split
      · next hcount => rw [flow_allOf, hcount, choices_length, List.flatMap_singleton]
      · rw [flow, flowAny_eq_flatMap, List.flatMap_map]
        rfl

/-! ### Whether there is a threshold -/

theorem atLeast_eq_none_iff : atLeast count children = .ok none ↔ children.length < count := by
  refine ⟨fun hnone => ?_, atLeast_of_lt⟩
  by_contra hle
  rcases atLeast_of_le (Nat.le_of_not_lt hle) with hsome | ⟨fault, -, hfault⟩
  · rw [hsome] at hnone
    cases hnone
  · rw [hfault] at hnone
    cases hnone

/-- There is a threshold up to the number of patterns, as long as its selections fit into memory. -/
theorem exists_atLeast_eq_some_iff : (∃ pattern, atLeast count children = .ok (some pattern)) ↔
    count ≤ children.length ∧ (count ≤ 1 ∨ children.length.choose count < 2 ^ 58) := by
  have hfew : ¬Selection.TooMany children.length count ↔
      count ≤ 1 ∨ children.length.choose count < 2 ^ 58 := by
    rw [Selection.TooMany, not_and_or, Nat.not_lt, Nat.not_le]
  rw [← hfew, ← exists_atLeast_eq_error_iff]
  constructor
  · rintro ⟨pattern, hsome⟩
    refine ⟨(threshold_of_atLeast hsome).1, ?_⟩
    rintro ⟨fault, hfault⟩
    rw [hsome] at hfault
    cases hfault
  · rintro ⟨hle, hnone⟩
    rcases atLeast_of_le hle with hsome | ⟨fault, -, hfault⟩
    · exact ⟨_, hsome⟩
    · exact absurd ⟨fault, hfault⟩ hnone

end Pattern

namespace Context

/-- Evaluation of the pattern on the stream comes to an end, and something comes of it. -/
def Holds (context : Context) (pattern : Pattern) (stream : List Split) : Prop :=
  ∃ out, context.Yields pattern stream out ∧ out ≠ []

namespace Terminating

variable {context : Context} {pattern : Pattern} {stream : List Split}

theorem holds_iff (terminating : context.Terminating) :
    context.Holds pattern stream ↔ pattern.flow terminating.flow stream ≠ [] := by
  constructor
  · rintro ⟨out, hout, hsome⟩
    rwa [terminating.yields_iff.mp hout] at hsome
  · exact fun hsome => ⟨_, terminating.yields_flow pattern stream, hsome⟩

/-! ### Repetitions -/

/-- A repetition that holds has held all the way. -/
theorem holds_times_of_le (terminating : context.Terminating) {count fewer : ℕ} (h : fewer ≤ count)
    (hholds : context.Holds (.times count pattern) stream) :
    context.Holds (.times fewer pattern) stream := by
  rw [terminating.holds_iff] at hholds ⊢
  obtain ⟨more, rfl⟩ := Nat.exists_eq_add_of_le h
  intro hdry
  apply hholds
  change (pattern.flow terminating.flow)^[fewer + more] stream = []
  change (pattern.flow terminating.flow)^[fewer] stream = [] at hdry
  rw [Nat.add_comm, Function.iterate_add_apply, hdry]
  exact Function.iterate_fixed (terminating.branching pattern).nil more

/-- Beyond the number of cards of a hand, a repetition holds for every count or for none, and if it holds for
a count, then also for each smaller one. -/
theorem holds_times_saturates (terminating : context.Terminating) (child : Pattern) (start : Split) :
    (∀ count, start.remaining.size < count → (context.Holds (.times count child) [start] ↔
      context.Holds (.times (start.remaining.size + 1) child) [start])) ∧
    ∀ count fewer, fewer ≤ count → context.Holds (.times count child) [start] →
      context.Holds (.times fewer child) [start] := by
  refine ⟨fun count hcount => ?_, fun count fewer hle => terminating.holds_times_of_le hle⟩
  -- The splits that are reached are the same, though there may be more copies of them.
  have hsame : ∀ split, split ∈ (Pattern.times count child).flow terminating.flow [start] ↔
      split ∈ (Pattern.times (start.remaining.size + 1) child).flow terminating.flow [start] :=
    fun split => (terminating.moving child).mem_iterate_iff hcount
  rw [terminating.holds_iff, terminating.holds_iff, not_iff_not, List.eq_nil_iff_forall_not_mem,
    List.eq_nil_iff_forall_not_mem]
  exact forall_congr' fun split => not_congr (hsame split)

/-- A run of forests, which may use no card, can be repeated for ever, and a forest that is followed by one
cannot. -/
theorem holds_times_saturates_run : runContext.Terminating ∧
    runContext.Holds (.times 18446744073709551615 (.named "run")) [.ofHand ⟨["forest", "swamp"]⟩] ∧
    ¬runContext.Holds (.times 18446744073709551615 (.all [.card "forest", .named "run"]))
      [.ofHand ⟨["forest", "swamp"]⟩] ∧
    runContext.Holds (.times 2 (.named "run")) [.ofHand ⟨["forest", "swamp"]⟩] := by
  have hrun : runContext.Holds (.times 3 (.named "run")) [.ofHand ⟨["forest", "swamp"]⟩] :=
    ⟨_, ⟨3, rfl⟩, by decide⟩
  obtain ⟨hsaturated, hfewer⟩ :=
    runContext_terminating.holds_times_saturates (.named "run") (.ofHand ⟨["forest", "swamp"]⟩)
  obtain ⟨hsaturated', -⟩ := runContext_terminating.holds_times_saturates
    (.all [.card "forest", .named "run"]) (.ofHand ⟨["forest", "swamp"]⟩)
  refine ⟨runContext_terminating, (hsaturated _ (by decide)).mpr hrun, ?_, hfewer 3 2 (by decide) hrun⟩
  rw [hsaturated' _ (by decide)]
  rintro ⟨out, hout, hsome⟩
  exact hsome (hout.unique ⟨3, by decide⟩)

/-! ### Thresholds -/

/-- The beginning of a row holds wherever the row does. -/
theorem holds_all_of_append (terminating : context.Terminating) {front back : List Pattern}
    (h : context.Holds (.all (front ++ back)) stream) : context.Holds (.all front) stream := by
  rw [terminating.holds_iff] at h ⊢
  intro hdry
  apply h
  change Pattern.flowAll terminating.flow (front ++ back) stream = []
  change Pattern.flowAll terminating.flow front stream = [] at hdry
  rw [Pattern.flowAll_append, hdry]
  exact (terminating.branching (.all back)).nil

/-- Of a larger part of the row that holds, the beginning with the right number of patterns is a choice. -/
theorem holds_threshold_iff (terminating : context.Terminating) {count : ℕ} {children : List Pattern}
    (h : count ≤ children.length) : context.Holds (.threshold count children) stream ↔
      ∃ row : List Pattern, row.Sublist children ∧ count ≤ row.length ∧
        context.Holds (.all row) stream := by
  have hchoice : context.Holds (.threshold count children) stream ↔
      ∃ row ∈ Pattern.choices count children, context.Holds (.all row) stream := by
    simp only [terminating.holds_iff]
    rw [Pattern.flow_threshold h, Ne, List.flatMap_eq_nil_iff]
    push Not
    rfl
  rw [hchoice]
  constructor
  · rintro ⟨row, hrow, hholds⟩
    obtain ⟨hsublist, hlength⟩ := Pattern.mem_choices_iff.mp hrow
    exact ⟨row, hsublist, hlength.ge, hholds⟩
  · rintro ⟨row, hsublist, hlength, hholds⟩
    refine ⟨row.take count, Pattern.mem_choices_iff.mpr ⟨?_, List.length_take_of_le hlength⟩, ?_⟩
    · exact (List.take_sublist count row).trans hsublist
    · rw [← List.take_append_drop count row] at hholds
      exact terminating.holds_all_of_append hholds

/-- There is no threshold above the number of patterns, and there is one up to it unless its selections are too
many for the memory. A threshold yields what the conjunctions of the selections yield, one after the other in
lexicographic order. It holds exactly if some of the patterns hold together that are at least as many, so a
threshold holds where a larger one does. -/
theorem yields_atLeast (terminating : context.Terminating) (count : ℕ) (children : List Pattern) :
    (Pattern.atLeast count children = .ok none ↔ children.length < count) ∧
    ((∃ pattern, Pattern.atLeast count children = .ok (some pattern)) ↔
      count ≤ children.length ∧ (count ≤ 1 ∨ children.length.choose count < 2 ^ 58)) ∧
    ∀ pattern, Pattern.atLeast count children = .ok (some pattern) →
      (∃ selections, Selection.Enumerates children.length count selections ∧
        ∃ result : List Pattern → Flow, (∀ row stream, context.Yields (.all row) stream (result row stream)) ∧
          ∀ stream, context.Yields pattern stream (selections.flatMap fun selection =>
            result (selection.filterMap (children[·]?)) stream)) ∧
      (∀ stream, context.Holds pattern stream ↔ ∃ row : List Pattern, row.Sublist children ∧
        count ≤ row.length ∧ context.Holds (.all row) stream) ∧
      ∀ more, Pattern.atLeast (count + 1) children = .ok (some more) →
        ∀ stream, context.Holds more stream → context.Holds pattern stream := by
  refine ⟨Pattern.atLeast_eq_none_iff, Pattern.exists_atLeast_eq_some_iff, fun pattern hpattern => ?_⟩
  obtain ⟨hle, rfl⟩ := Pattern.threshold_of_atLeast hpattern
  refine ⟨⟨_, Selection.enumerates_indices _ _, fun row => Pattern.flowAll terminating.flow row, ?_, ?_⟩,
    fun stream => terminating.holds_threshold_iff hle, fun more hmore stream hholds => ?_⟩
  · exact fun row stream => terminating.yields_flow (.all row) stream
  · intro stream
    have hrows : (Selection.indices children.length count).map
        (fun selection => selection.filterMap (children[·]?)) = Pattern.choices count children :=
      Pattern.map_indicesFrom children [] count
    have hflow := terminating.yields_flow (.threshold count children) stream
    rwa [Pattern.flow_threshold hle, ← hrows, List.flatMap_map] at hflow
  · obtain ⟨hless, rfl⟩ := Pattern.threshold_of_atLeast hmore
    obtain ⟨row, hsublist, hlength, hrow⟩ := (terminating.holds_threshold_iff hless).mp hholds
    exact (terminating.holds_threshold_iff hle).mpr ⟨row, hsublist, by omega, hrow⟩

/-- A forest and a run of forests are two of the three, though the absence between them does not hold. -/
theorem yields_atLeast_run : runContext.Terminating ∧
    Pattern.atLeast 2 [.card "forest", .absent (.card "swamp"), .named "run"] =
      .ok (some (.any [.all [.card "forest", .absent (.card "swamp")],
        .all [.card "forest", .named "run"], .all [.absent (.card "swamp"), .named "run"]])) ∧
    runContext.Holds (.any [.all [.card "forest", .absent (.card "swamp")],
      .all [.card "forest", .named "run"], .all [.absent (.card "swamp"), .named "run"]])
      [.ofHand ⟨["swamp", "forest"]⟩] := by
  obtain ⟨-, -, hthreshold⟩ := runContext_terminating.yields_atLeast 2
    [.card "forest", .absent (.card "swamp"), .named "run"]
  obtain ⟨-, hholds, -⟩ := hthreshold _ rfl
  have hrow : runContext.Holds (.all [.card "forest", .named "run"]) [.ofHand ⟨["swamp", "forest"]⟩] :=
    ⟨_, ⟨3, rfl⟩, by decide⟩
  exact ⟨runContext_terminating, rfl, (hholds _).mpr ⟨_, by decide, by decide, hrow⟩⟩

end Terminating

end Context

/-- The selections of half of sixty-two patterns can be counted, but there is no room for them. -/
theorem Pattern.atLeast_half_of_sixtyTwo : Selection.count 62 31 = .ok 465428353255261088 ∧
    atLeast 31 (List.replicate 62 (.card "x")) = .error .capacityOverflow :=
  ⟨rfl, rfl⟩

end OpeningHand
