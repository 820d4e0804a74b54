import Mathlib
import OpeningHand.Proofs.SimulationCounts
import OpeningHand.Proofs.UnmentionedNames

/-!
# A criterion under a fresh name

A criterion is added to a validated rule book under a name that occurs nowhere in it. Whatever its pattern
refers to, itself included, no other pattern sees it; so every hand has the same first criterion as before,
and only hands without one can satisfy the new criterion. A simulation gets one more row, whose counts are
missing from the hands without a criterion.
-/

namespace OpeningHand

/-! ### The flows of the other names -/

namespace RuleBook

variable {book : RuleBook} {declaration : Declaration}

/-- The name occurs nowhere in the rule book. -/
structure Fresh (book : RuleBook) (name : String) : Prop where
  unregistered : book.patterns.get? name = none
  unmentioned : book.patterns.Unmentioned name
  criteria : ∀ criterion ∈ book.criteria, name ∉ criterion.pattern.references

/-- The rule book after the declaration is added to it and all is validated. -/
abbrev extend (book : RuleBook) (declaration : Declaration) : RuleBook :=
  (book.add declaration).validate

theorem validated_extend (book : RuleBook) (declaration : Declaration) :
    (book.extend declaration).Validated :=
  .validate _

theorem resolve_extend (h : book.Validated) (hname : book.patterns.Unmentioned declaration.name)
    {name : String} (hne : name ≠ declaration.name) :
    (book.extend declaration).resolve name = book.resolve name := by
  have hget : (book.extend declaration).patterns.get? name = book.patterns.get? name := by
    change (book.patterns.insert declaration.name declaration.pattern).get? name = _
    rw [Registry.get?_insert, if_neg hne]
  have hhidden : name ∈ (book.extend declaration).hidden ↔ name ∈ book.hidden := by
    rw [(validated_extend book declaration).hidden_eq, h.hidden_eq]
    exact hname.mem_cyclicNames_insert_iff hne
  rw [resolve, resolve, hget]
  simp only [List.contains_iff_mem, hhidden]

theorem flow_extend (h : book.Validated) (hname : book.patterns.Unmentioned declaration.name)
    {name : String} (hne : name ≠ declaration.name) :
    (validated_extend book declaration).acyclic.flow name = h.acyclic.flow name := by
  induction name using h.acyclic.nameInduction with
  | unresolved name hnone =>
    have hlater : (book.extend declaration).context.resolve name = none :=
      (resolve_extend h hname hne).trans hnone
    rw [h.acyclic.flow_of_none hnone, Context.Acyclic.flow_of_none _ hlater]
  | resolved name pattern hfound ih =>
    have hlater : (book.extend declaration).context.resolve name = some pattern :=
      (resolve_extend h hname hne).trans hfound
    rw [h.acyclic.flow_of_some hfound, Context.Acyclic.flow_of_some _ hlater]
    have hpattern : declaration.name ∉ pattern.references :=
      hname pattern (Registry.mem_patterns_of_get? (resolve_eq_some_iff.mp hfound).1)
    apply Pattern.flow_congr
    exact fun target htarget => ih target htarget fun heq => hpattern (heq ▸ htarget)

/-- A pattern that does not mention the new name is evaluated as before. -/
theorem evaluate_extend (h : book.Validated) (hname : book.patterns.Unmentioned declaration.name)
    {pattern : Pattern} (hpattern : declaration.name ∉ pattern.references) (stream : List Split) :
    (book.extend declaration).evaluate pattern stream = book.evaluate pattern stream := by
  have hflow : pattern.flow (validated_extend book declaration).acyclic.flow =
      pattern.flow h.acyclic.flow := by
    apply Pattern.flow_congr
    exact fun name hmem => flow_extend h hname fun heq => hpattern (heq ▸ hmem)
  rw [((validated_extend book declaration).evaluate_follows pattern).answer, hflow,
    (h.evaluate_follows pattern).answer]

/-! ### The first criterion of a hand -/

section Hands

variable (h : book.Validated) (hfresh : book.Fresh declaration.name)
  (hcriterion : declaration.isCriterion = true) {hand : Pile} {index : Nat}
include h hfresh hcriterion

omit h hfresh in
theorem criteria_extend : (book.extend declaration).criteria = book.criteria ++ [declaration] :=
  if_pos hcriterion

omit hcriterion in
theorem satisfies_extend {criterion : Declaration} (hmem : criterion ∈ book.criteria) :
    (book.extend declaration).satisfies hand criterion.pattern =
      book.satisfies hand criterion.pattern := by
  rw [satisfies, satisfies,
    evaluate_extend h hfresh.unmentioned (hfresh.criteria criterion hmem)]

/-- The old criteria come first, and are satisfied as before. -/
theorem firstSatisfied_extend_iff (hindex : index < book.criteria.length) :
    (book.extend declaration).FirstSatisfied hand index ↔ book.FirstSatisfied hand index := by
  have hget : (book.extend declaration).criteria[index]? = book.criteria[index]? := by
    rw [criteria_extend hcriterion, List.getElem?_append_left hindex]
  have htake : (book.extend declaration).criteria.take index = book.criteria.take index := by
    rw [criteria_extend hcriterion, List.take_append_of_le_length hindex.le]
  constructor
  · rintro ⟨⟨criterion, hfound, hsatisfied⟩, hbefore⟩
    rw [hget] at hfound
    rw [htake] at hbefore
    rw [satisfies_extend h hfresh (List.mem_of_getElem? hfound)] at hsatisfied
    refine ⟨⟨criterion, hfound, hsatisfied⟩, fun other hother => ?_⟩
    rw [← satisfies_extend h hfresh (List.mem_of_mem_take hother)]
    exact hbefore other hother
  · rintro ⟨⟨criterion, hfound, hsatisfied⟩, hbefore⟩
    rw [← satisfies_extend h hfresh (List.mem_of_getElem? hfound)] at hsatisfied
    refine ⟨⟨criterion, hget ▸ hfound, hsatisfied⟩, fun other hother => ?_⟩
    rw [htake] at hother
    rw [satisfies_extend h hfresh (List.mem_of_mem_take hother)]
    exact hbefore other hother

theorem noneSatisfied_extend_iff : (book.extend declaration).NoneSatisfied hand ↔
    book.NoneSatisfied hand ∧
      (book.extend declaration).satisfies hand declaration.pattern = .ok false := by
  rw [NoneSatisfied, criteria_extend hcriterion, List.forall_mem_append, List.forall_mem_singleton]
  refine and_congr_left fun _ => forall₂_congr fun criterion hmem => ?_
  rw [satisfies_extend h hfresh hmem]

theorem firstSatisfied_extend_length_iff :
    (book.extend declaration).FirstSatisfied hand book.criteria.length ↔
      book.NoneSatisfied hand ∧
        (book.extend declaration).satisfies hand declaration.pattern = .ok true := by
  have hget : (book.extend declaration).criteria[book.criteria.length]? = some declaration := by
    rw [criteria_extend hcriterion, List.getElem?_concat_length]
  have htake : (book.extend declaration).criteria.take book.criteria.length = book.criteria := by
    rw [criteria_extend hcriterion, List.take_left]
  have hbefore : (∀ criterion ∈ book.criteria,
      (book.extend declaration).satisfies hand criterion.pattern = .ok false) ↔
        book.NoneSatisfied hand := by
    refine forall₂_congr fun criterion hmem => ?_
    rw [satisfies_extend h hfresh hmem]
  constructor
  · rintro ⟨⟨criterion, hfound, hsatisfied⟩, hothers⟩
    obtain rfl := Option.some.inj (hget.symm.trans hfound)
    rw [htake, hbefore] at hothers
    exact ⟨hothers, hsatisfied⟩
  · rintro ⟨hothers, hsatisfied⟩
    refine ⟨⟨declaration, hget, hsatisfied⟩, ?_⟩
    rwa [htake, hbefore]

/-- A hand without a criterion satisfies the new one or still none. -/
theorem noneSatisfied_iff_extend : book.NoneSatisfied hand ↔
    (book.extend declaration).FirstSatisfied hand book.criteria.length ∨
      (book.extend declaration).NoneSatisfied hand := by
  obtain ⟨passes, hpasses⟩ :=
    (validated_extend book declaration).exists_satisfies hand declaration.pattern
  rw [firstSatisfied_extend_length_iff h hfresh hcriterion,
    noneSatisfied_extend_iff h hfresh hcriterion, hpasses]
  cases passes <;> simp

theorem exists_firstMatch_extend : ∃ outcome later, book.firstMatch hand = .ok outcome ∧
    (book.extend declaration).firstMatch hand = .ok later ∧
    (later = outcome ∨ outcome = none ∧ later = some book.criteria.length) := by
  obtain ⟨outcome, houtcome⟩ := h.exists_firstMatch hand
  cases outcome with
  | none =>
    rcases (noneSatisfied_iff_extend h hfresh hcriterion).mp (firstMatch_eq_none_iff.mp houtcome) with
      hnew | hnone
    · exact ⟨none, some _, houtcome, firstMatch_eq_some_iff.mpr hnew, .inr ⟨rfl, rfl⟩⟩
    · exact ⟨none, none, houtcome, firstMatch_eq_none_iff.mpr hnone, .inl rfl⟩
  | some index =>
    have hcountable := countable_firstMatch_iff.mpr ⟨_, houtcome⟩
    obtain ⟨other, hother, hindex⟩ := hcountable
    obtain rfl : some index = other := Except.ok.inj (houtcome.symm.trans hother)
    refine ⟨some index, some index, houtcome, firstMatch_eq_some_iff.mpr ?_, .inl rfl⟩
    rw [firstSatisfied_extend_iff h hfresh hcriterion (hindex index rfl)]
    exact firstMatch_eq_some_iff.mp houtcome

end Hands

/-! ### The counts of a simulation -/

section Counts

variable (h : book.Validated) (hfresh : book.Fresh declaration.name)
  (hcriterion : declaration.isCriterion = true) {γ : Type} [Picker γ] {settings : Settings} {seed : UInt64}
  {deck : DeckList} {d index : Nat}
include h hfresh hcriterion

theorem hitCount_extend (hindex : index < book.criteria.length) :
    (book.extend declaration).hitCount γ settings seed deck d index =
      book.hitCount γ settings seed deck d index := by
  apply List.countP_congr
  intro i _
  rw [decide_eq_true_iff, decide_eq_true_iff, firstSatisfied_extend_iff h hfresh hcriterion hindex]

theorem missCount_extend : book.missCount γ settings seed deck d =
    (book.extend declaration).hitCount γ settings seed deck d book.criteria.length +
      (book.extend declaration).missCount γ settings seed deck d := by
  apply countP_eq_add_of_disjoint
  · intro i
    simp only [decide_eq_true_iff]
    exact noneSatisfied_iff_extend h hfresh hcriterion
  · intro i hnew hnone
    rw [decide_eq_true_iff, ← firstMatch_eq_some_iff] at hnew
    rw [decide_eq_true_iff, ← firstMatch_eq_none_iff, hnew] at hnone
    cases hnone

theorem matchCounts_extend (decks : List DeckList) :
    ((book.extend declaration).exactResults γ settings seed decks).matchCounts =
      (book.exactResults γ settings seed decks).matchCounts ++ [decks.zipIdx.map fun (deck, d) =>
        (book.extend declaration).hitCount γ settings seed deck d book.criteria.length] := by
  rw [matchCounts_exactResults, matchCounts_exactResults, criteria_extend hcriterion,
    List.length_append, List.length_singleton, List.range_succ, List.map_append, List.map_singleton]
  congr 1
  apply List.map_congr_left
  intro index hindex
  apply List.map_congr_left
  intro entry _
  exact hitCount_extend h hfresh hcriterion (List.mem_range.mp hindex)

end Counts

/-- A criterion under a fresh name claims only hands that had no criterion, and every other hand keeps its
own. So for each seed the rows of the old criteria are the same, and in the column of a deck the count of
the new one and the hands still without a criterion make up those that were without one before. -/
theorem extend_claims_unmatched (γ : Type) [Picker γ] (h : book.Validated)
    (hfresh : book.Fresh declaration.name) (hcriterion : declaration.isCriterion = true) :
    (book.extend declaration).criteria = book.criteria ++ [declaration] ∧
    (∀ hand, ∃ outcome later, book.firstMatch hand = .ok outcome ∧
      (book.extend declaration).firstMatch hand = .ok later ∧
      (later = outcome ∨ outcome = none ∧ later = some book.criteria.length)) ∧
    ∀ settings seed otherSeed decks, settings.seed = some seed → ∃ results later,
      book.simulate settings otherSeed decks γ = .ok results ∧
      (book.extend declaration).simulate settings otherSeed decks γ = .ok later ∧
      (∃ row, later.matchCounts = results.matchCounts ++ [row]) ∧
      ∀ d < decks.length, ∃ count misses, later.count book.criteria.length d = .ok count ∧
        later.noMatch d = .ok misses ∧ results.noMatch d = .ok (count + misses) := by
  refine ⟨criteria_extend hcriterion, fun hand => exists_firstMatch_extend h hfresh hcriterion, ?_⟩
  intro settings seed otherSeed decks hseed
  refine ⟨_, _, h.simulate_eq_ok hseed otherSeed decks,
    (validated_extend book declaration).simulate_eq_ok hseed otherSeed decks,
    ⟨_, matchCounts_extend h hfresh hcriterion decks⟩, ?_⟩
  intro d hd
  have hdeck : decks[d]? = some decks[d] := List.getElem?_eq_getElem hd
  have hindex : book.criteria.length < (book.extend declaration).criteria.length := by
    rw [criteria_extend hcriterion, List.length_append]
    exact Nat.lt_succ_self _
  have hexact := exact_exactResults γ book settings seed decks
  have hexact' := exact_exactResults γ (book.extend declaration) settings seed decks
  refine ⟨_, _, hexact'.count d _ hdeck _ hindex, hexact'.noMatch d _ hdeck, ?_⟩
  rw [hexact.noMatch d _ hdeck, missCount_extend h hfresh hcriterion]

def restDeclaration : Declaration :=
  ⟨"rest", true, .any [.named "rest", .all [.card "y", .absent (.named "one")]]⟩

theorem extend_claims_unmatched_rest :
    pairBook.Validated ∧ pairBook.Fresh restDeclaration.name ∧
      (∃ later, (pairBook.extend restDeclaration).firstMatch ⟨["y", "y"]⟩ = .ok later ∧
        (later = none ∨ later = some 2)) ∧
      ∃ later, (pairBook.extend restDeclaration).simulate pairSettings 0 pairDecks = .ok later ∧
        later.matchCounts.take 2 = pairResults.matchCounts ∧
        ∃ count misses, later.count 2 0 = .ok count ∧ later.noMatch 0 = .ok misses ∧
          count + misses = 3 := by
  have hvalidated : pairBook.Validated := .validate _
  have hfresh : pairBook.Fresh restDeclaration.name := by
    refine ⟨by cbv, ?_, ?_⟩
    · have hpatterns : pairBook.patterns.patterns = [.all [.card "x", .card "y"], .card "x"] := by cbv
      intro pattern hpattern
      rw [hpatterns] at hpattern
      rcases List.mem_pair.mp hpattern with rfl | rfl <;> exact List.not_mem_nil
    · intro criterion hcriterion
      rcases List.mem_pair.mp hcriterion with rfl | rfl <;> exact List.not_mem_nil
  have hresults : pairBook.simulate pairSettings 0 pairDecks = .ok pairResults := by decide +kernel
  have hnone : pairBook.firstMatch ⟨["y", "y"]⟩ = .ok none := by decide +kernel
  obtain ⟨-, hhands, hcounts⟩ := extend_claims_unmatched Generator hvalidated hfresh rfl
  refine ⟨hvalidated, hfresh, ?_, ?_⟩
  · obtain ⟨outcome, later, houtcome, hlater, hsame⟩ := hhands ⟨["y", "y"]⟩
    obtain rfl : none = outcome := Except.ok.inj (hnone.symm.trans houtcome)
    exact ⟨later, hlater, hsame.imp_right And.right⟩
  · obtain ⟨results, later, hbefore, hlater, ⟨row, hrows⟩, hcolumns⟩ :=
      hcounts pairSettings _ 0 pairDecks rfl
    obtain rfl : pairResults = results := Except.ok.inj (hresults.symm.trans hbefore)
    obtain ⟨count, misses, hcount, hmisses, hsum⟩ := hcolumns 0 (by decide)
    refine ⟨later, hlater, by rw [hrows]; rfl, count, misses, hcount, hmisses, ?_⟩
    exact (Except.ok.inj hsum).symm

end RuleBook

end OpeningHand
