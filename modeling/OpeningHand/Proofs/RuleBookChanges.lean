import Mathlib
import OpeningHand.Proofs.UnmentionedNames
import OpeningHand.Proofs.ValidatedBooks

/-!
# Changes to a rule book

A rule book can be added to and validated again in any order. What it hides are the names that led back to
themselves when it was last validated. Declarations added later may close a cycle, which is then followed,
or break one, whose names stay hidden; so the right names are hidden exactly as long as the cyclic names
are the same as at the last validation.
-/

namespace OpeningHand

def Registry.Cyclic (registry : Registry) (name : String) : Prop :=
  Relation.TransGen (RefersTo registry.entries) name name

theorem Registry.Cyclic.isSome_get? {registry : Registry} {name : String} (h : registry.Cyclic name) :
    (registry.get? name).isSome := by
  obtain ⟨next, ⟨pattern, hpattern, -⟩, -⟩ := Relation.TransGen.head'_iff.mp h
  exact Option.isSome_of_mem hpattern

/-- A name that resolves to itself yields nothing, however deep lookups are nested. -/
theorem Context.not_yields_of_resolve_self {context : Context} {name : String}
    (h : context.resolve name = some (.named name)) (stream out : List Split) :
    ¬context.Yields (.named name) stream out := by
  rintro ⟨depth, hout⟩
  induction depth with
  | zero =>
    rw [step_eq_lookup, Pattern.step, lookup_zero_of_some h] at hout
    cases hout
  | succ depth ih =>
    rw [step_eq_lookup, Pattern.step, lookup_succ_of_some h] at hout
    exact ih hout

namespace RuleBook

inductive Change where
  | add (declaration : Declaration)
  | validate
  | validateAgainst (decks : List DeckList)

def change (book : RuleBook) : Change → RuleBook
  | .add declaration => book.add declaration
  | .validate => book.validate
  | .validateAgainst decks => book.validateAgainst decks

def changeAll (book : RuleBook) : List Change → RuleBook
  | [] => book
  | change :: changes => (book.change change).changeAll changes

/-- The patterns of the last validation, where `before` are those of the last one before the change. -/
def lastReviewed (before : Registry) (book : RuleBook) : Change → Registry
  | .add _ => before
  | .validate => book.patterns
  | .validateAgainst _ => book.patterns

def lastReviewedAll (before : Registry) (book : RuleBook) : List Change → Registry
  | [] => before
  | change :: changes => lastReviewedAll (lastReviewed before book change) (book.change change) changes

/-- What is hidden are the cyclic names of the registry; every other name resolves to its pattern. -/
def HidesCyclesOf (book : RuleBook) (registry : Registry) : Prop :=
  ∀ name, (registry.Cyclic name → book.resolve name = none) ∧
    (¬registry.Cyclic name → book.resolve name = book.patterns.get? name)

/-- The book was last validated with these patterns, and none of their names has got lost since. -/
structure ReviewedWith (reviewed : Registry) (book : RuleBook) : Prop where
  hidden_eq : book.hidden = reviewed.cyclicNames
  isSome_get? : ∀ name, (reviewed.get? name).isSome → (book.patterns.get? name).isSome

variable {reviewed : Registry} {book : RuleBook} {declaration : Declaration}

/-! ### One change and a row of changes -/

theorem Validated.reviewedWith (h : book.Validated) : ReviewedWith book.patterns book :=
  ⟨h.hidden_eq, fun _ hsome => hsome⟩

theorem ReviewedWith.change (h : ReviewedWith reviewed book) (change : Change) :
    ReviewedWith (lastReviewed reviewed book change) (book.change change) := by
  cases change with
  | add declaration =>
    refine ⟨h.hidden_eq, fun name hsome => ?_⟩
    change ((book.patterns.insert declaration.name declaration.pattern).get? name).isSome
    rw [Registry.get?_insert]
    split
    · rfl
    · exact h.isSome_get? name hsome
  | validate => exact (Validated.validate book).reviewedWith
  | validateAgainst decks => exact (Validated.validateAgainst book decks).reviewedWith

theorem ReviewedWith.changeAll (h : ReviewedWith reviewed book) (changes : List Change) :
    ReviewedWith (lastReviewedAll reviewed book changes) (book.changeAll changes) := by
  induction changes generalizing reviewed book with
  | nil => exact h
  | cons change changes ih => exact ih (h.change change)

theorem changeAll_concat (book : RuleBook) (changes : List Change) (change : Change) :
    book.changeAll (changes ++ [change]) = (book.changeAll changes).change change := by
  induction changes generalizing book with
  | nil => rfl
  | cons first changes ih => exact ih (book.change first)

theorem lastReviewedAll_concat (changes : List Change) (change : Change) :
    lastReviewedAll reviewed book (changes ++ [change]) =
      lastReviewed (lastReviewedAll reviewed book changes) (book.changeAll changes) change := by
  induction changes generalizing reviewed book with
  | nil => rfl
  | cons first changes ih => exact ih

/-- Behind a validation, and before any change, the patterns are those of the last validation. -/
theorem lastReviewedAll_eq_patterns (hstart : reviewed = book.patterns) {changes : List Change}
    (hlast : ∀ declaration, changes.getLast? ≠ some (.add declaration)) :
    lastReviewedAll reviewed book changes = (book.changeAll changes).patterns := by
  cases changes using List.reverseRecOn with
  | nil => exact hstart
  | append_singleton changes change =>
    rw [lastReviewedAll_concat, changeAll_concat]
    cases change with
    | add declaration => exact absurd (List.getLast?_concat ..) (hlast declaration)
    | validate => rfl
    | validateAgainst decks => rfl

/-! ### What is hidden -/

namespace ReviewedWith

theorem mem_hidden_iff (h : ReviewedWith reviewed book) (name : String) :
    name ∈ book.hidden ↔ reviewed.Cyclic name := by
  rw [h.hidden_eq]
  exact reviewed.mem_cyclicNames_iff name

theorem hidesCyclesOf (h : ReviewedWith reviewed book) : book.HidesCyclesOf reviewed := by
  intro name
  rw [← h.mem_hidden_iff, resolve]
  constructor
  · exact fun hhidden => if_pos (List.contains_iff_mem.mpr hhidden)
  · exact fun hvisible => if_neg (mt List.contains_iff_mem.mp hvisible)

/-- The right names are hidden exactly if no name has become cyclic, or has ceased to be so, since the last
validation. -/
theorem hidesCyclesOf_patterns_iff (h : ReviewedWith reviewed book) :
    book.HidesCyclesOf book.patterns ↔ ∀ name, reviewed.Cyclic name ↔ book.patterns.Cyclic name := by
  constructor
  · intro hright name
    obtain ⟨hcyclic, hother⟩ := h.hidesCyclesOf name
    obtain ⟨hcyclic', hother'⟩ := hright name
    constructor
    · intro hname
      by_contra hnot
      have hsome := h.isSome_get? name hname.isSome_get?
      rw [← hother' hnot, hcyclic hname] at hsome
      cases hsome
    · intro hname
      by_contra hnot
      have hsome := hname.isSome_get?
      rw [← hother hnot, hcyclic' hname] at hsome
      cases hsome
  · intro hsame name
    rw [← hsame name]
    exact h.hidesCyclesOf name

/-- No evaluation goes round in circles if every cyclic name was cyclic at the last validation. -/
theorem exists_evaluate (h : ReviewedWith reviewed book)
    (hcyclic : ∀ name, book.patterns.Cyclic name → reviewed.Cyclic name) (pattern : Pattern)
    (stream : List Split) : ∃ out, book.evaluate pattern stream = .ok out := by
  have hunlooped : book.context.Unlooped := by
    apply unlooped_of_hidden
    intro name hname
    exact (h.mem_hidden_iff name).mpr (hcyclic name ((book.patterns.mem_cyclicNames_iff name).mp hname))
  exact ⟨_, (evaluate_follows_of_unlooped hunlooped pattern).answer stream⟩

/-- The right names stay hidden when nothing mentions the name of a new declaration. -/
theorem hidesCyclesOf_add (h : ReviewedWith reviewed book) (hright : book.HidesCyclesOf book.patterns)
    (hname : book.patterns.Unmentioned declaration.name)
    (hself : declaration.name ∉ declaration.pattern.references) :
    (book.add declaration).HidesCyclesOf (book.add declaration).patterns := by
  refine (h.change (.add declaration)).hidesCyclesOf_patterns_iff.mpr fun name => ?_
  refine (h.hidesCyclesOf_patterns_iff.mp hright name).trans ?_
  change book.patterns.Cyclic name ↔
    (book.patterns.insert declaration.name declaration.pattern).Cyclic name
  by_cases heq : name = declaration.name
  · subst heq
    refine iff_of_false (fun hcyclic => hname.ne_of_transGen hcyclic rfl) fun hcyclic => hself ?_
    exact hname.mem_cyclicNames_insert_self_iff.mp ((Registry.mem_cyclicNames_iff _ _).mpr hcyclic)
  · exact (hname.transGen_insert_iff heq).symm

end ReviewedWith

/-- However a rule book has been changed since it was empty or read, what it hides are the names that were
cyclic when it was last validated. These are the right ones right after a validation, and in general
exactly if no other names are cyclic now; a declaration whose name is mentioned nowhere keeps them right.
Evaluation comes to an end as long as no new name has become cyclic. -/
theorem hidesCyclesOf_changeAll {start : RuleBook}
    (hstart : start = empty ∨ ∃ text, read text = .ok start) (changes : List Change) :
    let book := start.changeAll changes
    let reviewed := lastReviewedAll start.patterns start changes
    book.HidesCyclesOf reviewed ∧
    (book.HidesCyclesOf book.patterns ↔ ∀ name, reviewed.Cyclic name ↔ book.patterns.Cyclic name) ∧
    ((∀ declaration, changes.getLast? ≠ some (.add declaration)) →
      reviewed = book.patterns ∧ book.HidesCyclesOf book.patterns) ∧
    ((∀ name, book.patterns.Cyclic name → reviewed.Cyclic name) →
      ∀ pattern stream, ∃ out, book.evaluate pattern stream = .ok out) ∧
    ∀ declaration : Declaration, book.HidesCyclesOf book.patterns →
      book.patterns.Unmentioned declaration.name → declaration.name ∉ declaration.pattern.references →
        (book.add declaration).HidesCyclesOf (book.add declaration).patterns := by
  intro book reviewed
  have hreviewed : ReviewedWith reviewed book := by
    refine ReviewedWith.changeAll ?_ changes
    rcases hstart with rfl | ⟨text, hread⟩
    · exact ⟨rfl, fun _ hsome => hsome⟩
    · exact (validated_of_read hread).reviewedWith
  refine ⟨hreviewed.hidesCyclesOf, hreviewed.hidesCyclesOf_patterns_iff, ?_, ?_, ?_⟩
  · intro hlast
    have hpatterns : reviewed = book.patterns := lastReviewedAll_eq_patterns rfl hlast
    exact ⟨hpatterns, hpatterns ▸ hreviewed.hidesCyclesOf⟩
  · exact hreviewed.exists_evaluate
  · exact fun declaration hright hname hself => hreviewed.hidesCyclesOf_add hright hname hself

def loopRules : List Char :=
  "<a>: <a>".toList

def loopBook : RuleBook :=
  (empty.add ⟨"a", false, .named "a"⟩).validate

theorem read_loopRules : read loopRules = .ok loopBook := by cbv

/-- The cycle is broken and the book validated again: the name is no longer hidden. -/
theorem hidesCyclesOf_changeAll_loop :
    let book := loopBook.changeAll [.add ⟨"a", false, .card "x"⟩, .validate]
    read loopRules = .ok loopBook ∧ loopBook.resolve "a" = none ∧ book.HidesCyclesOf book.patterns ∧
      ∀ pattern stream, ∃ out, book.evaluate pattern stream = .ok out := by
  intro book
  obtain ⟨-, -, hlast, hends, -⟩ := hidesCyclesOf_changeAll (.inr ⟨loopRules, read_loopRules⟩)
    [.add ⟨"a", false, .card "x"⟩, .validate]
  obtain ⟨hreviewed, hhides⟩ := hlast (by rintro declaration ⟨⟩)
  rw [hreviewed] at hends
  exact ⟨read_loopRules, by cbv, hhides, hends fun _ hcyclic => hcyclic⟩

/-- Without a validation, a new cycle is followed without end, and the name of a broken one stays
hidden. -/
theorem unreviewed_cycle_resolves :
    let book := loopBook.changeAll [.add ⟨"b", false, .named "b"⟩, .add ⟨"a", false, .card "x"⟩]
    read loopRules = .ok loopBook ∧ ¬book.HidesCyclesOf book.patterns ∧
      (book.patterns.Cyclic "b" ∧ book.resolve "b" = some (.named "b") ∧
        ∀ stream out, ¬book.context.Yields (.named "b") stream out) ∧
      ¬book.patterns.Cyclic "a" ∧ book.patterns.get? "a" = some (.card "x") ∧
        book.resolve "a" = none := by
  intro book
  have hresolve : book.resolve "b" = some (.named "b") := by cbv
  have hcyclic : book.patterns.cyclicNames = ["b"] := by cbv
  have hb : book.patterns.Cyclic "b" := by
    refine (book.patterns.mem_cyclicNames_iff "b").mp ?_
    rw [hcyclic]
    exact List.mem_cons_self
  have ha : ¬book.patterns.Cyclic "a" := by
    intro hcycle
    have hmem := (book.patterns.mem_cyclicNames_iff "a").mpr hcycle
    rw [hcyclic] at hmem
    exact absurd hmem (by decide)
  refine ⟨read_loopRules, fun hright => ?_, ⟨hb, hresolve, ?_⟩, ha, by cbv, by cbv⟩
  · have hnone := (hright "b").1 hb
    rw [hresolve] at hnone
    cases hnone
  · exact Context.not_yields_of_resolve_self hresolve

end RuleBook

end OpeningHand
