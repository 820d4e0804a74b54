import Mathlib
import OpeningHand.Proofs.ValidatedBooks

/-!
# What a review without errors says

A review goes through the registered patterns. If it finds no error, every name in them resolves, and
none leads back to itself; so all that can be reached from a registered pattern resolves. But a criterion
keeps its own pattern when another one takes its name in the registry. Such a pattern is not reviewed
again, and the names in it are the only ones in a book without errors that may lead nowhere.
-/

namespace OpeningHand

/-- References lead from the pattern to the name, in one or more steps. -/
inductive Context.Reaches (context : Context) (pattern : Pattern) : String → Prop
  | mention {name : String} (h : name ∈ pattern.references) : context.Reaches pattern name
  | through {name target : String} {found : Pattern} (reached : context.Reaches pattern name)
      (hfound : context.resolve name = some found) (h : target ∈ found.references) :
      context.Reaches pattern target

/-- A review finds no error exactly if every name in the patterns resolves. -/
theorem Pattern.errors_review_eq_nil_iff {context : Context} {patterns : List Pattern} :
    (review context patterns).errors = [] ↔
      ∀ pattern ∈ patterns, ∀ name ∈ pattern.references, (context.resolve name).isSome := by
  simp only [review, undeclared, List.map_eq_nil_iff, List.flatMap_eq_nil_iff, List.filter_eq_nil_iff,
    Bool.not_eq_true, Option.isNone_eq_false_iff]

namespace RuleBook

variable {book : RuleBook}

theorem Validated.exists_eq_validate (h : book.Validated) :
    ∃ before : RuleBook, book = before.validate := by
  cases h with
  | validate before => exact ⟨before, rfl⟩
  | validateAgainst before decks => exact ⟨{ before with cards := _ }, rfl⟩

/-- Validation finds no error exactly if no name is cyclic and every name in a registered pattern is
registered. -/
theorem Validated.errors_eq_nil_iff (h : book.Validated) :
    book.review.errors = [] ↔ book.patterns.cyclicNames = [] ∧
      ∀ pattern ∈ book.patterns.patterns, ∀ name ∈ pattern.references,
        (book.patterns.get? name).isSome := by
  obtain ⟨before, rfl⟩ := h.exists_eq_validate
  have herrors : before.validate.review.errors =
      (Pattern.review { before with hidden := [] }.context before.patterns.patterns).errors ++
        before.patterns.cyclicNames.map .cyclic := rfl
  -- The review is made while nothing is hidden.
  have hresolve : { before with hidden := [] }.context.resolve = before.patterns.get? := rfl
  rw [herrors, List.append_eq_nil_iff, Pattern.errors_review_eq_nil_iff, hresolve,
    List.map_eq_nil_iff, and_comm]
  rfl

/-- Without errors, nothing is hidden. -/
theorem Validated.resolve_eq_get? (h : book.Validated) (herrors : book.review.errors = []) :
    book.resolve = book.patterns.get? := by
  funext name
  rw [resolve, h.hidden_eq, (h.errors_eq_nil_iff.mp herrors).1]
  rfl

/-- Without errors, what a name resolves to mentions only names that resolve as well. -/
theorem Validated.isSome_resolve_of_mentioned (h : book.Validated) (herrors : book.review.errors = [])
    {name target : String} {found : Pattern} (hfound : book.resolve name = some found)
    (htarget : target ∈ found.references) : (book.resolve target).isSome := by
  obtain ⟨-, hdeclared⟩ := h.errors_eq_nil_iff.mp herrors
  rw [h.resolve_eq_get? herrors] at hfound ⊢
  exact hdeclared found (Registry.mem_patterns_of_get? hfound) target htarget

/-- Without errors, everything reached from a pattern resolves if the names in the pattern itself do. -/
theorem Validated.isSome_resolve_of_reaches (h : book.Validated) (herrors : book.review.errors = [])
    {pattern : Pattern} (hpattern : ∀ name ∈ pattern.references, (book.resolve name).isSome)
    {name : String} (hreached : book.context.Reaches pattern name) : (book.resolve name).isSome := by
  induction hreached with
  | mention hname => exact hpattern _ hname
  | through _ hfound htarget => exact h.isSome_resolve_of_mentioned herrors hfound htarget

/-- If the book of a text has no errors, no name leads back to itself. From a criterion whose pattern is
the one registered under its name, references lead only to names that resolve; from any criterion they do
so exactly if the names in its own pattern are registered. -/
theorem reached_resolve_of_read {text : List Char} (hread : read text = .ok book)
    (hok : book.hasErrors = false) :
    book.patterns.cyclicNames = [] ∧ ∀ criterion ∈ book.criteria,
      (book.patterns.get? criterion.name = some criterion.pattern →
        ∀ name, book.context.Reaches criterion.pattern name → (book.resolve name).isSome) ∧
      ((∀ name, book.context.Reaches criterion.pattern name → (book.resolve name).isSome) ↔
        ∀ name ∈ criterion.pattern.references, (book.patterns.get? name).isSome) := by
  have hvalidated := validated_of_read hread
  have herrors : book.review.errors = [] := by
    rw [hasErrors, Bool.or_eq_false_iff, Bool.not_eq_false'] at hok
    exact List.isEmpty_iff.mp (by simpa [Review.isOk] using hok.2)
  obtain ⟨hcyclic, hdeclared⟩ := hvalidated.errors_eq_nil_iff.mp herrors
  have hresolve := hvalidated.resolve_eq_get? herrors
  have hreach : ∀ criterion ∈ book.criteria,
      (∀ name ∈ criterion.pattern.references, (book.patterns.get? name).isSome) →
        ∀ name, book.context.Reaches criterion.pattern name → (book.resolve name).isSome := by
    intro criterion _ hown name hreached
    rw [← hresolve] at hown
    exact hvalidated.isSome_resolve_of_reaches herrors hown hreached
  refine ⟨hcyclic, fun criterion hcriterion => ⟨fun hregistered => ?_, fun hall => ?_, ?_⟩⟩
  · exact hreach criterion hcriterion (hdeclared _ (Registry.mem_patterns_of_get? hregistered))
  · intro name hname
    rw [← hresolve]
    exact hall name (.mention hname)
  · exact hreach criterion hcriterion

/-- The second criterion takes the name of the first one, whose pattern stays in use. -/
def landRules : List Char :=
  "<land>: [x] | [y]\n<<keep>>: 2 <land>\n<<keep>>: @not(<land>)".toList

def landBook : RuleBook :=
  (((empty.add ⟨"land", false, .any [.card "x", .card "y"]⟩).add
    ⟨"keep", true, .times 2 (.named "land")⟩).add ⟨"keep", true, .absent (.named "land")⟩).validate

theorem read_landRules : read landRules = .ok landBook := by cbv

theorem reached_resolve_of_read_land :
    read landRules = .ok landBook ∧ landBook.hasErrors = false ∧
      landBook.patterns.get? "keep" ≠ some (.times 2 (.named "land")) ∧
      ∀ name, landBook.context.Reaches (.times 2 (.named "land")) name →
        (landBook.resolve name).isSome := by
  have hok : landBook.hasErrors = false := by cbv
  have hcriterion : ⟨"keep", true, .times 2 (.named "land")⟩ ∈ landBook.criteria := List.mem_cons_self
  have hland : (landBook.patterns.get? "land").isSome = true := by cbv
  have hkeep : landBook.patterns.get? "keep" = some (.absent (.named "land")) := by cbv
  obtain ⟨-, hcriteria⟩ := reached_resolve_of_read read_landRules hok
  refine ⟨read_landRules, hok, ?_, (hcriteria _ hcriterion).2.mpr ?_⟩
  · rw [hkeep]
    intro heq
    cases heq
  · intro name hname
    obtain rfl : name = "land" := List.mem_singleton.mp hname
    exact hland

/-- The pattern that refers to a missing name loses its place in the registry, but stays a criterion. -/
def orphanRules : List Char :=
  "<<keep>>: <missing>\n<keep>: [forest]".toList

def orphanBook : RuleBook :=
  ((empty.add ⟨"keep", true, .named "missing"⟩).add ⟨"keep", false, .card "forest"⟩).validate

theorem read_orphanRules : read orphanRules = .ok orphanBook := by cbv

theorem orphaned_criterion_dangles :
    read orphanRules = .ok orphanBook ∧ orphanBook.hasErrors = false ∧
      ∃ criterion ∈ orphanBook.criteria, orphanBook.context.Reaches criterion.pattern "missing" ∧
        orphanBook.resolve "missing" = none := by
  have hok : orphanBook.hasErrors = false := by cbv
  have hnone : orphanBook.resolve "missing" = none := by cbv
  exact ⟨read_orphanRules, hok, _, List.mem_cons_self, .mention List.mem_cons_self, hnone⟩

end RuleBook

end OpeningHand
