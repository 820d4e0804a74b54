import Mathlib.Data.Finset.Card
import OpeningHand.Proofs.CycleSearch
import OpeningHand.Proofs.ReferenceNesting
import OpeningHand.RuleBook

/-!
# Validated rule books

Validation hides every name that references lead back to. What is left of the references has no cycle,
and only finitely many names resolve, so each of them leads to fewer names than the one that mentions it.
As deep as there are names in the book, lookups can be nested for every pattern.
-/

namespace OpeningHand

namespace Context

variable {context : Context} {names : List String} {name target : String}

/-- Following references never leads back to where it started. -/
def Unlooped (context : Context) : Prop :=
  ∀ name, ¬Relation.TransGen context.MentionedBy name name

open Classical in
/-- The number of listed names that references lead to from a name, itself included. -/
noncomputable def height (context : Context) (names : List String) (name : String) : Nat :=
  {below ∈ names.toFinset | Relation.ReflTransGen context.MentionedBy below name}.card

theorem height_le (context : Context) (names : List String) (name : String) :
    context.height names name ≤ names.length := by
  classical
  calc context.height names name ≤ names.toFinset.card := Finset.card_filter_le _ _
    _ ≤ names.length := List.toFinset_card_le names

theorem height_pos (h : name ∈ names) : 0 < context.height names name := by
  classical
  apply Finset.card_pos.mpr
  exact ⟨name, Finset.mem_filter.mpr ⟨List.mem_toFinset.mpr h, .refl⟩⟩

/-- A name leads to fewer names than one that mentions it. -/
theorem height_lt (hunlooped : context.Unlooped) (hmentioned : context.MentionedBy target name)
    (h : name ∈ names) : context.height names target < context.height names name := by
  classical
  apply Finset.card_lt_card
  apply Finset.ssubset_iff_of_subset ?_ |>.mpr
  · refine ⟨name, Finset.mem_filter.mpr ⟨List.mem_toFinset.mpr h, .refl⟩, ?_⟩
    intro hmem
    -- References from the target back to the name would close a cycle.
    have hback := (Finset.mem_filter.mp hmem).2
    exact hunlooped name (Relation.TransGen.tail' hback hmentioned)
  · intro below hbelow
    obtain ⟨hlisted, hpath⟩ := Finset.mem_filter.mp hbelow
    exact Finset.mem_filter.mpr ⟨hlisted, hpath.tail hmentioned⟩

/-- A context where finitely many names resolve is acyclic if references never lead back. -/
theorem Unlooped.acyclic (hunlooped : context.Unlooped)
    (hnames : ∀ name pattern, context.resolve name = some pattern → name ∈ names) :
    context.Acyclic := by
  refine ⟨Subrelation.wf ?_ (measure (context.height names)).wf⟩
  rintro target name hmentioned
  obtain ⟨pattern, hpattern, -⟩ := id hmentioned
  exact height_lt hunlooped hmentioned (hnames name pattern hpattern)

theorem Unlooped.suffices_of_height_le (hunlooped : context.Unlooped)
    (hnames : ∀ name pattern, context.resolve name = some pattern → name ∈ names)
    {depth : Nat} {pattern : Pattern}
    (h : ∀ name ∈ pattern.references, ∀ found, context.resolve name = some found →
      context.height names name ≤ depth) : context.Suffices depth pattern := by
  induction depth generalizing pattern with
  | zero =>
    intro name hname
    cases hfound : context.resolve name with
    | none => rfl
    | some found =>
      have hle := h name hname found hfound
      have hpos : 0 < context.height names name := height_pos (hnames name found hfound)
      omega
  | succ depth ih =>
    intro name hname found hfound
    apply ih
    intro target htarget _ _
    have hle := h name hname found hfound
    have hlt : context.height names target < context.height names name :=
      height_lt hunlooped ⟨found, hfound, htarget⟩ (hnames name found hfound)
    omega

/-- Lookups need not be nested more deeply than there are names. -/
theorem Unlooped.suffices (hunlooped : context.Unlooped)
    (hnames : ∀ name pattern, context.resolve name = some pattern → name ∈ names)
    {depth : Nat} (h : names.length ≤ depth) (pattern : Pattern) :
    context.Suffices depth pattern :=
  hunlooped.suffices_of_height_le hnames fun name _ _ _ =>
    (context.height_le names name).trans h

end Context

namespace RuleBook

/-- Nothing has been changed in the rule book since it was validated. -/
inductive Validated : RuleBook → Prop
  | validate (book : RuleBook) : Validated book.validate
  | validateAgainst (book : RuleBook) (decks : List DeckList) : Validated (book.validateAgainst decks)

variable {book : RuleBook}

/-- Whatever a text says, its rule book is a validated one. -/
theorem validated_of_read {text : List Char} (h : read text = .ok book) : book.Validated := by
  obtain ⟨lines, -, hbook⟩ := exists_of_bind_eq_ok h
  obtain rfl : lines.validate = book := Except.ok.inj hbook
  exact .validate lines

theorem Validated.hidden_eq (h : book.Validated) : book.hidden = book.patterns.cyclicNames := by
  cases h <;> rfl

theorem resolve_eq_some_iff {name : String} {pattern : Pattern} :
    book.resolve name = some pattern ↔
      book.patterns.get? name = some pattern ∧ name ∉ book.hidden := by
  rw [resolve]
  by_cases hmem : name ∈ book.hidden <;> simp [hmem]

theorem mem_names_of_resolve {name : String} {pattern : Pattern}
    (hpattern : book.resolve name = some pattern) : name ∈ book.patterns.names :=
  mem_map_fst_of_lookup (resolve_eq_some_iff.mp hpattern).1

/-- If all names that references lead back to are hidden, what is left of the references never leads
back. -/
theorem unlooped_of_hidden (h : ∀ name ∈ book.patterns.cyclicNames, name ∈ book.hidden) :
    book.context.Unlooped := by
  intro name hloop
  have hedge : ∀ target start, book.context.MentionedBy target start →
      RefersTo book.patterns.entries start target := by
    rintro target start ⟨pattern, hpattern, htarget⟩
    exact ⟨pattern, (resolve_eq_some_iff.mp hpattern).1, htarget⟩
  have hpath : Relation.TransGen (RefersTo book.patterns.entries) name name :=
    Relation.TransGen.mono (fun start target => hedge target start) _ _
      (Relation.transGen_swap.mpr hloop)
  obtain ⟨middle, -, pattern, hpattern, -⟩ := Relation.TransGen.tail'_iff.mp hloop
  have hvisible := (resolve_eq_some_iff.mp hpattern).2
  exact hvisible (h name ((book.patterns.mem_cyclicNames_iff name).mpr hpath))

theorem size_le_depth (book : RuleBook) (stream : List Split) :
    book.patterns.size ≤ book.depth stream :=
  Nat.le_mul_of_pos_right _ (Nat.succ_pos _)

section Unlooped

variable (h : book.context.Unlooped)
include h

theorem acyclic_of_unlooped : book.context.Acyclic :=
  h.acyclic fun _ _ => mem_names_of_resolve

/-- Lookups need not be nested more deeply than there are names in the book. -/
theorem suffices_of_unlooped {depth : Nat} (hdepth : book.patterns.size ≤ depth) (pattern : Pattern) :
    book.context.Suffices depth pattern := by
  have hlength : book.patterns.names.length = book.patterns.size := List.length_map _
  exact h.suffices (fun _ _ => mem_names_of_resolve) (hlength.trans_le hdepth) pattern

/-- Evaluation always comes to an end. -/
theorem evaluate_follows_of_unlooped (pattern : Pattern) :
    (book.evaluate pattern).Follows (pattern.flow (acyclic_of_unlooped h).flow) := by
  have hfollows := fun stream => (acyclic_of_unlooped h).step_follows
    (suffices_of_unlooped h (book.size_le_depth stream) pattern)
  exact ⟨fun stream => (hfollows stream).answer stream, (hfollows []).dry⟩

end Unlooped

theorem Validated.unlooped (h : book.Validated) : book.context.Unlooped :=
  unlooped_of_hidden fun _ hname => h.hidden_eq ▸ hname

theorem Validated.acyclic (h : book.Validated) : book.context.Acyclic :=
  acyclic_of_unlooped h.unlooped

theorem Validated.suffices (h : book.Validated) {depth : Nat} (hdepth : book.patterns.size ≤ depth)
    (pattern : Pattern) : book.context.Suffices depth pattern :=
  suffices_of_unlooped h.unlooped hdepth pattern

theorem Validated.evaluate_follows (h : book.Validated) (pattern : Pattern) :
    (book.evaluate pattern).Follows (pattern.flow h.acyclic.flow) :=
  evaluate_follows_of_unlooped h.unlooped pattern

end RuleBook

end OpeningHand
