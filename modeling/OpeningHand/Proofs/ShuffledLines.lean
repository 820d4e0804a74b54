import Mathlib
import OpeningHand.Proofs.RuleTexts
import OpeningHand.Proofs.SimulationCounts

/-!
# Lines in another order

A registry does not know in which order its patterns were put there, as long as no name was taken. So two
texts of the same lines declare the same patterns if each name is declared once, and everything that is found
out by names is the same: what they resolve to, what is wrong with them, and what they make of a stream. Only
the criteria stand in the order of their lines.
-/

namespace OpeningHand

namespace Registry

variable {first second : Registry}

theorem mem_entries_iff (registry : Registry) (name : String) (pattern : Pattern) :
    (name, pattern) ∈ registry.entries ↔ registry.get? name = some pattern := by
  constructor
  · exact lookup_of_mem registry.unambiguous
  · intro h
    obtain ⟨before, after, hsplit, -⟩ := List.lookup_eq_some_iff.mp h
    rw [hsplit]
    exact List.mem_append_right before List.mem_cons_self

/-- Registries are equal if they give the same answers, since their entries are sorted. -/
theorem ext_get? (h : ∀ name, first.get? name = second.get? name) : first = second := by
  have hanti : Std.Antisymm fun entry other : String × Pattern => entry.1 < other.1 :=
    ⟨fun _ _ hlt hgt => absurd (String.lt_trans hlt hgt) (String.lt_irrefl _)⟩
  have hirrefl : Std.Irrefl fun entry other : String × Pattern => entry.1 < other.1 :=
    ⟨fun entry => String.lt_irrefl entry.1⟩
  have hentries : first.entries = second.entries := by
    refine first.sorted.eq_of_mem_iff second.sorted fun entry => ?_
    obtain ⟨name, pattern⟩ := entry
    rw [mem_entries_iff, mem_entries_iff, h]
  cases first
  cases second
  subst hentries
  rfl

theorem insert_comm {name other : String} (hne : name ≠ other) (registry : Registry)
    (pattern found : Pattern) : (registry.insert name pattern).insert other found =
      (registry.insert other found).insert name pattern := by
  apply ext_get?
  intro asked
  simp only [get?_insert]
  by_cases hname : asked = name
  · subst hname
    rw [if_neg hne, if_pos rfl, if_pos rfl]
  · rw [if_neg hname, if_neg hname]

/-- Declarations under different names can be put into a registry in any order. -/
theorem foldl_insert_eq_of_perm {declarations others : List Declaration} (h : declarations.Perm others)
    (hnames : (declarations.map (·.name)).Nodup) (registry : Registry) :
    declarations.foldl (fun patterns declaration =>
        patterns.insert declaration.name declaration.pattern) registry =
      others.foldl (fun patterns declaration =>
        patterns.insert declaration.name declaration.pattern) registry := by
  refine h.foldl_eq' (fun declaration hdeclaration other hother patterns => ?_) registry
  by_cases hname : declaration.name = other.name
  · obtain rfl := List.inj_on_of_nodup_map hnames hdeclaration hother hname
    rfl
  · exact insert_comm hname patterns declaration.pattern other.pattern

end Registry

namespace RuleBook

/-! ### Rule books that differ in the order of their criteria -/

/-- The criteria stand in another order, and there are other reports on lines; nothing else differs. -/
inductive Shuffled (book : RuleBook) : RuleBook → Prop
  | mk (criteria : List Declaration) (parseErrors : List (Diagnostic Flaw))
      (h : criteria.Perm book.criteria) : Shuffled book { book with criteria, parseErrors }

/-- The rule books give the same answers, up to which criterion is the first one. -/
structure Agree (book other : RuleBook) : Prop where
  get? : ∀ name, book.patterns.get? name = other.patterns.get? name
  review : book.review = other.review
  resolve : ∀ name, book.resolve name = other.resolve name
  evaluate : ∀ pattern stream, ∃ out,
    book.evaluate pattern stream = .ok out ∧ other.evaluate pattern stream = .ok out
  satisfied : ∀ hand criterion,
    criterion ∈ book.criteria ∧ book.satisfies hand criterion.pattern = .ok true ↔
      criterion ∈ other.criteria ∧ other.satisfies hand criterion.pattern = .ok true
  unsatisfied : ∀ hand, book.firstMatch hand = .ok none ↔ other.firstMatch hand = .ok none

namespace Shuffled

variable {book other : RuleBook}

theorem validate (h : Shuffled book other) : Shuffled book.validate other.validate := by
  cases h with
  | mk criteria parseErrors h => exact .mk criteria parseErrors h

theorem validateAgainst (h : Shuffled book other) (decks : List DeckList) :
    Shuffled (book.validateAgainst decks) (other.validateAgainst decks) := by
  cases h with
  | mk criteria parseErrors h => exact .mk criteria parseErrors h

theorem agree (h : Shuffled book other) (hbook : book.Validated) : Agree book other := by
  cases h with
  | mk criteria parseErrors h =>
    have hmem (criterion : Declaration) : criterion ∈ book.criteria ↔ criterion ∈ criteria :=
      h.mem_iff.symm
    refine ⟨fun _ => rfl, rfl, fun _ => rfl, fun pattern stream => ?_,
      fun hand criterion => and_congr_left fun _ => hmem criterion, fun hand => ?_⟩
    · exact ⟨_, (hbook.evaluate_follows pattern).answer stream,
        (hbook.evaluate_follows pattern).answer stream⟩
    · rw [firstMatch_eq_none_iff, firstMatch_eq_none_iff]
      exact forall_congr' fun criterion => imp_congr_left (hmem criterion)

end Shuffled

/-! ### Texts of the same lines -/

variable {text other : List Char} {book later : RuleBook}

theorem read_eq_ok_iff : read text = .ok book ↔ breakdown text = none ∧
    book = ({ empty.addAll (declarations text) with
      parseErrors := diagnostics text } : RuleBook).validate := by
  rw [read_eq]
  cases breakdown text with
  | some fault => simp
  | none => simp [eq_comm]

theorem shuffled_of_read (hlines : (Text.lines text).Perm (Text.lines other))
    (hnames : ((declarations text).map (·.name)).Nodup) (hbook : read text = .ok book)
    (hlater : read other = .ok later) : Shuffled book later := by
  obtain ⟨-, rfl⟩ := read_eq_ok_iff.mp hbook
  obtain ⟨-, rfl⟩ := read_eq_ok_iff.mp hlater
  have hdeclarations : (declarations text).Perm (declarations other) := hlines.filterMap declared?
  rw [addAll_eq, addAll_eq, Registry.foldl_insert_eq_of_perm hdeclarations hnames]
  exact (Shuffled.mk _ _ ((hdeclarations.filter _).symm.append_left _)).validate

theorem exists_read_of_perm (hlines : (Text.lines text).Perm (Text.lines other))
    (hbook : read text = .ok book) : ∃ later, read other = .ok later := by
  rw [exists_read_iff]
  intro line hline
  exact (exists_read_iff text).mp ⟨book, hbook⟩ line (hlines.mem_iff.mpr hline)

/-- If no name is declared twice, it makes no difference in which order the lines stand, before and after
validation with decks; but for the order in which hands are tested against the criteria. -/
theorem read_agree_of_perm (hlines : (Text.lines text).Perm (Text.lines other))
    (hnames : ((declarations text).map (·.name)).Nodup) :
    ((∃ book, read text = .ok book) ↔ ∃ later, read other = .ok later) ∧
    ∀ book later, read text = .ok book → read other = .ok later →
      later.criteria.Perm book.criteria ∧ Agree book later ∧
      ∀ decks, Agree (book.validateAgainst decks) (later.validateAgainst decks) := by
  constructor
  · exact ⟨fun ⟨_, hbook⟩ => exists_read_of_perm hlines hbook,
      fun ⟨_, hlater⟩ => exists_read_of_perm hlines.symm hlater⟩
  · intro book later hbook hlater
    have hshuffled := shuffled_of_read hlines hnames hbook hlater
    refine ⟨?_, hshuffled.agree (validated_of_read hbook), fun decks => ?_⟩
    · cases hshuffled with
      | mk criteria parseErrors h => exact h
    · exact (hshuffled.validateAgainst decks).agree (.validateAgainst book decks)

def tangledRules : List Char :=
  "// hands to keep\n<<keep>>: <land> & <a>\n<a>: <b>\n<broken: [x]\n".toList ++
    "<<none>>: [bolt]\n<b>: <a> | <c>\n<land>: [forest]".toList

def turnedRules : List Char :=
  "<land>: [forest]\n<b>: <a> | <c>\n<<none>>: [bolt]\n<broken: [x]\n".toList ++
    "<a>: <b>\n<<keep>>: <land> & <a>\n// hands to keep".toList

theorem lines_turnedRules : Text.lines turnedRules = (Text.lines tangledRules).reverse := by cbv

theorem declarations_tangledRules : declarations tangledRules =
    [⟨"keep", true, .all [.named "land", .named "a"]⟩, ⟨"a", false, .named "b"⟩,
      ⟨"none", true, .card "bolt"⟩, ⟨"b", false, .any [.named "a", .named "c"]⟩,
      ⟨"land", false, .card "forest"⟩] := by cbv

theorem breakdown_tangledRules : breakdown tangledRules = none := by cbv

/-- The criteria have changed places. -/
theorem read_agree_of_perm_turned :
    ∃ book later, read tangledRules = .ok book ∧ read turnedRules = .ok later ∧
      book.criteria.map (·.name) = ["keep", "none"] ∧ later.criteria.Perm book.criteria ∧
        Agree book later ∧ ∀ decks, Agree (book.validateAgainst decks) (later.validateAgainst decks) := by
  have hlines : (Text.lines tangledRules).Perm (Text.lines turnedRules) := by
    rw [lines_turnedRules]
    exact (List.reverse_perm _).symm
  have hnames : ((declarations tangledRules).map (·.name)).Nodup := by
    rw [declarations_tangledRules]
    decide
  obtain ⟨hreads, hagree⟩ := read_agree_of_perm hlines hnames
  have hbook := read_eq_ok_iff.mpr ⟨breakdown_tangledRules, rfl⟩
  obtain ⟨later, hlater⟩ := hreads.mp ⟨_, hbook⟩
  refine ⟨_, later, hbook, hlater, ?_, hagree _ later hbook hlater⟩
  rw [addAll_eq, declarations_tangledRules]
  rfl

end RuleBook

end OpeningHand
