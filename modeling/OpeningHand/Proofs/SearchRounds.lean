import Mathlib
import OpeningHand.Proofs.CardWarnings

/-!
# The rounds of the search for cycles

The search takes one pending name in each round, and puts the references of its entry in its place if the entry
was not visited before. No entry is visited twice, so each of its references waits once at most. What is left to
do therefore shrinks with every round, and the search from a name ends with the answer whether references lead
back to it.
-/

namespace OpeningHand

namespace Pattern

variable {pattern part : Pattern} {name : String}

/-! ### Where a pattern refers to names -/

/-- A part of a pattern is the whole pattern or a part of a child. -/
theorem exists_at?_iff : (∃ path, pattern.at? path = some part) ↔
    pattern = part ∨ ∃ child ∈ pattern.children, ∃ path, child.at? path = some part := by
  constructor
  · rintro ⟨path, hpath⟩
    cases path with
    | nil => exact .inl (Option.some.inj hpath)
    | cons index path =>
      obtain ⟨child, hchild, hpath⟩ := Option.bind_eq_some_iff.mp hpath
      exact .inr ⟨child, List.mem_of_getElem? hchild, path, hpath⟩
  · rintro (rfl | ⟨child, hchild, path, hpath⟩)
    · exact ⟨[], rfl⟩
    · obtain ⟨index, hindex⟩ := List.getElem?_of_mem hchild
      exact ⟨index :: path, Option.bind_eq_some_iff.mpr ⟨child, hindex, hpath⟩⟩

/-- A pattern refers to the names that stand in it anywhere. -/
theorem mem_references_iff :
    name ∈ pattern.references ↔ ∃ path, pattern.at? path = some (.named name) := by
  rw [exists_at?_iff]
  induction pattern with
  | always | card => simp [references, children]
  | named other => simp [references, children, eq_comm]
  | all row ih | any row ih =>
    rw [references, rowReferences_eq_flatMap, List.mem_flatMap]
    simp only [reduceCtorEq, false_or, children]
    exact exists_congr fun child => and_congr_right fun hchild => by rw [ih child hchild, exists_at?_iff]
  | times count child ih | absent child ih =>
    rw [references, ih, ← exists_at?_iff]
    simp [children]

end Pattern

def Registry.Refers (registry : Registry) (name other : String) : Prop :=
  ∃ pattern path, registry.get? name = some pattern ∧ pattern.at? path = some (.named other)

theorem Registry.refers_eq (registry : Registry) : registry.Refers = RefersTo registry.entries := by
  funext name other
  simp only [Refers, RefersTo, Pattern.mem_references_iff, exists_and_left, get?]

/-! ### Rounds -/

def referenceCount (entries : List (String × Pattern)) : ℕ :=
  (entries.map fun entry => entry.2.references.length).sum

theorem referenceCount_eraseEntry {entries : List (String × Pattern)} {name : String} {pattern : Pattern}
    (h : entries.lookup name = some pattern) :
    referenceCount (eraseEntry name entries) + pattern.references.length = referenceCount entries := by
  induction entries with
  | nil => simp at h
  | cons first entries ih =>
    obtain ⟨key, value⟩ := first
    rw [Registry.lookup_cons_eq_ite] at h
    rw [eraseEntry_cons]
    split at h
    · next heq =>
      obtain rfl : value = pattern := Option.some.inj h
      simp [heq, referenceCount, Nat.add_comm]
    · next hne =>
      have hrest := ih h
      simp only [referenceCount] at hrest
      simp only [hne, if_false, referenceCount, List.map_cons, List.sum_cons]
      omega

/-- What a search still has before it: entries that were not visited yet, and names that wait. -/
structure Search where
  unvisited : List (String × Pattern)
  pending : List String

namespace Search

variable {target : String} {search later : Search} {answer : Bool} {rounds : ℕ}

/-- What the search for a name comes to in one round: its answer, or what is left to do. -/
def round (target : String) : Search → Bool ⊕ Search
  | ⟨_, []⟩ => .inl false
  | ⟨unvisited, name :: pending⟩ =>
    if name = target then .inl true
    else
      match unvisited.lookup name with
      | none => .inr ⟨unvisited, pending⟩
      | some pattern => .inr ⟨eraseEntry name unvisited, pattern.references ++ pending⟩

def answerWithin? (target : String) : ℕ → Search → Option Bool
  | 0, _ => none
  | rounds + 1, search =>
    match search.round target with
    | .inl answer => some answer
    | .inr later => later.answerWithin? target rounds

/-- The names that wait, and those that may come to wait. -/
def workload (search : Search) : ℕ :=
  search.pending.length + referenceCount search.unvisited

/-- A round that ends the search has its answer. -/
theorem reaches_eq_of_round (h : search.round target = .inl answer) :
    reaches target search.unvisited search.pending = answer := by
  obtain ⟨unvisited, pending⟩ := search
  cases pending with
  | nil =>
    rw [round] at h
    rw [reaches]
    exact Sum.inl.inj h
  | cons name pending =>
    rw [round] at h
    split at h
    · next heq =>
      rw [reaches, if_pos heq]
      exact Sum.inl.inj h
    · split at h <;> cases h

/-- Any other round keeps the answer and leaves one name less to do. -/
theorem round_spec (h : search.round target = .inr later) :
    reaches target search.unvisited search.pending = reaches target later.unvisited later.pending ∧
      later.workload + 1 = search.workload := by
  obtain ⟨unvisited, pending⟩ := search
  cases pending with
  | nil => cases h
  | cons name pending =>
    rw [round] at h
    split at h
    · cases h
    · next hne =>
      split at h
      · next hnone =>
        obtain rfl := Sum.inr.inj h
        refine ⟨reaches_cons_of_none hne hnone, ?_⟩
        simp only [workload, List.length_cons]
        omega
      · next pattern hfound =>
        obtain rfl := Sum.inr.inj h
        have hcount := referenceCount_eraseEntry hfound
        refine ⟨reaches_cons_of_some hne hfound, ?_⟩
        simp only [workload, List.length_cons, List.length_append]
        omega

/-- The search ends when all its work is done, if not before. -/
theorem answerWithin?_eq (h : search.workload < rounds) :
    search.answerWithin? target rounds = some (reaches target search.unvisited search.pending) := by
  induction rounds generalizing search with
  | zero => omega
  | succ rounds ih =>
    rw [answerWithin?]
    cases hround : search.round target with
    | inl answer => rw [reaches_eq_of_round hround]
    | inr later =>
      obtain ⟨hreaches, hworkload⟩ := round_spec hround
      rw [hreaches]
      exact ih (by omega)

end Search

namespace Registry

/-- The names of the registry that the search finds are listed in their order. -/
theorem cyclicNames_sublist (registry : Registry) : registry.cyclicNames.Sublist registry.names :=
  List.filter_sublist.map Prod.fst

/-- The cyclic names are those registered names that references lead back to, in one step or more, and each of
them is there once. For every registered name the search ends with the answer whether it is one of them, after
one round for each reference that waits at first, one for each reference in the registry, and a last one. -/
theorem cyclicNames_exact (registry : Registry) :
    (∀ name, name ∈ registry.cyclicNames ↔ Relation.TransGen registry.Refers name name) ∧
    registry.cyclicNames.Sublist registry.names ∧ registry.cyclicNames.Nodup ∧
    ∀ name pattern, registry.get? name = some pattern →
      ∀ rounds, pattern.references.length + referenceCount registry.entries < rounds →
        Search.answerWithin? name rounds ⟨registry.entries, pattern.references⟩ =
          some (decide (name ∈ registry.cyclicNames)) := by
  have hsublist := registry.cyclicNames_sublist
  refine ⟨fun name => ?_, hsublist, registry.unambiguous.sublist hsublist,
    fun name pattern hfound rounds hrounds => ?_⟩
  · rw [refers_eq, mem_cyclicNames_iff]
  · rw [Search.answerWithin?_eq hrounds, Option.some.injEq, Bool.eq_iff_iff, decide_eq_true_iff,
      reaches_iff _ _ _ registry.unambiguous, mem_cyclicNames_iff, Relation.TransGen.head'_iff]
    -- The references of the name wait at first, not the name: they are the first step of a cycle.
    constructor
    · rintro ⟨other, hother, hpath⟩
      exact ⟨other, ⟨pattern, hfound, hother⟩, hpath⟩
    · rintro ⟨other, ⟨found, hother, hmem⟩, hpath⟩
      obtain rfl : pattern = found := Option.some.inj (hfound.symm.trans hother)
      exact ⟨other, hmem, hpath⟩

def knot : Registry :=
  (((empty.insert "a" (.any [.card "x", .named "b"])).insert "b" (.times 2 (.absent (.named "a")))).insert "c"
    (.all [.named "a", .named "b"])).insert "d" (.named "e")

theorem cyclicNames_exact_knot :
    (knot.get? "b" = some (.times 2 (.absent (.named "a"))) ∧
      knot.get? "c" = some (.all [.named "a", .named "b"]) ∧ knot.get? "d" = some (.named "e") ∧
      referenceCount knot.entries = 5) ∧
    Relation.TransGen knot.Refers "b" "b" ∧ "c" ∉ knot.cyclicNames ∧ "d" ∉ knot.cyclicNames := by
  have hentries : knot.get? "b" = some (.times 2 (.absent (.named "a"))) ∧
      knot.get? "c" = some (.all [.named "a", .named "b"]) ∧ knot.get? "d" = some (.named "e") ∧
      referenceCount knot.entries = 5 := by
    decide +kernel
  have hanswers : Search.answerWithin? "b" 9 ⟨knot.entries, ["a"]⟩ = some true ∧
      Search.answerWithin? "c" 9 ⟨knot.entries, ["a", "b"]⟩ = some false ∧
      Search.answerWithin? "d" 9 ⟨knot.entries, ["e"]⟩ = some false := by
    decide +kernel
  obtain ⟨hcycle, -, -, hsearch⟩ := knot.cyclicNames_exact
  obtain ⟨hb, hc, hd, hcount⟩ := hentries
  obtain ⟨hanswerB, hanswerC, hanswerD⟩ := hanswers
  have hsearchB := hsearch "b" _ hb 9 (by rw [hcount]; decide)
  have hsearchC := hsearch "c" _ hc 9 (by rw [hcount]; decide)
  have hsearchD := hsearch "d" _ hd 9 (by rw [hcount]; decide)
  refine ⟨⟨hb, hc, hd, hcount⟩, (hcycle "b").mp ?_, ?_, ?_⟩
  · exact of_decide_eq_true (Option.some.inj (hsearchB.symm.trans hanswerB))
  · exact of_decide_eq_false (Option.some.inj (hsearchC.symm.trans hanswerC))
  · exact of_decide_eq_false (Option.some.inj (hsearchD.symm.trans hanswerD))

end Registry

end OpeningHand
