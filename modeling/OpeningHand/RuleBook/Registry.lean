import OpeningHand.Pattern

/-!
# Registries of named patterns

A registry has at most one pattern for each name, and lists them in the order of the names. Putting a
pattern under a name that is taken replaces the pattern there.
-/

namespace OpeningHand

def insertEntry (name : String) (pattern : Pattern) :
    List (String × Pattern) → List (String × Pattern)
  | [] => [(name, pattern)]
  | entry :: entries =>
    if name < entry.1 then (name, pattern) :: entry :: entries
    else if name = entry.1 then (name, pattern) :: entries
    else entry :: insertEntry name pattern entries

theorem mem_insertEntry {name : String} {pattern : Pattern} {entries : List (String × Pattern)}
    {entry : String × Pattern} (h : entry ∈ insertEntry name pattern entries) :
    entry = (name, pattern) ∨ entry ∈ entries := by
  induction entries with
  | nil => simpa [insertEntry] using h
  | cons first entries ih =>
    simp only [insertEntry] at h
    split at h
    · simpa using h
    · split at h
      · rcases List.mem_cons.1 h with h | h
        · exact .inl h
        · exact .inr (List.mem_cons_of_mem _ h)
      · rcases List.mem_cons.1 h with h | h
        · exact .inr (h ▸ List.mem_cons_self)
        · exact (ih h).imp_right (List.mem_cons_of_mem _)

/-- The order of the names is kept. -/
theorem pairwise_insertEntry {name : String} {pattern : Pattern} {entries : List (String × Pattern)}
    (h : entries.Pairwise (fun a b => a.1 < b.1)) :
    (insertEntry name pattern entries).Pairwise (fun a b => a.1 < b.1) := by
  induction entries with
  | nil => simp [insertEntry]
  | cons first entries ih =>
    obtain ⟨hfirst, hrest⟩ := List.pairwise_cons.1 h
    simp only [insertEntry]
    split
    · next hlt =>
      refine List.pairwise_cons.2 ⟨fun entry hentry => ?_, h⟩
      rcases List.mem_cons.1 hentry with rfl | hentry
      · exact hlt
      · exact String.lt_trans hlt (hfirst entry hentry)
    · split
      · next heq => exact List.pairwise_cons.2 ⟨fun entry hentry => heq ▸ hfirst entry hentry, hrest⟩
      · next hnlt hne =>
        refine List.pairwise_cons.2 ⟨fun entry hentry => ?_, ih hrest⟩
        rcases mem_insertEntry hentry with rfl | hentry
        · grind
        · exact hfirst entry hentry

/-- Patterns by name, in the order of the names, none of which stands twice. -/
structure Registry where
  entries : List (String × Pattern)
  sorted : entries.Pairwise (fun a b => a.1 < b.1)
deriving DecidableEq, Repr

namespace Registry

def empty : Registry := ⟨[], .nil⟩

/-- The registry with the pattern under the name, in the place of any other one there. -/
def insert (registry : Registry) (name : String) (pattern : Pattern) : Registry :=
  ⟨insertEntry name pattern registry.entries, pairwise_insertEntry registry.sorted⟩

def get? (registry : Registry) (name : String) : Option Pattern :=
  registry.entries.lookup name

def names (registry : Registry) : List String :=
  registry.entries.map (·.1)

def patterns (registry : Registry) : List Pattern :=
  registry.entries.map (·.2)

def size (registry : Registry) : Nat :=
  registry.entries.length

@[simp] theorem get?_empty (name : String) : empty.get? name = none := rfl

theorem lookup_cons_eq_ite (key other : String) (value : Pattern)
    (entries : List (String × Pattern)) :
    ((key, value) :: entries).lookup other =
      if other = key then some value else entries.lookup other := by
  rw [List.lookup_cons]
  split <;> simp_all

theorem lookup_insertEntry (name other : String) (pattern : Pattern)
    (entries : List (String × Pattern)) :
    (insertEntry name pattern entries).lookup other =
      if other = name then some pattern else entries.lookup other := by
  induction entries with
  | nil => simp [insertEntry, lookup_cons_eq_ite]
  | cons first entries ih =>
    obtain ⟨key, value⟩ := first
    simp only [insertEntry]
    split
    · simp [lookup_cons_eq_ite]
    · split
      · next heq => subst heq; simp only [lookup_cons_eq_ite]; split <;> rfl
      · next hne =>
        simp only [lookup_cons_eq_ite, ih]
        split
        · next hkey => subst hkey; rw [if_neg (Ne.symm hne)]
        · rfl

/-- A registry answers with what was put under a name last. -/
theorem get?_insert (registry : Registry) (name other : String) (pattern : Pattern) :
    (registry.insert name pattern).get? other =
      if other = name then some pattern else registry.get? other :=
  lookup_insertEntry name other pattern registry.entries

end Registry

end OpeningHand
