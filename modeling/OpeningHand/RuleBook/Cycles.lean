import OpeningHand.RuleBook.Registry

/-!
# Names that refer back to themselves

Following the references of a pattern may lead back to the name of the pattern. Such a name is found
by a search through everything that can be reached from it: names wait in a row, and a name that has
been followed once is not followed again.
-/

namespace OpeningHand

def eraseEntry (name : String) (entries : List (String × Pattern)) : List (String × Pattern) :=
  entries.eraseP fun entry => name == entry.1

theorem length_eraseEntry_lt {name : String} {entries : List (String × Pattern)} {pattern : Pattern}
    (h : entries.lookup name = some pattern) :
    (eraseEntry name entries).length < entries.length := by
  induction entries with
  | nil => simp at h
  | cons first entries ih =>
    obtain ⟨key, value⟩ := first
    rw [List.lookup_cons] at h
    split at h
    · next hkey => simp [eraseEntry, hkey]
    · next hkey => simpa [eraseEntry, hkey] using ih h

/-- Whether the target turns up among the pending names, or among those that can be reached from them
through entries not yet visited. -/
def reaches (target : String) (unvisited : List (String × Pattern)) (pending : List String) : Bool :=
  match pending with
  | [] => false
  | name :: pending =>
    if name = target then true
    else
      match _found : unvisited.lookup name with
      | none => reaches target unvisited pending
      | some pattern =>
        reaches target (eraseEntry name unvisited) (pattern.references ++ pending)
termination_by (unvisited.length, pending.length)
decreasing_by
  · exact Prod.Lex.right _ (Nat.lt_succ_self _)
  · exact Prod.Lex.left _ _ (length_eraseEntry_lt _found)

/-- The names from whose patterns references lead back to them. -/
def Registry.cyclicNames (registry : Registry) : List String :=
  (registry.entries.filter fun entry =>
    reaches entry.1 registry.entries entry.2.references).map (·.1)

end OpeningHand
