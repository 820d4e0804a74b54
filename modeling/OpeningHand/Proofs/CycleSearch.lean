import Mathlib.Data.List.Nodup
import Mathlib.Logic.Relation
import OpeningHand.RuleBook.Cycles

/-!
# What the search for cycles finds

The search erases the entry of each name that it follows. Nothing gets lost by this: the last visit of a
path to such a name goes on from one of the references that were put in its place. So the search finds
its target exactly if a path leads there, and the cyclic names of a registry are those with a path of one
or more references back to themselves.
-/

namespace OpeningHand

def RefersTo (entries : List (String × Pattern)) (name target : String) : Prop :=
  ∃ pattern, entries.lookup name = some pattern ∧ target ∈ pattern.references

/-- References lead from the first name to the second one, in any number of steps. -/
abbrev LeadsTo (entries : List (String × Pattern)) : String → String → Prop :=
  Relation.ReflTransGen (RefersTo entries)

abbrev Unambiguous (entries : List (String × Pattern)) : Prop :=
  (entries.map Prod.fst).Nodup

section Entries

variable {entries : List (String × Pattern)} {name target : String} {pattern : Pattern}

theorem mem_map_fst_of_lookup (h : entries.lookup name = some pattern) :
    name ∈ entries.map Prod.fst := by
  obtain ⟨before, after, rfl, -⟩ := List.lookup_eq_some_iff.mp h
  simp

theorem lookup_of_mem (hentries : Unambiguous entries) (h : (name, pattern) ∈ entries) :
    entries.lookup name = some pattern := by
  induction entries with
  | nil => cases h
  | cons first entries ih =>
    obtain ⟨hfirst, hrest⟩ := List.nodup_cons.mp hentries
    rw [List.lookup_cons]
    rcases List.mem_cons.mp h with rfl | h
    · simp
    · have hne : name ≠ first.1 := by
        rintro rfl
        exact hfirst (List.mem_map.mpr ⟨_, h, rfl⟩)
      rw [beq_false_of_ne hne]
      exact ih hrest h

theorem unambiguous_eraseEntry (h : Unambiguous entries) (name : String) :
    Unambiguous (eraseEntry name entries) :=
  h.sublist (List.eraseP_sublist.map Prod.fst)

theorem eraseEntry_cons (name : String) (first : String × Pattern)
    (entries : List (String × Pattern)) :
    eraseEntry name (first :: entries) =
      if name = first.1 then entries else first :: eraseEntry name entries := by
  by_cases h : name = first.1 <;> simp [eraseEntry, h]

theorem lookup_eraseEntry_self (h : Unambiguous entries) (name : String) :
    (eraseEntry name entries).lookup name = none := by
  induction entries with
  | nil => rfl
  | cons first entries ih =>
    obtain ⟨hfirst, hrest⟩ := List.nodup_cons.mp h
    rw [eraseEntry_cons]
    split
    · next heq =>
      rw [heq, List.lookup_eq_none_iff]
      intro entry hentry
      have hne : first.1 ≠ entry.1 := fun hfst => hfirst (hfst ▸ List.mem_map_of_mem hentry)
      simpa using hne
    · next hne =>
      rw [List.lookup_cons, beq_false_of_ne hne]
      exact ih hrest

theorem lookup_eraseEntry_of_ne (hne : target ≠ name) :
    (eraseEntry name entries).lookup target = entries.lookup target := by
  induction entries with
  | nil => rfl
  | cons first entries ih =>
    rw [eraseEntry_cons, List.lookup_cons]
    split
    · next heq => rw [beq_false_of_ne (heq ▸ hne)]
    · rw [List.lookup_cons, ih]

theorem refersTo_eraseEntry_iff (h : Unambiguous entries) {start : String} :
    RefersTo (eraseEntry name entries) start target ↔ start ≠ name ∧ RefersTo entries start target := by
  constructor
  · rintro ⟨found, hfound, htarget⟩
    have hne : start ≠ name := by
      rintro rfl
      rw [lookup_eraseEntry_self h] at hfound
      cases hfound
    rw [lookup_eraseEntry_of_ne hne] at hfound
    exact ⟨hne, found, hfound, htarget⟩
  · rintro ⟨hne, found, hfound, htarget⟩
    exact ⟨found, (lookup_eraseEntry_of_ne hne).trans hfound, htarget⟩

/-- A path either avoids the entry of a name, or goes on behind its last visit there. -/
theorem leadsTo_eraseEntry_or (h : Unambiguous entries)
    (hfound : entries.lookup name = some pattern) {start : String}
    (hpath : LeadsTo entries start target) :
    LeadsTo (eraseEntry name entries) start target ∨
      ∃ next ∈ pattern.references, LeadsTo (eraseEntry name entries) next target := by
  induction hpath using Relation.ReflTransGen.head_induction_on with
  | refl => exact .inl .refl
  | @head start middle hedge _ ih =>
    rcases ih with hmiddle | hlater
    · by_cases hstart : start = name
      · subst hstart
        obtain ⟨other, hother, hmem⟩ := hedge
        obtain rfl : pattern = other := Option.some.inj (hfound.symm.trans hother)
        exact .inr ⟨middle, hmem, hmiddle⟩
      · exact .inl (.head ((refersTo_eraseEntry_iff h).mpr ⟨hstart, hedge⟩) hmiddle)
    · exact .inr hlater

theorem leadsTo_of_eraseEntry (h : Unambiguous entries) {start : String}
    (hpath : LeadsTo (eraseEntry name entries) start target) : LeadsTo entries start target :=
  Relation.ReflTransGen.mono (fun _ _ hedge => ((refersTo_eraseEntry_iff h).mp hedge).2) _ _ hpath

end Entries

section Reaches

variable {target name : String} {unvisited : List (String × Pattern)} {pending : List String}
  {pattern : Pattern}

/-- A name without an entry that is still to be visited leads nowhere. -/
theorem reaches_cons_of_none (hne : name ≠ target) (hfound : unvisited.lookup name = none) :
    reaches target unvisited (name :: pending) = reaches target unvisited pending := by
  rw [reaches, if_neg hne]
  split
  · rfl
  · next pattern hpattern =>
    rw [hfound] at hpattern
    cases hpattern

/-- The references of the entry of a name take the place of the name. -/
theorem reaches_cons_of_some (hne : name ≠ target) (hfound : unvisited.lookup name = some pattern) :
    reaches target unvisited (name :: pending) =
      reaches target (eraseEntry name unvisited) (pattern.references ++ pending) := by
  rw [reaches, if_neg hne]
  split
  · next hnone =>
    rw [hfound] at hnone
    cases hnone
  · next other hother =>
    obtain rfl : pattern = other := Option.some.inj (hfound.symm.trans hother)
    rfl

end Reaches

/-- The search finds its target exactly if a path leads there from one of the pending names. -/
theorem reaches_iff (target : String) (unvisited : List (String × Pattern)) (pending : List String)
    (h : Unambiguous unvisited) :
    reaches target unvisited pending = true ↔
      ∃ name ∈ pending, LeadsTo unvisited name target := by
  induction unvisited, pending using reaches.induct target with
  | case1 unvisited =>
    rw [reaches]
    simp
  | case2 unvisited pending =>
    rw [reaches, if_pos rfl]
    exact ⟨fun _ => ⟨target, List.mem_cons_self, .refl⟩, fun _ => rfl⟩
  | case3 unvisited name pending hne hfound ih =>
    have hstuck : ¬LeadsTo unvisited name target := by
      intro hpath
      rcases hpath.cases_head with heq | ⟨next, ⟨pattern, hpattern, -⟩, -⟩
      · exact hne heq
      · rw [hfound] at hpattern
        cases hpattern
    rw [reaches_cons_of_none hne hfound, ih h]
    constructor
    · rintro ⟨other, hother, hpath⟩
      exact ⟨other, List.mem_cons_of_mem _ hother, hpath⟩
    · rintro ⟨other, hother, hpath⟩
      rcases List.mem_cons.mp hother with rfl | hother
      · exact absurd hpath hstuck
      · exact ⟨other, hother, hpath⟩
  | case4 unvisited name pending hne pattern hfound ih =>
    rw [reaches_cons_of_some hne hfound, ih (unambiguous_eraseEntry h name)]
    constructor
    · rintro ⟨start, hstart, hpath⟩
      have hpath' := leadsTo_of_eraseEntry h hpath
      rcases List.mem_append.mp hstart with hstart | hstart
      · exact ⟨name, List.mem_cons_self, .head ⟨pattern, hfound, hstart⟩ hpath'⟩
      · exact ⟨start, List.mem_cons_of_mem _ hstart, hpath'⟩
    · rintro ⟨start, hstart, hpath⟩
      rcases leadsTo_eraseEntry_or h hfound hpath with hdirect | ⟨next, hnext, hlater⟩
      · rcases List.mem_cons.mp hstart with rfl | hstart
        · -- The erased name leads nowhere by itself.
          rcases hdirect.cases_head with heq | ⟨next, hedge, -⟩
          · exact absurd heq hne
          · exact absurd rfl ((refersTo_eraseEntry_iff h).mp hedge).1
        · exact ⟨start, List.mem_append_right _ hstart, hdirect⟩
      · exact ⟨next, List.mem_append_left _ hnext, hlater⟩

/-! ### A stack of names and the set of the names seen

The same search can keep all entries, note each name that it takes from its stack, and pass over those
noted before. What it has not noted are the entries that `reaches` has not erased.
-/

/-- Only the members of the pending list count, not their order. -/
theorem reaches_congr {target : String} {unvisited : List (String × Pattern)}
    {pending others : List String} (h : Unambiguous unvisited)
    (hmem : ∀ name, name ∈ pending ↔ name ∈ others) :
    reaches target unvisited pending = reaches target unvisited others := by
  rw [Bool.eq_iff_iff, reaches_iff _ _ _ h, reaches_iff _ _ _ h]
  simp only [hmem]

def unseen (seen : List String) (entries : List (String × Pattern)) : List (String × Pattern) :=
  entries.filter fun entry => decide (entry.1 ∉ seen)

section Unseen

variable {entries : List (String × Pattern)} {seen : List String} {name : String}

@[simp]
theorem unseen_nil (entries : List (String × Pattern)) : unseen [] entries = entries := by
  simp [unseen]

theorem unseen_cons (first : String × Pattern) (entries : List (String × Pattern)) :
    unseen seen (first :: entries) =
      if first.1 ∈ seen then unseen seen entries else first :: unseen seen entries := by
  by_cases h : first.1 ∈ seen <;> simp [unseen, h]

theorem unseen_append (before after : List (String × Pattern)) :
    unseen seen (before ++ after) = unseen seen before ++ unseen seen after :=
  List.filter_append before after

theorem unambiguous_unseen (h : Unambiguous entries) : Unambiguous (unseen seen entries) :=
  h.sublist (List.filter_sublist.map Prod.fst)

theorem lookup_unseen : (unseen seen entries).lookup name =
    if name ∈ seen then none else entries.lookup name := by
  induction entries with
  | nil => simp [unseen]
  | cons first entries ih =>
    obtain ⟨key, value⟩ := first
    rw [unseen_cons, List.lookup_cons]
    by_cases hname : name = key
    · subst hname
      by_cases hseen : name ∈ seen <;> simp [hseen, ih]
    · rw [beq_false_of_ne hname]
      by_cases hkey : key ∈ seen
      · simpa [hkey] using ih
      · simpa [hkey, List.lookup_cons, beq_false_of_ne hname] using ih

theorem unseen_cons_of_none (hnone : entries.lookup name = none) :
    unseen (name :: seen) entries = unseen seen entries := by
  apply List.filter_congr
  intro entry hentry
  have hne : (name == entry.1) = false := by
    simpa using List.lookup_eq_none_iff.mp hnone entry hentry
  simp [ne_comm.mp (ne_of_beq_false hne)]

theorem eraseEntry_unseen (h : Unambiguous entries) (hseen : name ∉ seen) :
    eraseEntry name (unseen seen entries) = unseen (name :: seen) entries := by
  induction entries with
  | nil => rfl
  | cons first entries ih =>
    obtain ⟨hfirst, hrest⟩ := List.nodup_cons.mp h
    by_cases hname : name = first.1
    · -- No later entry is of this name, so nothing else is left out.
      have hnone : entries.lookup name = none := by
        rw [List.lookup_eq_none_iff]
        intro entry hentry
        have hne : name ≠ entry.1 := fun heq => hfirst (hname ▸ heq ▸ List.mem_map_of_mem hentry)
        simpa using hne
      rw [unseen_cons, unseen_cons, if_neg (hname ▸ hseen), if_pos (hname ▸ List.mem_cons_self),
        eraseEntry_cons, if_pos hname, unseen_cons_of_none hnone]
    · by_cases hkey : first.1 ∈ seen
      · rw [unseen_cons, unseen_cons, if_pos hkey, if_pos (List.mem_cons_of_mem _ hkey), ih hrest]
      · have hkey' : first.1 ∉ name :: seen := by
          simpa [Ne.symm hname] using hkey
        rw [unseen_cons, unseen_cons, if_neg hkey, if_neg hkey', eraseEntry_cons, if_neg hname,
          ih hrest]

theorem length_unseen_cons_le : (unseen (name :: seen) entries).length ≤ (unseen seen entries).length := by
  apply List.Sublist.length_le
  apply List.monotone_filter_right
  intro entry
  simp

theorem length_unseen_cons_lt {pattern : Pattern} (hseen : name ∉ seen)
    (hfound : entries.lookup name = some pattern) :
    (unseen (name :: seen) entries).length < (unseen seen entries).length := by
  obtain ⟨before, after, rfl, -⟩ := List.lookup_eq_some_iff.mp hfound
  have hbefore := @length_unseen_cons_le before seen name
  have hafter := @length_unseen_cons_le after seen name
  rw [unseen_append, unseen_append, unseen_cons, unseen_cons, if_pos List.mem_cons_self, if_neg hseen]
  simp only [List.length_append, List.length_cons]
  omega

end Unseen

/-- Takes names from a stack, its top first, until the target comes up. The references of a name go on
the stack when the name is taken for the first time, the last of them on top. -/
def follow (entries : List (String × Pattern)) (target : String) (seen : List String) :
    List String → Bool
  | [] => false
  | name :: stack =>
    if name = target then true
    else if name ∈ seen then follow entries target seen stack
    else
      match _hfound : entries.lookup name with
      | none => follow entries target (name :: seen) stack
      | some pattern =>
        follow entries target (name :: seen) (pattern.references.reverse ++ stack)
termination_by stack => ((unseen seen entries).length, stack.length)
decreasing_by
  · exact Prod.Lex.right _ (by simp)
  · rw [unseen_cons_of_none (by assumption)]
    exact Prod.Lex.right _ (by simp)
  · exact Prod.Lex.left _ _ (length_unseen_cons_lt (by assumption) (by assumption))

/-- Noting the names seen finds the same as erasing their entries. -/
theorem follow_eq_reaches (entries : List (String × Pattern)) (target : String) (seen stack : List String)
    (h : Unambiguous entries) (htarget : target ∉ seen) :
    follow entries target seen stack = reaches target (unseen seen entries) stack := by
  induction seen, stack using follow.induct entries target with
  | case1 seen => rw [follow, reaches]
  | case2 seen stack => rw [follow, reaches, if_pos rfl, if_pos rfl]
  | case3 seen name stack hne hseen ih =>
    have hnone : (unseen seen entries).lookup name = none := by rw [lookup_unseen, if_pos hseen]
    rw [follow, if_neg hne, if_pos hseen, ih htarget, reaches_cons_of_none hne hnone]
  | case4 seen name stack hne hseen hnone ih =>
    have hgone : (unseen seen entries).lookup name = none := by
      rw [lookup_unseen, if_neg hseen, hnone]
    have htarget' : target ∉ name :: seen := by
      simpa [Ne.symm hne] using htarget
    rw [follow, if_neg hne, if_neg hseen, reaches_cons_of_none hne hgone]
    split
    · rw [ih htarget', unseen_cons_of_none hnone]
    · next pattern hfound => cases hnone.symm.trans hfound
  | case5 seen name stack hne hseen pattern hfound ih =>
    have hleft : (unseen seen entries).lookup name = some pattern := by
      rw [lookup_unseen, if_neg hseen, hfound]
    have htarget' : target ∉ name :: seen := by
      simpa [Ne.symm hne] using htarget
    rw [follow, if_neg hne, if_neg hseen, reaches_cons_of_some hne hleft, eraseEntry_unseen h hseen]
    split
    · next hnone => cases hnone.symm.trans hfound
    · next other hother =>
      obtain rfl : pattern = other := Option.some.inj (hfound.symm.trans hother)
      rw [ih htarget']
      exact reaches_congr (unambiguous_unseen h) (by simp)

namespace Registry

theorem mem_patterns_of_get? {registry : Registry} {name : String} {pattern : Pattern}
    (h : registry.get? name = some pattern) : pattern ∈ registry.patterns := by
  obtain ⟨before, after, hsplit, -⟩ := List.lookup_eq_some_iff.mp h
  rw [patterns, hsplit]
  simp

theorem unambiguous (registry : Registry) : Unambiguous registry.entries := by
  have hsorted : (registry.entries.map Prod.fst).Pairwise (· < ·) :=
    List.pairwise_map.mpr registry.sorted
  refine hsorted.imp ?_
  rintro left right hlt rfl
  exact String.lt_irrefl _ hlt

/-- A stack and the names seen find the cyclic names, each in a search of its own that starts with the
references of the name. -/
theorem cyclicNames_eq_follow (registry : Registry) :
    registry.cyclicNames = (registry.entries.filter fun entry =>
      follow registry.entries entry.1 [] entry.2.references.reverse).map Prod.fst := by
  have hentries := registry.unambiguous
  rw [cyclicNames]
  congr 1
  apply List.filter_congr
  rintro ⟨name, pattern⟩ -
  rw [follow_eq_reaches _ _ _ _ hentries (List.not_mem_nil), unseen_nil]
  exact reaches_congr hentries (by simp)

/-- The cyclic names of a registry are those that references lead back to. -/
theorem mem_cyclicNames_iff (registry : Registry) (name : String) :
    name ∈ registry.cyclicNames ↔ Relation.TransGen (RefersTo registry.entries) name name := by
  have hentries := registry.unambiguous
  rw [Relation.TransGen.head'_iff]
  simp only [cyclicNames, List.mem_map, List.mem_filter, reaches_iff _ _ _ hentries]
  constructor
  · rintro ⟨⟨key, pattern⟩, ⟨hmem, next, hnext, hpath⟩, rfl⟩
    exact ⟨next, ⟨pattern, lookup_of_mem hentries hmem, hnext⟩, hpath⟩
  · rintro ⟨next, ⟨pattern, hfound, hnext⟩, hpath⟩
    obtain ⟨before, after, hsplit, -⟩ := List.lookup_eq_some_iff.mp hfound
    refine ⟨(name, pattern), ⟨?_, next, hnext, hpath⟩, rfl⟩
    rw [hsplit]
    exact List.mem_append_right _ List.mem_cons_self

end Registry

end OpeningHand
