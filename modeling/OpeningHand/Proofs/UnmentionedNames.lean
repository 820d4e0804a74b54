import OpeningHand.Proofs.CycleSearch

/-!
# Names that nothing mentions

References lead to a name only through a pattern that mentions it. So a pattern under a name that no other
one mentions is seen only by those who start from it, and putting it into a registry, or another one in
its place, makes no difference to the paths from any other name.
-/

namespace OpeningHand.Registry

variable {registry : Registry} {name other start target : String} {pattern : Pattern}

def Unmentioned (registry : Registry) (name : String) : Prop :=
  ∀ pattern ∈ registry.patterns, name ∉ pattern.references

theorem refersTo_insert_self :
    RefersTo (registry.insert name pattern).entries name target ↔ target ∈ pattern.references := by
  have hfound : (registry.insert name pattern).get? name = some pattern := by
    rw [get?_insert, if_pos rfl]
  constructor
  · rintro ⟨found, hother, htarget⟩
    obtain rfl : pattern = found := Option.some.inj (hfound.symm.trans hother)
    exact htarget
  · exact fun htarget => ⟨pattern, hfound, htarget⟩

theorem refersTo_insert_of_ne (hne : start ≠ name) :
    RefersTo (registry.insert name pattern).entries start target ↔
      RefersTo registry.entries start target := by
  have hfound : (registry.insert name pattern).get? start = registry.get? start := by
    rw [get?_insert, if_neg hne]
  change (∃ found, (registry.insert name pattern).get? start = some found ∧ _) ↔ _
  rw [hfound]
  rfl

theorem Unmentioned.not_refersTo (h : registry.Unmentioned name) :
    ¬RefersTo registry.entries start name := by
  rintro ⟨found, hfound, hname⟩
  exact h found (mem_patterns_of_get? hfound) hname

theorem Unmentioned.ne_of_transGen (h : registry.Unmentioned name)
    (hpath : Relation.TransGen (RefersTo registry.entries) start target) : target ≠ name := by
  rintro rfl
  obtain ⟨middle, -, hlast⟩ := Relation.TransGen.tail'_iff.mp hpath
  exact h.not_refersTo hlast

/-- From another name, references lead where they have led before. -/
theorem Unmentioned.transGen_insert_iff (h : registry.Unmentioned name) (hne : start ≠ name) :
    Relation.TransGen (RefersTo (registry.insert name pattern).entries) start target ↔
      Relation.TransGen (RefersTo registry.entries) start target := by
  constructor
  · intro hpath
    induction hpath with
    | single hedge => exact .single ((refersTo_insert_of_ne hne).mp hedge)
    | tail _ hedge ih => exact .tail ih ((refersTo_insert_of_ne (h.ne_of_transGen ih)).mp hedge)
  · intro hpath
    induction hpath with
    | single hedge => exact .single ((refersTo_insert_of_ne hne).mpr hedge)
    | tail hbefore hedge ih =>
      exact .tail ih ((refersTo_insert_of_ne (h.ne_of_transGen hbefore)).mpr hedge)

theorem Unmentioned.mem_cyclicNames_insert_iff (h : registry.Unmentioned name) (hne : other ≠ name) :
    other ∈ (registry.insert name pattern).cyclicNames ↔ other ∈ registry.cyclicNames := by
  rw [mem_cyclicNames_iff, mem_cyclicNames_iff, h.transGen_insert_iff hne]

/-- Only its own pattern can lead back to the name. -/
theorem Unmentioned.mem_cyclicNames_insert_self_iff (h : registry.Unmentioned name) :
    name ∈ (registry.insert name pattern).cyclicNames ↔ name ∈ pattern.references := by
  rw [mem_cyclicNames_iff]
  constructor
  · intro hpath
    obtain ⟨middle, -, hlast⟩ := Relation.TransGen.tail'_iff.mp hpath
    by_cases hmiddle : middle = name
    · subst hmiddle
      exact refersTo_insert_self.mp hlast
    · exact absurd ((refersTo_insert_of_ne hmiddle).mp hlast) h.not_refersTo
  · exact fun hname => .single (refersTo_insert_self.mpr hname)

end OpeningHand.Registry
