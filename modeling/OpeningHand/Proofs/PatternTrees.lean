import OpeningHand.Pattern

/-!
# Pattern trees

Induction on a pattern, where the children of a row are smaller patterns, and what a tree refers to.
-/

namespace OpeningHand.Pattern

/-- A property that every kind of node passes on from its children holds of all patterns. -/
@[induction_eliminator]
theorem nodeInduction {motive : Pattern → Prop} (always : motive always)
    (card : ∀ name, motive (card name)) (named : ∀ name, motive (named name))
    (all : ∀ children, (∀ child ∈ children, motive child) → motive (all children))
    (any : ∀ children, (∀ child ∈ children, motive child) → motive (any children))
    (times : ∀ count child, motive child → motive (times count child))
    (absent : ∀ child, motive child → motive (absent child)) :
    ∀ pattern, motive pattern := by
  apply @Pattern.rec motive (fun children => ∀ child ∈ children, motive child)
  · exact always
  · exact card
  · exact named
  · exact all
  · exact any
  · exact times
  · exact absent
  · intro child h
    cases h
  · intro first others hfirst hothers child h
    rcases List.mem_cons.mp h with rfl | h
    · exact hfirst
    · exact hothers child h

/-- What a child refers to, its row refers to. -/
theorem mem_rowReferences {children : List Pattern} {child : Pattern} (h : child ∈ children)
    {name : String} (hname : name ∈ child.references) : name ∈ rowReferences children := by
  rw [rowReferences_eq_flatMap]
  exact List.mem_flatMap.mpr ⟨child, h, hname⟩

/-- Induction on a pattern all of whose names are of some kind: the names in its children are, too. -/
theorem referenceInduction {kind : String → Prop}
    {motive : ∀ pattern : Pattern, (∀ name ∈ pattern.references, kind name) → Prop}
    (always : ∀ h, motive always h) (card : ∀ name h, motive (card name) h)
    (named : ∀ name h, kind name → motive (named name) h)
    (all : ∀ children h, (∀ child (hchild : child ∈ children), motive child fun name hname =>
      h name (mem_rowReferences hchild hname)) → motive (all children) h)
    (any : ∀ children h, (∀ child (hchild : child ∈ children), motive child fun name hname =>
      h name (mem_rowReferences hchild hname)) → motive (any children) h)
    (times : ∀ count child h, motive child h → motive (times count child) h)
    (absent : ∀ child h, motive child h → motive (absent child) h)
    (pattern : Pattern) (h : ∀ name ∈ pattern.references, kind name) : motive pattern h := by
  induction pattern with
  | always => exact always h
  | card name => exact card name h
  | named name => exact named name h (h name List.mem_cons_self)
  | all children ih => exact all children h fun child hchild => ih child hchild _
  | any children ih => exact any children h fun child hchild => ih child hchild _
  | times count child ih => exact times count child h (ih h)
  | absent child ih => exact absent child h (ih h)

end OpeningHand.Pattern
