import OpeningHand.Proofs.CardNames
import OpeningHand.Proofs.Outcomes
import OpeningHand.Proofs.PatternTrees
import OpeningHand.Proofs.SelectionLists

/-!
# What a declaration can say

Reading a line never gives an arbitrary tree: rows have at least two children, repetitions a count of at
least two, and names are trimmed and free of brackets. A tree like this is regular. The constructors that
leave out nodes without effect keep to regular trees, and so does every reader.
-/

namespace OpeningHand

structure Text.Nameable (text : List Char) : Prop where
  ne_nil : text ≠ []
  trimmed : Text.Trimmed text
  unbracketed : ∀ c ∈ text, isBracket c = false

/-- What is written between brackets is a name once it is trimmed. -/
theorem Text.nameable_trim {text : List Char} (hne : Text.trim text ≠ [])
    (hbrackets : ∀ c ∈ text, isBracket c = false) : Text.Nameable (Text.trim text) :=
  ⟨hne, Text.trimmed_trim text, fun c hc => hbrackets c ((Text.trim_sublist text).subset hc)⟩

theorem Text.Nameable.trim_ne_nil {text : List Char} (h : Text.Nameable text) : Text.trim text ≠ [] := by
  rw [h.trimmed.trim_eq]
  exact h.ne_nil

theorem Card.nameable_ofName {name : List Char} (hne : Text.trim name ≠ [])
    (hbrackets : ∀ c ∈ name, isBracket c = false) : Text.Nameable (Card.ofName name).toList :=
  ⟨toList_ofName_ne_nil hne, trimmed_ofName name, not_bracket_of_mem_ofName hbrackets⟩

namespace Pattern

mutual

def nodes : Pattern → List Pattern
  | always => [always]
  | card name => [card name]
  | named name => [named name]
  | all children => all children :: rowNodes children
  | any children => any children :: rowNodes children
  | times count child => times count child :: nodes child
  | absent child => absent child :: nodes child

def rowNodes : List Pattern → List Pattern
  | [] => []
  | child :: children => nodes child ++ rowNodes children

end

theorem rowNodes_eq_flatMap (children : List Pattern) : rowNodes children = children.flatMap nodes := by
  induction children with
  | nil => rfl
  | cons child children ih => rw [rowNodes, ih, List.flatMap_cons]

def Everywhere (good : Pattern → Prop) (pattern : Pattern) : Prop :=
  ∀ node ∈ pattern.nodes, good node

section Everywhere

variable {good : Pattern → Prop} {pattern child : Pattern} {children : List Pattern} {count : Nat}

theorem forall_mem_rowNodes_iff :
    (∀ node ∈ rowNodes children, good node) ↔ ∀ child ∈ children, child.Everywhere good := by
  rw [rowNodes_eq_flatMap]
  exact List.forall_mem_flatMap

@[simp] theorem everywhere_always : always.Everywhere good ↔ good always :=
  List.forall_mem_singleton

@[simp] theorem everywhere_card {name : Card} : (card name).Everywhere good ↔ good (card name) :=
  List.forall_mem_singleton

@[simp] theorem everywhere_named {name : String} :
    (named name).Everywhere good ↔ good (named name) :=
  List.forall_mem_singleton

@[simp] theorem everywhere_all : (all children).Everywhere good ↔
    good (all children) ∧ ∀ child ∈ children, child.Everywhere good := by
  have hnodes : (all children).nodes = all children :: rowNodes children := rfl
  rw [← forall_mem_rowNodes_iff, Everywhere, hnodes, List.forall_mem_cons]

@[simp] theorem everywhere_any : (any children).Everywhere good ↔
    good (any children) ∧ ∀ child ∈ children, child.Everywhere good := by
  have hnodes : (any children).nodes = any children :: rowNodes children := rfl
  rw [← forall_mem_rowNodes_iff, Everywhere, hnodes, List.forall_mem_cons]

@[simp] theorem everywhere_times : (times count child).Everywhere good ↔
    good (times count child) ∧ child.Everywhere good :=
  List.forall_mem_cons

@[simp] theorem everywhere_absent : (absent child).Everywhere good ↔
    good (absent child) ∧ child.Everywhere good :=
  List.forall_mem_cons

/-! The constructors that leave out nodes without effect add a node only where it has one. -/

theorem everywhere_allOf (halways : good always)
    (hnode : 2 ≤ children.length → good (all children)) (h : ∀ child ∈ children, child.Everywhere good) :
    (allOf children).Everywhere good := by
  match children with
  | [] => exact everywhere_always.mpr halways
  | [child] => exact h child List.mem_cons_self
  | first :: second :: others => exact everywhere_all.mpr ⟨hnode (Nat.le_add_left 2 _), h⟩

theorem everywhere_anyOf (halways : good always)
    (hnode : 2 ≤ children.length → good (any children)) (h : ∀ child ∈ children, child.Everywhere good) :
    (anyOf children).Everywhere good := by
  match children with
  | [] => exact everywhere_always.mpr halways
  | [child] => exact h child List.mem_cons_self
  | first :: second :: others => exact everywhere_any.mpr ⟨hnode (Nat.le_add_left 2 _), h⟩

theorem everywhere_repeated (halways : good always) (hnode : 2 ≤ count → good (times count child))
    (h : child.Everywhere good) : (repeated count child).Everywhere good := by
  match count with
  | 0 => exact everywhere_always.mpr halways
  | 1 => exact h
  | count + 2 => exact everywhere_times.mpr ⟨hnode (Nat.le_add_left 2 count), h⟩

end Everywhere

/-! ### Regular patterns -/

/-- What regular patterns have at a node, apart from its children. -/
def RegularNode : Pattern → Prop
  | always => True
  | card name => Text.Nameable name.toList ∧ Card.ofName name.toList = name
  | named name => Text.Nameable name.toList
  | all children => 2 ≤ children.length
  | any children => 2 ≤ children.length
  | times count _ => 2 ≤ count ∧ count < countLimit
  | absent _ => True

/-- A tree that reading a declaration can give. -/
abbrev Regular (pattern : Pattern) : Prop :=
  pattern.Everywhere RegularNode

variable {pattern : Pattern} {children : List Pattern} {name : List Char}

theorem regular_ofCardName (hne : Text.trim name ≠ []) (hbrackets : ∀ c ∈ name, isBracket c = false) :
    (ofCardName name).Regular :=
  everywhere_card.mpr ⟨Card.nameable_ofName hne hbrackets, Card.ofName_toList_ofName name⟩

theorem regular_ofName (hne : Text.trim name ≠ []) (hbrackets : ∀ c ∈ name, isBracket c = false) :
    (ofName name).Regular := by
  refine everywhere_named.mpr ?_
  change Text.Nameable (String.ofList (Text.trim name)).toList
  rw [String.toList_ofList]
  exact Text.nameable_trim hne hbrackets

theorem regular_allOf (h : ∀ child ∈ children, child.Regular) : (allOf children).Regular :=
  everywhere_allOf trivial (fun htwo => htwo) h

theorem regular_anyOf (h : ∀ child ∈ children, child.Regular) : (anyOf children).Regular :=
  everywhere_anyOf trivial (fun htwo => htwo) h

theorem regular_repeated {count : Nat} (hcount : count < countLimit) (h : pattern.Regular) :
    (repeated count pattern).Regular :=
  everywhere_repeated trivial (fun htwo => ⟨htwo, hcount⟩) h

/-- The children that a selection names are as many as it says, and none is missing. -/
theorem length_filterMap_getElem? {selection : List Nat}
    (h : ∀ index ∈ selection, index < children.length) :
    (selection.filterMap (children[·]?)).length = selection.length := by
  induction selection with
  | nil => rfl
  | cons index selection ih =>
    obtain ⟨hindex, hselection⟩ := List.forall_mem_cons.mp h
    rw [List.filterMap_cons, List.getElem?_eq_getElem hindex, List.length_cons, List.length_cons,
      ih hselection]

/-- Two or more children out of a longer row, in two or more ways. -/
theorem regular_any_selections {count : Nat} (h : ∀ child ∈ children, child.Regular) (hone : 1 < count)
    (hlt : count < children.length) :
    (any ((Selection.indices children.length count).map fun indices =>
      all (indices.filterMap (children[·]?)))).Regular := by
  refine everywhere_any.mpr ⟨?_, ?_⟩
  · change 2 ≤ List.length _
    rw [List.length_map]
    exact Selection.two_le_length_indices (Nat.zero_lt_of_lt hone) hlt
  · intro branch hbranch
    obtain ⟨selection, hselection, rfl⟩ := List.mem_map.mp hbranch
    refine everywhere_all.mpr ⟨?_, ?_⟩
    · change 2 ≤ List.length _
      rw [length_filterMap_getElem? (Selection.lt_of_mem_indices hselection),
        Selection.length_of_mem_indices hselection]
      exact hone
    · intro child hchild
      obtain ⟨index, -, hindex⟩ := List.mem_filterMap.mp hchild
      exact h child (List.mem_of_getElem? hindex)

theorem regular_atLeast {count : Nat} (h : ∀ child ∈ children, child.Regular)
    (hresult : atLeast count children = .ok (some pattern)) : pattern.Regular := by
  rw [atLeast] at hresult
  split_ifs at hresult with hzero hfew hone hlength
  · cases hresult
    exact everywhere_always.mpr trivial
  · cases hresult
  · cases hresult
    exact regular_anyOf h
  · cases hresult
    exact regular_allOf h
  · obtain ⟨branches, -, hresult⟩ := exists_of_bind_eq_ok hresult
    obtain ⟨_, -, hresult⟩ := exists_of_bind_eq_ok hresult
    cases hresult
    exact regular_any_selections h (by omega) (by omega)

end Pattern

end OpeningHand
