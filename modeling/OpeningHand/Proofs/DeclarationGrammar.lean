import OpeningHand.Grammar.Reader

/-!
# The grammar of declarations

    declaration := '<' name '>' ':' compound  |  '<<' name '>' '>' ':' compound
    compound    := counted  |  counted ('&' counted)+  |  counted ('|' counted)+
    counted     := digits? atom
    atom        := '[' name ']'  |  '<' name '>'  |  '(' compound ')'  |  '@' function
    function    := 'any' row  |  'all' row  |  'not' row  |  'xof' '(' digits ')' row
                |  'atleast' '(' digits ')' row
    row         := '(' counted* ')'

Which texts derive which patterns, said without a reader. Spaces may stand in front of every mark, in
front of every atom and its digits, and behind an atom; the second one of two equal marks follows the
first one directly, except for the two that close the name of a criterion. What is written between marks
is a run of characters that are no brackets, and is trimmed.
-/

namespace OpeningHand

namespace Pattern

/-- The choices of a number of patterns out of a row: first those with the first pattern, then those
without it. -/
def choices : Nat → List Pattern → List (List Pattern)
  | 0, _ => [[]]
  | _ + 1, [] => []
  | size + 1, child :: children =>
    (choices size children).map (child :: ·) ++ choices (size + 1) children

/-- As many of the patterns at once as the count says. Nothing is asked for if the count is zero, and
there is no choice if it is the number of patterns. -/
def threshold (count : Nat) (children : List Pattern) : Pattern :=
  if count = 0 then always
  else if count = 1 then anyOf children
  else if count = children.length then allOf children
  else any ((choices count children).map all)

end Pattern

/-- The room that all selections of a given size from the indices below `len` need, if there is a number
for them and a list in memory. -/
def Selection.room (len size : Nat) : Except Fault Unit := do
  let branches ← count len size
  reserve branches Pattern.nodeBytes

namespace Selection

theorem countFrom_eq_error {n steps i value : Nat} {fault : Fault}
    (h : countFrom n steps i value = .error fault) : fault = .productOverflow := by
  induction steps generalizing i value with
  | zero => cases h
  | succ steps ih =>
    rw [countFrom] at h
    split at h
    · exact ih h
    · cases h
      rfl

theorem room_eq_error {len size : Nat} {fault : Fault} (h : room len size = .error fault) :
    fault = .productOverflow ∨ fault = .capacityOverflow := by
  rw [room] at h
  cases hcount : count len size with
  | error other =>
    rw [hcount] at h
    cases h
    rw [count] at hcount
    split at hcount
    · cases hcount
    · exact .inl (countFrom_eq_error hcount)
  | ok branches =>
    rw [hcount] at h
    change reserve branches Pattern.nodeBytes = .error fault at h
    rw [reserve] at h
    split at h
    · cases h
    · cases h
      exact .inr rfl

end Selection

namespace Pattern

/-- Indices and patterns are selected in the same order. -/
theorem map_indicesFrom (children before : List Pattern) (size : Nat) :
    (Selection.indicesFrom before.length children.length size).map
      (fun indices => indices.filterMap ((before ++ children)[·]?)) = choices size children := by
  induction children generalizing before size with
  | nil => cases size <;> rfl
  | cons child children ih =>
    cases size with
    | zero => rfl
    | succ size =>
      have hbefore : before ++ child :: children = (before ++ [child]) ++ children := by simp
      have hlength : before.length + 1 = (before ++ [child]).length := by simp
      have hchild : (before ++ child :: children)[before.length]? = some child := by simp
      rw [List.length_cons, Selection.indicesFrom_succ, List.map_append, List.map_map, choices,
        ← ih (before ++ [child]) size, ← ih (before ++ [child]) (size + 1), ← hbefore, ← hlength,
        List.map_map]
      congr 1
      apply List.map_congr_left
      intro indices _
      exact List.filterMap_cons_some hchild

theorem atLeast_of_lt {count : Nat} {children : List Pattern} (h : children.length < count) :
    atLeast count children = .ok none := by
  rw [atLeast, if_neg (Nat.ne_zero_of_lt h), if_pos h]

/-- As many of the patterns as there are at most are put together, unless there are too many
selections. -/
theorem atLeast_of_le {count : Nat} {children : List Pattern} (h : count ≤ children.length) :
    atLeast count children = .ok (some (threshold count children)) ∨
      ∃ fault, Selection.room children.length count = .error fault ∧
        atLeast count children = .error fault := by
  rw [atLeast, threshold, if_neg (Nat.not_lt.mpr h)]
  split
  · exact .inl rfl
  · split
    · exact .inl rfl
    · split
      · exact .inl rfl
      · rw [← map_indicesFrom children [] count, Selection.room]
        cases hbranches : Selection.count children.length count with
        | error fault => exact .inr ⟨fault, rfl, rfl⟩
        | ok branches =>
          cases hroom : Selection.reserve branches nodeBytes with
          | error fault => exact .inr ⟨fault, hroom, by simp [bind, Except.bind, hroom]⟩
          | ok => exact .inl (by simp [bind, Except.bind, hroom, Selection.indices, pure, Except.pure])

end Pattern

namespace Grammar

def Spaces (text : List Char) : Prop :=
  ∀ c ∈ text, isSpace c = true

/-- The character, which spaces may precede. -/
inductive Mark (c : Char) : List Char → Prop
  | mk {spaces : List Char} (hspaces : Spaces spaces) : Mark c (spaces ++ [c])

def Run (text : List Char) : Prop :=
  ∀ c ∈ text, isBracket c = false

/-- A run in which something can be seen. -/
structure Name (text : List Char) : Prop where
  run : Run text
  visible : Text.trim text ≠ []

structure Word (word : String) (text : List Char) : Prop where
  run : Run text
  trim_eq : Text.trim text = word.toList

structure Digits (text : List Char) (count : Nat) : Prop where
  ne_nil : text ≠ []
  digits : ∀ c ∈ text, c.isDigit = true
  value : Text.digitsValue text = count
  limit : count < countLimit

/-- The digits in front of an atom, which stands for itself once where there are none. -/
inductive Multiplicity : List Char → Nat → Prop
  | none : Multiplicity [] 1
  | digits {text : List Char} {count : Nat} (h : Digits text count) : Multiplicity text count

/-- The digits of a count, in front of which there may be a plus sign. -/
inductive Numeral : List Char → Nat → Prop
  | unsigned {text : List Char} {count : Nat} (h : Digits text count) : Numeral text count
  | signed {text : List Char} {count : Nat} (h : Digits text count) : Numeral ('+' :: text) count

inductive Argument : List Char → Nat → Prop
  | mk {opening text closing : List Char} {count : Nat} (hopening : Mark '(' opening) (hrun : Run text)
      (hcount : Numeral (Text.trim text) count) (hclosing : Mark ')' closing) :
      Argument (opening ++ (text ++ closing)) count

/-- The connective, once or twice. -/
inductive Joint (connective : Connective) : List Char → Prop
  | once {mark : List Char} (hmark : Mark connective.symbol mark) : Joint connective mark
  | twice {mark : List Char} (hmark : Mark connective.symbol mark) :
      Joint connective (mark ++ [connective.symbol])

mutual

/-- The pattern is written without a count. -/
inductive Atom : List Char → Pattern → Prop
  | card {opening name closing : List Char} (hopening : Mark '[' opening) (hname : Name name)
      (hclosing : Mark ']' closing) : Atom (opening ++ (name ++ closing)) (.ofCardName name)
  | named {opening name closing : List Char} (hopening : Mark '<' opening) (hname : Name name)
      (hclosing : Mark '>' closing) : Atom (opening ++ (name ++ closing)) (.ofName name)
  | group {opening text closing : List Char} {pattern : Pattern} (hopening : Mark '(' opening)
      (hcompound : Compound text pattern) (hclosing : Mark ')' closing) :
      Atom (opening ++ (text ++ closing)) pattern
  | function {opening text : List Char} {pattern : Pattern} (hopening : Mark '@' opening)
      (hfunction : Function text pattern) : Atom (opening ++ text) pattern

/-- The pattern is written with the spaces around it, and stands for as many as the count says. -/
inductive Counted : List Char → Pattern → Prop
  | mk {before digits text after : List Char} {count : Nat} {pattern : Pattern}
      (hbefore : Spaces before) (hcount : Multiplicity digits count) (hatom : Atom text pattern)
      (hafter : Spaces after) :
      Counted (before ++ (digits ++ (text ++ after))) (.repeated count pattern)

/-- One pattern, or several with the same connective between them. -/
inductive Compound : List Char → Pattern → Prop
  | single {text : List Char} {pattern : Pattern} (h : Counted text pattern) : Compound text pattern
  | joined {text rest : List Char} {connective : Connective} {first : Pattern} {others : List Pattern}
      (hfirst : Counted text first) (hothers : Operands connective rest others) (hne : others ≠ []) :
      Compound (text ++ rest) (connective.join (first :: others))

inductive Operands : Connective → List Char → List Pattern → Prop
  | nil {connective : Connective} : Operands connective [] []
  | cons {connective : Connective} {joint text rest : List Char} {pattern : Pattern}
      {others : List Pattern} (hjoint : Joint connective joint) (hpattern : Counted text pattern)
      (hothers : Operands connective rest others) :
      Operands connective (joint ++ (text ++ rest)) (pattern :: others)

inductive Function : List Char → Pattern → Prop
  | any {word row : List Char} {children : List Pattern} (hword : Word "any" word)
      (hrow : Row row children) (hne : children ≠ []) : Function (word ++ row) (.anyOf children)
  | all {word row : List Char} {children : List Pattern} (hword : Word "all" word)
      (hrow : Row row children) (hne : children ≠ []) : Function (word ++ row) (.allOf children)
  | threshold {word argument row : List Char} {count : Nat} {children : List Pattern}
      (hword : Word "xof" word ∨ Word "atleast" word) (hargument : Argument argument count)
      (hrow : Row row children) (hle : count ≤ children.length) :
      Function (word ++ (argument ++ row)) (.threshold count children)
  | absent {word row : List Char} {child : Pattern} (hword : Word "not" word) (hrow : Row row [child]) :
      Function (word ++ row) (.absent child)

inductive Row : List Char → List Pattern → Prop
  | mk {opening text closing : List Char} {children : List Pattern} (hopening : Mark '(' opening)
      (hitems : Items text children) (hclosing : Mark ')' closing) :
      Row (opening ++ (text ++ closing)) children

inductive Items : List Char → List Pattern → Prop
  | nil : Items [] []
  | cons {text rest : List Char} {pattern : Pattern} {others : List Pattern}
      (hpattern : Counted text pattern) (hothers : Items rest others) :
      Items (text ++ rest) (pattern :: others)

end

/-- A name stands between brackets, and between two of them on either side if it names a criterion. -/
inductive Heading : Bool → List Char → List Char → Prop
  | plain {opening name closing : List Char} (hopening : Mark '<' opening) (hname : Name name)
      (hclosing : Mark '>' closing) : Heading false (opening ++ (name ++ closing)) name
  | criterion {opening name closing second : List Char} (hopening : Mark '<' opening)
      (hname : Name name) (hclosing : Mark '>' closing) (hsecond : Mark '>' second) :
      Heading true (opening ++ '<' :: (name ++ (closing ++ second))) name

/-- The line declares the pattern under a name, and nothing else. -/
inductive Line : List Char → Declaration → Prop
  | mk {isCriterion : Bool} {heading name colon text after : List Char} {pattern : Pattern}
      (hheading : Heading isCriterion heading name) (hcolon : Mark ':' colon)
      (hcompound : Compound text pattern) (hafter : Spaces after) :
      Line (heading ++ (colon ++ (text ++ after)))
        ⟨String.ofList (Text.trim name), isCriterion, pattern⟩

theorem mark_singleton (c : Char) : Mark c [c] :=
  .mk (List.forall_mem_nil _)

theorem run_of_any_eq_false {text : List Char} (h : text.any isBracket = false) : Run text :=
  fun c hc => Bool.eq_false_iff.mpr (List.any_eq_false.mp h c hc)

theorem Atom.counted {text : List Char} {pattern : Pattern} (h : Atom text pattern) :
    Counted text pattern := by
  have hcounted := Counted.mk (List.forall_mem_nil _) .none h (List.forall_mem_nil _)
  rwa [List.nil_append, List.nil_append, List.append_nil] at hcounted

theorem Items.row {text : List Char} {children : List Pattern} (h : Items text children) :
    Row (['('] ++ (text ++ [')'])) children :=
  .mk (mark_singleton '(') h (mark_singleton ')')

/-- Somewhere in the text a function asks for a number of the patterns in a row for which there are too
many selections. -/
def Overflows (text : List Char) (fault : Fault) : Prop :=
  ∃ before argument row after count children, text = before ++ (argument ++ (row ++ after)) ∧
    Argument argument count ∧ Row row children ∧ Selection.room children.length count = .error fault

theorem Overflows.eq_or_eq {text : List Char} {fault : Fault} (h : Overflows text fault) :
    fault = .productOverflow ∨ fault = .capacityOverflow := by
  obtain ⟨_, _, _, _, _, _, _, _, _, hroom⟩ := h
  exact Selection.room_eq_error hroom

end Grammar

end OpeningHand
