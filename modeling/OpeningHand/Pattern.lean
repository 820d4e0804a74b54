import OpeningHand.Card
import OpeningHand.Selection
import OpeningHand.Text.Numeral

/-!
# Patterns

A pattern says which cards a hand must offer. This module holds the tree, the constructors that leave
out nodes without effect, and the lists of what a tree mentions, from left to right.
-/

namespace OpeningHand

/-- What is looked for in a hand. All children of a row are looked for at once, each with cards of its
own, and so is a child that is repeated. Every hand has what is always there, and no card is used for
what is absent. -/
inductive Pattern where
  | always
  | card (card : Card)
  | named (name : String)
  | all (children : List Pattern)
  | any (children : List Pattern)
  | times (count : Nat) (child : Pattern)
  | absent (child : Pattern)
deriving Repr

namespace Pattern

instance : Inhabited Pattern := ⟨always⟩

mutual

def same : Pattern → Pattern → Bool
  | always, always => true
  | card a, card b => a == b
  | named a, named b => a == b
  | all a, all b => sameRow a b
  | any a, any b => sameRow a b
  | times m a, times n b => m == n && same a b
  | absent a, absent b => same a b
  | _, _ => false

def sameRow : List Pattern → List Pattern → Bool
  | [], [] => true
  | a :: as, b :: bs => same a b && sameRow as bs
  | _, _ => false

end

mutual

theorem same_iff : ∀ p q : Pattern, same p q = true ↔ p = q
  | always, q => by cases q <;> simp [same]
  | card a, q => by cases q <;> simp [same]
  | named a, q => by cases q <;> simp [same]
  | all a, q => by cases q <;> simp [same, sameRow_iff a]
  | any a, q => by cases q <;> simp [same, sameRow_iff a]
  | times m a, q => by cases q <;> simp [same, same_iff a]
  | absent a, q => by cases q <;> simp [same, same_iff a]

theorem sameRow_iff : ∀ as bs : List Pattern, sameRow as bs = true ↔ as = bs
  | [], bs => by cases bs <;> simp [sameRow]
  | a :: as, bs => by cases bs <;> simp [sameRow, same_iff a, sameRow_iff as]

end

instance : DecidableEq Pattern := fun p q =>
  decidable_of_iff (same p q = true) (same_iff p q)

def ofCardName (name : List Char) : Pattern :=
  card (Card.ofName name)

def ofName (name : List Char) : Pattern :=
  named (String.ofList (Text.trim name))

/-- All of the patterns: none at all always holds, and one needs no node around it. -/
def allOf : List Pattern → Pattern
  | [] => always
  | [child] => child
  | children => all children

/-- One of the patterns. A row without patterns always holds, as for `allOf`. -/
def anyOf : List Pattern → Pattern
  | [] => always
  | [child] => child
  | children => any children

def repeated : Nat → Pattern → Pattern
  | 0, _ => always
  | 1, child => child
  | count, child => times count child

def nodeBytes : Nat := 32

/-- `count` of the patterns at once, if there are as many: one of all selections of that size, which
are counted before they are listed. -/
def atLeast (count : Nat) (children : List Pattern) : Except Fault (Option Pattern) :=
  if count = 0 then .ok (some always)
  else if children.length < count then .ok none
  else if count = 1 then .ok (some (anyOf children))
  else if count = children.length then .ok (some (allOf children))
  else do
    let branches ← Selection.count children.length count
    Selection.reserve branches nodeBytes
    return some (any ((Selection.indices children.length count).map
      fun indices => all (indices.filterMap (children[·]?))))

mutual

/-- The names that a pattern refers to, as often as it does. -/
def references : Pattern → List String
  | always => []
  | card _ => []
  | named name => [name]
  | all children => rowReferences children
  | any children => rowReferences children
  | times _ child => references child
  | absent child => references child

def rowReferences : List Pattern → List String
  | [] => []
  | child :: children => references child ++ rowReferences children

end

mutual

def cards : Pattern → List Card
  | always => []
  | card name => [name]
  | named _ => []
  | all children => rowCards children
  | any children => rowCards children
  | times _ child => cards child
  | absent child => cards child

def rowCards : List Pattern → List Card
  | [] => []
  | child :: children => cards child ++ rowCards children

end

theorem rowReferences_eq_flatMap (children : List Pattern) :
    rowReferences children = children.flatMap references := by
  induction children with
  | nil => simp [rowReferences]
  | cons child children ih => simp [rowReferences, ih]

theorem rowCards_eq_flatMap (children : List Pattern) :
    rowCards children = children.flatMap cards := by
  induction children with
  | nil => simp [rowCards]
  | cons child children ih => simp [rowCards, ih]

mutual

def render : Pattern → List Char
  | always => "$noop".toList
  | card name => '[' :: name.toList ++ [']']
  | named name => '<' :: name.toList ++ ['>']
  | all children => '(' :: renderRow " && ".toList children ++ [')']
  | any children => '(' :: renderRow " || ".toList children ++ [')']
  | times count child => Text.numeral count ++ ' ' :: render child
  | absent child => "@not(".toList ++ render child ++ [')']

def renderRow (separator : List Char) : List Pattern → List Char
  | [] => []
  | child :: children => render child ++ renderRest separator children

def renderRest (separator : List Char) : List Pattern → List Char
  | [] => []
  | child :: children => separator ++ render child ++ renderRest separator children

end

example : (any [times 2 (card "forest"), all [named "ramp", absent (card "swamp")]]).render =
    "(2 [forest] || (<ramp> && @not([swamp])))".toList := by decide +kernel

end Pattern

end OpeningHand
