import OpeningHand.Declaration
import OpeningHand.Grammar.Flaw

/-!
# Reading declarations

    declaration := '<' name '>' ':' compound  |  '<<' name '>' '>' ':' compound
    compound    := pattern  |  pattern ('&' pattern)+  |  pattern ('|' pattern)+
    pattern     := digits? ('[' card ']' | '<' name '>' | '(' compound ')' | '@' function)
    function    := any row  |  all row  |  not row  |  xof '(' count ')' row  |  atleast '(' count ')' row
    row         := '(' pattern* ')'

Spaces and tabs may stand between the parts. A connective may be doubled. Names, counts of functions
and the names of functions run up to the next bracket and are trimmed.

Every reader says, with its result, that less text is left than before, and this is why reading ends.
-/

namespace OpeningHand

def isSpace (c : Char) : Bool :=
  c == ' ' || c == '\t'

def isBracket (c : Char) : Bool :=
  c == '[' || c == ']' || c == '<' || c == '>' || c == '(' || c == ')'

/-- A value that was read, and the cursor behind it, from which less than `bound` characters are
left. -/
structure Ahead (bound : Nat) (α : Type) where
  value : α
  next : Cursor
  shorter : next.rest.length < bound

inductive Connective where
  | conjunction
  | disjunction
deriving DecidableEq, Repr

namespace Connective

def symbol : Connective → Char
  | conjunction => '&'
  | disjunction => '|'

def ofSymbol? : Char → Option Connective
  | '&' => some conjunction
  | '|' => some disjunction
  | _ => none

def join : Connective → List Pattern → Pattern
  | conjunction => Pattern.allOf
  | disjunction => Pattern.anyOf

end Connective

/-- What the character at the beginning of a pattern announces. -/
inductive Opening where
  | card
  | name
  | group
  | function
deriving DecidableEq, Repr

def Opening.ofSymbol? : Char → Option Opening
  | '[' => some card
  | '<' => some name
  | '(' => some group
  | '@' => some function
  | _ => none

inductive Combinator where
  | any
  | all
  | atLeast
  | absent
deriving DecidableEq, Repr

def Combinator.ofName? : String → Option Combinator
  | "any" => some any
  | "all" => some all
  | "xof" => some atLeast
  | "atleast" => some atLeast
  | "not" => some absent
  | _ => none

namespace Cursor

def expect (cursor : Cursor) (expected : Char) (flaw : Flaw) :
    Except ReadFailure (Ahead cursor.rest.length Unit) :=
  if h : (cursor.consume expected isSpace).1 then
    .ok ⟨(), (cursor.consume expected isSpace).2, length_rest_consume_lt h⟩
  else (cursor.consume expected isSpace).2.refuse flaw

def readName (cursor : Cursor) : Ahead (cursor.rest.length + 1) (List Char) :=
  let name := cursor.readUntil isBracket
  ⟨name.1, name.2, Nat.lt_succ_of_le (cursor.length_rest_readUntil_le isBracket)⟩

def readClosed (cursor : Cursor) (closing : Char) (empty unclosed : Flaw) :
    Except ReadFailure (Ahead cursor.rest.length (List Char)) :=
  let name := cursor.readName
  if (Text.trim name.value).isEmpty then name.next.refuse empty
  else do
    let closed ← name.next.expect closing unclosed
    return ⟨name.value, closed.next, by have := name.shorter; have := closed.shorter; omega⟩

/-- The number in front of a pattern, which is one if there is none. -/
def readCount (cursor : Cursor) : Except ReadFailure (Ahead (cursor.rest.length + 1) Nat) :=
  let digits := cursor.readWhile Char.isDigit
  have hdigits : digits.2.rest.length < cursor.rest.length + 1 :=
    Nat.lt_succ_of_le (cursor.length_rest_readWhile_le Char.isDigit)
  if digits.1.isEmpty then .ok ⟨1, digits.2, hdigits⟩
  else
    match Text.readNumeral? digits.1 with
    | some count => .ok ⟨count, digits.2, hdigits⟩
    | none => digits.2.refuse .countTooLarge

def readThreshold (cursor : Cursor) : Except ReadFailure (Ahead cursor.rest.length Nat) := do
  let opened ← cursor.expect '(' .argumentOpening
  let text := opened.next.readName
  let closed ← text.next.expect ')' .argumentClosing
  let argument := Text.trim text.value
  if argument.head? = some '-' then closed.next.refuse .argumentNegative
  else
    match Text.readSignedNumeral? argument with
    | some count =>
      return ⟨count, closed.next, by
        have := opened.shorter; have := text.shorter; have := closed.shorter; omega⟩
    | none => closed.next.refuse .argumentMalformed

def readOpening (cursor : Cursor) : Except ReadFailure (Ahead cursor.rest.length Opening) :=
  match h : (cursor.skip isSpace).rest with
  | [] => (cursor.skip isSpace).refuse .patternOpening
  | c :: rest =>
    match Opening.ofSymbol? c with
    | some opening => .ok ⟨opening, (cursor.skip isSpace).advance, by
        have := cursor.length_rest_skip_le isSpace
        rw [h] at this
        rw [rest_advance, h]
        exact this⟩
    | none => (cursor.skip isSpace).refuse .patternOpening

def readCombinator (cursor : Cursor) :
    Except ReadFailure (Ahead (cursor.rest.length + 1) Combinator) :=
  let word := cursor.readName
  let name := String.ofList (Text.trim word.value)
  if name.isEmpty then word.next.refuse .functionEmpty
  else
    match Combinator.ofName? name with
    | some combinator => .ok ⟨combinator, word.next, word.shorter⟩
    | none => word.next.refuse (.unknownFunction name)

/-- The cursor behind a connective, which spaces may precede and which may be doubled. -/
def expectConnective (cursor : Cursor) (connective : Connective) :
    Except ReadFailure (Ahead cursor.rest.length Unit) := do
  let first ← cursor.expect connective.symbol (.sameConnective connective.symbol)
  let second := first.next.consume connective.symbol fun _ => false
  have hsecond : second.2.rest.length ≤ first.next.rest.length :=
    first.next.length_rest_consume_le connective.symbol fun _ => false
  return ⟨(), second.2, Nat.lt_of_le_of_lt hsecond first.shorter⟩

def closeCriterion (cursor : Cursor) (isCriterion : Bool) : Except ReadFailure Cursor :=
  if isCriterion then do
    let closed ← cursor.expect '>' .criterionClosing
    return closed.next
  else .ok cursor

end Cursor

def Cursor.atCompoundEnd (cursor : Cursor) : Bool :=
  match cursor.current with
  | none => true
  | some c => c == ')'

open Cursor

mutual

def readAtom (cursor : Cursor) : Except ReadFailure (Ahead cursor.rest.length Pattern) := do
  let opening ← cursor.readOpening
  have hopening := opening.shorter
  match opening.value with
  | .card =>
    let name ← opening.next.readClosed ']' .cardEmpty .cardClosing
    return ⟨.ofCardName name.value, name.next, by have := name.shorter; omega⟩
  | .name =>
    let name ← opening.next.readClosed '>' .referenceEmpty .referenceClosing
    return ⟨.ofName name.value, name.next, by have := name.shorter; omega⟩
  | .group =>
    let compound ← readCompound opening.next
    let closed ← compound.next.expect ')' .groupClosing
    return ⟨compound.value, closed.next, by
      have := compound.shorter; have := closed.shorter; omega⟩
  | .function =>
    let function ← readFunction opening.next
    return ⟨function.value, function.next, by have := function.shorter; omega⟩
termination_by 4 * cursor.rest.length
decreasing_by all_goals omega

def readPattern (cursor : Cursor) : Except ReadFailure (Ahead cursor.rest.length Pattern) := do
  have hstart := cursor.length_rest_skip_le isSpace
  let count ← (cursor.skip isSpace).readCount
  have hcount := count.shorter
  let atom ← readAtom count.next
  have hnext := atom.next.length_rest_skip_le isSpace
  return ⟨.repeated count.value atom.value, atom.next.skip isSpace, by
    have := atom.shorter; omega⟩
termination_by 4 * cursor.rest.length + 1
decreasing_by all_goals omega

def readCompound (cursor : Cursor) : Except ReadFailure (Ahead cursor.rest.length Pattern) :=
  if cursor.atCompoundEnd then cursor.refuse .compoundEmpty
  else do
    let first ← readPattern cursor
    have hfirst := first.shorter
    if first.next.atCompoundEnd then return first
    else
      match first.next.current.bind Connective.ofSymbol? with
      | none => first.next.refuse .connective
      | some connective => do
        let others ← readOperands connective first.next
        return ⟨connective.join (first.value :: others.value), others.next, by
          have := others.shorter; omega⟩
termination_by 4 * cursor.rest.length + 2
decreasing_by all_goals omega

/-- The patterns behind the first one of a compound, each with the connective in front of it. -/
def readOperands (connective : Connective) (cursor : Cursor) :
    Except ReadFailure (Ahead (cursor.rest.length + 1) (List Pattern)) :=
  if cursor.atCompoundEnd then .ok ⟨[], cursor, by omega⟩
  else do
    let start ← cursor.expectConnective connective
    have hstart := start.shorter
    let first ← readPattern start.next
    have hfirst := first.shorter
    let others ← readOperands connective first.next
    return ⟨first.value :: others.value, others.next, by have := others.shorter; omega⟩
termination_by 4 * cursor.rest.length
decreasing_by all_goals omega

def readFunction (cursor : Cursor) : Except ReadFailure (Ahead cursor.rest.length Pattern) := do
  let combinator ← cursor.readCombinator
  have hcombinator := Nat.le_of_lt_succ combinator.shorter
  match combinator.value with
  | .any =>
    let row ← readRow combinator.next
    if row.value.isEmpty then row.next.refuse .rowEmpty
    else return ⟨.anyOf row.value, row.next, Nat.lt_of_lt_of_le row.shorter hcombinator⟩
  | .all =>
    let row ← readRow combinator.next
    if row.value.isEmpty then row.next.refuse .rowEmpty
    else return ⟨.allOf row.value, row.next, Nat.lt_of_lt_of_le row.shorter hcombinator⟩
  | .atLeast =>
    let threshold ← combinator.next.readThreshold
    have hthreshold := Nat.lt_of_lt_of_le threshold.shorter hcombinator
    let row ← readRow threshold.next
    match Pattern.atLeast threshold.value row.value with
    | .error fault => .error (.fault fault)
    | .ok none => row.next.refuse .argumentTooLarge
    | .ok (some pattern) => return ⟨pattern, row.next, Nat.lt_trans row.shorter hthreshold⟩
  | .absent =>
    let row ← readRow combinator.next
    match row.value with
    | [child] => return ⟨.absent child, row.next, Nat.lt_of_lt_of_le row.shorter hcombinator⟩
    | _ => row.next.refuse .notSingle
termination_by 4 * cursor.rest.length + 1
decreasing_by all_goals omega

def readRow (cursor : Cursor) : Except ReadFailure (Ahead cursor.rest.length (List Pattern)) := do
  let opened ← cursor.expect '(' .rowOpening
  have hopened := opened.shorter
  let items ← readItems opened.next
  return ⟨items.value, items.next, by have := items.shorter; omega⟩
termination_by 4 * cursor.rest.length
decreasing_by all_goals omega

def readItems (cursor : Cursor) : Except ReadFailure (Ahead cursor.rest.length (List Pattern)) :=
  if h : (cursor.consume ')' isSpace).1 then
    .ok ⟨[], (cursor.consume ')' isSpace).2, length_rest_consume_lt h⟩
  else if (cursor.skip isSpace).atEnd then (cursor.skip isSpace).refuse .rowClosing
  else do
    have hstart := cursor.length_rest_skip_le isSpace
    let first ← readPattern (cursor.skip isSpace)
    have hfirst := first.shorter
    let others ← readItems first.next
    return ⟨first.value :: others.value, others.next, by have := others.shorter; omega⟩
termination_by 4 * cursor.rest.length + 2
decreasing_by all_goals omega

end

def Declaration.read (line : List Char) : Except ReadFailure Declaration := do
  let opened ← (Cursor.ofText line).expect '<' .nameOpening
  let (isCriterion, start) := opened.next.consume '<' fun _ => false
  let word := start.readName
  let name := String.ofList (Text.trim word.value)
  if name.isEmpty then word.next.refuse .nameEmpty
  else
    let closed ← word.next.expect '>' .nameClosing
    let closed ← closed.next.closeCriterion isCriterion
    let colon ← closed.expect ':' .colon
    let compound ← readCompound colon.next
    let rest := compound.next.skip isSpace
    if rest.atEnd then return ⟨name, isCriterion, compound.value⟩
    else rest.refuse .trailing

end OpeningHand
