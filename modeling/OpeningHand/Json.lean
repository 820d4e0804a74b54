import OpeningHand.Text.Numeral

/-!
# JSON values

Settings are read from JSON values and results are written as JSON texts, either without any blanks or
spread over lines with two spaces for each level.
-/

namespace OpeningHand

/-- A JSON value. Numbers written with digits alone are kept apart from the others, even from those of
the same size; one of the others is `digits * 10 ^ exponent`. -/
inductive Json where
  | null
  | bool (value : Bool)
  | whole (value : Int)
  | scientific (digits exponent : Int)
  | string (value : String)
  | array (items : List Json)
  | object (fields : List (String × Json))
deriving Inhabited, Repr

namespace Json

def hexPair (n : Nat) : List Char :=
  [Nat.digitChar (n / 16), Nat.digitChar (n % 16)]

def escape (c : Char) : List Char :=
  if c = '"' then ['\\', '"']
  else if c = '\\' then ['\\', '\\']
  else if c = '\x08' then ['\\', 'b']
  else if c = '\x0c' then ['\\', 'f']
  else if c = '\n' then ['\\', 'n']
  else if c = '\r' then ['\\', 'r']
  else if c = '\t' then ['\\', 't']
  else if c.toNat < 0x20 then "\\u00".toList ++ hexPair c.toNat
  else [c]

def quote (text : String) : List Char :=
  '"' :: text.toList.flatMap escape ++ ['"']

def wholeText : Int → List Char
  | .ofNat n => Text.numeral n
  | .negSucc n => '-' :: Text.numeral (n + 1)

def scientificText (digits exponent : Int) : List Char :=
  wholeText digits ++ 'e' :: wholeText exponent

mutual

def compact : Json → List Char
  | null => "null".toList
  | bool value => (if value then "true" else "false").toList
  | whole value => wholeText value
  | scientific digits exponent => scientificText digits exponent
  | string value => quote value
  | array items => '[' :: compactItems items ++ [']']
  | object fields => '\x7b' :: compactFields fields ++ ['\x7d']

def compactItems : List Json → List Char
  | [] => []
  | [item] => compact item
  | item :: items => compact item ++ ',' :: compactItems items

def compactFields : List (String × Json) → List Char
  | [] => []
  | [(name, value)] => quote name ++ ':' :: compact value
  | (name, value) :: fields => quote name ++ ':' :: compact value ++ ',' :: compactFields fields

end

def newLine (level : Nat) : List Char :=
  '\n' :: List.replicate (2 * level) ' '

mutual

/-- The text of a value at some level, with a line for each item and each field. -/
def pretty (level : Nat) : Json → List Char
  | null => "null".toList
  | bool value => (if value then "true" else "false").toList
  | whole value => wholeText value
  | scientific digits exponent => scientificText digits exponent
  | string value => quote value
  | array [] => "[]".toList
  | array items => '[' :: prettyItems (level + 1) items ++ newLine level ++ [']']
  | object [] => ['\x7b', '\x7d']
  | object fields => '\x7b' :: prettyFields (level + 1) fields ++ newLine level ++ ['\x7d']

def prettyItems (level : Nat) : List Json → List Char
  | [] => []
  | [item] => newLine level ++ pretty level item
  | item :: items => newLine level ++ pretty level item ++ ',' :: prettyItems level items

def prettyFields (level : Nat) : List (String × Json) → List Char
  | [] => []
  | [(name, value)] => newLine level ++ quote name ++ ": ".toList ++ pretty level value
  | (name, value) :: fields =>
    newLine level ++ quote name ++ ": ".toList ++ pretty level value ++ ',' ::
      prettyFields level fields

end

def count? : Json → Option Nat
  | whole (.ofNat n) => if n < countLimit then some n else none
  | _ => none

def bool? : Json → Option Bool
  | bool value => some value
  | _ => none

def string? : Json → Option String
  | string value => some value
  | _ => none

/-- The row that an array is, if each of its items can be read. -/
def row? {α : Type} (read : Json → Option α) : Json → Option (List α)
  | array items => items.mapM read
  | _ => none

/-- What a value has for each of the names: the fields of an object, of which others are ignored, or
the items of an array in their order. An array may be shorter but not longer than the names. -/
def fields? (names : List String) : Json → Option (List (Option Json))
  | object fields => some (names.map fun name => List.lookup name fields)
  | array items =>
    if names.length < items.length then none
    else some ((List.range names.length).map (items[·]?))
  | _ => none

def counts (row : List Nat) : Json :=
  array (row.map fun n => whole (Int.ofNat n))

end Json

end OpeningHand
