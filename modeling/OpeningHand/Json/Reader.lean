import OpeningHand.Json

/-!
# Reading JSON

A text is cut into tokens from left to right, and the tokens are put together with a row of the arrays
and objects that are still open, the innermost one first. Both steps go through their input once.
-/

namespace OpeningHand.Json

/-- A piece of a JSON text: a bracket or another mark, what stands between quotation marks, or a name or
number. -/
inductive Token where
  | mark (c : Char)
  | quoted (text : String)
  | word (letters : List Char)
deriving DecidableEq, Repr

/-- Where the scan is. The characters read in a token are kept last character first. Of an escaped
character that takes two code units, `first` is the first half; the digits of a code unit read so far
make up `value`. -/
inductive ScanState where
  | between
  | inWord (letters : List Char)
  | inText (letters : List Char)
  | afterBackslash (letters : List Char)
  | inCode (letters : List Char) (first : Option Nat) (digits value : Nat)
  | afterHalf (letters : List Char) (first : Nat)
  | afterHalfBackslash (letters : List Char) (first : Nat)
deriving DecidableEq, Repr

def isGap (c : Char) : Bool :=
  c == ' ' || c == '\t' || c == '\n' || c == '\r'

def isMark (c : Char) : Bool :=
  c == '[' || c == ']' || c == '\x7b' || c == '\x7d' || c == ',' || c == ':'

def unescape? : Char → Option Char
  | '"' => some '"'
  | '\\' => some '\\'
  | '/' => some '/'
  | 'b' => some '\x08'
  | 'f' => some '\x0c'
  | 'n' => some '\n'
  | 'r' => some '\r'
  | 't' => some '\t'
  | _ => none

def hexValue? (c : Char) : Option Nat :=
  if c.isDigit then some (c.toNat - '0'.toNat)
  else if 'a' ≤ c ∧ c ≤ 'f' then some (c.toNat - 'a'.toNat + 10)
  else if 'A' ≤ c ∧ c ≤ 'F' then some (c.toNat - 'A'.toNat + 10)
  else none

/-- The state behind a code unit: the first half of a pair needs a second one, and the second half a
first one. -/
def closeCode (letters : List Char) (first : Option Nat) (value : Nat) : Option ScanState :=
  match first with
  | none =>
    if 0xD800 ≤ value ∧ value < 0xDC00 then some (.afterHalf letters value)
    else if 0xDC00 ≤ value ∧ value < 0xE000 then none
    else some (.inText (Char.ofNat value :: letters))
  | some half =>
    if 0xDC00 ≤ value ∧ value < 0xE000 then
      some (.inText (Char.ofNat (0x10000 + (half - 0xD800) * 0x400 + (value - 0xDC00)) :: letters))
    else none

def scanBetween (tokens : List Token) (c : Char) : List Token × ScanState :=
  if isGap c then (tokens, .between)
  else if isMark c then (.mark c :: tokens, .between)
  else if c = '"' then (tokens, .inText [])
  else (tokens, .inWord [c])

/-- The tokens read, last one first, and the state, after one more character. -/
def scanStep (tokens : List Token) (c : Char) : ScanState → Option (List Token × ScanState)
  | .between => some (scanBetween tokens c)
  | .inWord letters =>
    if isGap c || isMark c || c == '"' then some (scanBetween (.word letters.reverse :: tokens) c)
    else some (tokens, .inWord (c :: letters))
  | .inText letters =>
    if c = '"' then some (.quoted (String.ofList letters.reverse) :: tokens, .between)
    else if c = '\\' then some (tokens, .afterBackslash letters)
    else if c.toNat < 0x20 then none
    else some (tokens, .inText (c :: letters))
  | .afterBackslash letters =>
    if c = 'u' then some (tokens, .inCode letters none 0 0)
    else (unescape? c).map fun d => (tokens, .inText (d :: letters))
  | .inCode letters first digits value =>
    (hexValue? c).bind fun digit =>
      if digits < 3 then some (tokens, .inCode letters first (digits + 1) (16 * value + digit))
      else (closeCode letters first (16 * value + digit)).map fun state => (tokens, state)
  | .afterHalf letters first =>
    if c = '\\' then some (tokens, .afterHalfBackslash letters first) else none
  | .afterHalfBackslash letters first =>
    if c = 'u' then some (tokens, .inCode letters (some first) 0 0) else none

def scan (tokens : List Token) (state : ScanState) : List Char → Option (List Token)
  | [] =>
    match state with
    | .between => some tokens.reverse
    | .inWord letters => some (.word letters.reverse :: tokens).reverse
    | _ => none
  | c :: text =>
    match scanStep tokens c state with
    | some (tokens, state) => scan tokens state text
    | none => none

def exponent? : List Char → Option Int
  | [] => some 0
  | mark :: text =>
    let (sign, digits) : Int × List Char :=
      match text with
      | '-' :: digits => (-1, digits)
      | '+' :: digits => (1, digits)
      | digits => (1, digits)
    if (mark == 'e' || mark == 'E') && !digits.isEmpty && digits.all Char.isDigit then
      some (sign * Text.digitsValue digits)
    else none

/-- The number of an unsigned numeral. A negative zero is not a whole number, since whole numbers have
no sign at zero. -/
def number? (isNegative : Bool) (text : List Char) : Option Json :=
  let sign : Int := if isNegative then -1 else 1
  let whole := text.takeWhile Char.isDigit
  let rest := text.dropWhile Char.isDigit
  if whole.isEmpty || (whole.head? == some '0' && whole.length != 1) then none
  else if rest.isEmpty && !(isNegative && whole == ['0']) then
    some (.whole (sign * Text.digitsValue whole))
  else
    match rest with
    | '.' :: rest =>
      let places := rest.takeWhile Char.isDigit
      if places.isEmpty then none
      else (exponent? (rest.dropWhile Char.isDigit)).map fun exponent =>
        .scientific (sign * Text.digitsValue (whole ++ places)) (exponent - places.length)
    | rest => (exponent? rest).map fun exponent =>
      .scientific (sign * Text.digitsValue whole) exponent

def ofWord? (letters : List Char) : Option Json :=
  if letters = "null".toList then some null
  else if letters = "true".toList then some (bool true)
  else if letters = "false".toList then some (bool false)
  else
    match letters with
    | '-' :: text => number? true text
    | text => number? false text

/-- An array or an object that is still open, with what it holds so far, the last one first. An object is
between two fields, or behind the name of one. -/
inductive Frame where
  | items (read : List Json)
  | fields (read : List (String × Json))
  | field (read : List (String × Json)) (name : String)

inductive Expectation where
  | value
  | itemOrEnd
  | name
  | nameOrEnd
  | colon (name : String)
  | next (value : Json)

/-- The open arrays and objects, and what may come next, after one more token. -/
def assembleStep (frames : List Frame) (token : Token) :
    Expectation → Option (List Frame × Expectation)
  | .value => openValue frames
  | .itemOrEnd =>
    match token, frames with
    | .mark ']', .items [] :: frames => some (frames, .next (.array []))
    | _, frames => openValue frames
  | .name => openField frames
  | .nameOrEnd =>
    match token, frames with
    | .mark '\x7d', .fields [] :: frames => some (frames, .next (.object []))
    | _, frames => openField frames
  | .colon name =>
    match token, frames with
    | .mark ':', .fields read :: frames => some (.field read name :: frames, .value)
    | _, _ => none
  | .next value =>
    match token, frames with
    | .mark ',', .items read :: frames => some (.items (value :: read) :: frames, .value)
    | .mark ']', .items read :: frames => some (frames, .next (.array (value :: read).reverse))
    | .mark ',', .field read name :: frames =>
      some (.fields ((name, value) :: read) :: frames, .name)
    | .mark '\x7d', .field read name :: frames =>
      some (frames, .next (.object ((name, value) :: read).reverse))
    | _, _ => none
where
  openValue (frames : List Frame) : Option (List Frame × Expectation) :=
    match token with
    | .mark '[' => some (.items [] :: frames, .itemOrEnd)
    | .mark '\x7b' => some (.fields [] :: frames, .nameOrEnd)
    | .mark _ => none
    | .quoted text => some (frames, .next (.string text))
    | .word letters => (ofWord? letters).map fun value => (frames, .next value)
  openField (frames : List Frame) : Option (List Frame × Expectation) :=
    match token with
    | .quoted name => some (frames, .colon name)
    | _ => none

def assemble (frames : List Frame) (expectation : Expectation) : List Token → Option Json
  | [] =>
    match frames, expectation with
    | [], .next value => some value
    | _, _ => none
  | token :: tokens =>
    match assembleStep frames token expectation with
    | some (frames, expectation) => assemble frames expectation tokens
    | none => none

def read? (text : List Char) : Option Json := do
  let tokens ← scan [] .between text
  assemble [] .value tokens

example : (read? "[1, -0, 2.50e1]".toList).map compact = some "[1,0e0,250e-1]".toList := by
  decide +kernel

end OpeningHand.Json
