/-!
# A place in a text

A cursor stands at a character of a text, or behind its end. It keeps what a report about this place
needs: the number of line breaks before it, and the part of its line up to and including the current
character.
-/

namespace OpeningHand

/-- Whether a character ends a line, or belongs to the end of one. -/
def isLineEnd (c : Char) : Bool :=
  c == '\n' || c == '\r'

/-- A place in a text. The rest begins with the current character; `line` is the number of line feeds
passed, and `index` that of the character in its line, `-1` before the first one. What was seen of the
line, up to the current character, is kept last character first. Line ends do not count. -/
structure Cursor where
  rest : List Char
  line : Nat
  index : Int
  seen : List Char
deriving DecidableEq, Repr

/-- A report on what is wrong at a place of a text. The column is the index of the offending character in
the text of its line. -/
structure Diagnostic (ε : Type) where
  cause : ε
  line : Nat
  column : Nat
  text : List Char
deriving DecidableEq, Repr

namespace Diagnostic

variable {ε : Type}

def atLine (diagnostic : Diagnostic ε) (line : Nat) : Diagnostic ε :=
  { diagnostic with line }

/-- The message, the line, and a caret below the offending character. -/
def render (message : ε → String) (diagnostic : Diagnostic ε) : String :=
  message diagnostic.cause ++ " at line " ++ toString diagnostic.line ++ ":\n" ++
    String.ofList diagnostic.text ++ "\n" ++
    String.ofList (List.replicate diagnostic.column '-') ++ "^"

end Diagnostic

namespace Cursor

/-- The current character, unless it belongs to the end of a line. -/
def shown (cursor : Cursor) : List Char :=
  match cursor.rest with
  | c :: _ => if isLineEnd c then [] else [c]
  | [] => []

/-- The cursor once the current character is seen as well. -/
def see (cursor : Cursor) : Cursor :=
  { cursor with
    index := cursor.index + cursor.shown.length
    seen := cursor.shown ++ cursor.seen }

def ofText (text : List Char) : Cursor :=
  see ⟨text, 0, -1, []⟩

def current (cursor : Cursor) : Option Char :=
  cursor.rest.head?

def atEnd (cursor : Cursor) : Bool :=
  cursor.rest.isEmpty

/-- The index of the current character within its line; at the start of a line it is 0. -/
def column (cursor : Cursor) : Nat :=
  cursor.index.toNat

def advance (cursor : Cursor) : Cursor :=
  match cursor.rest with
  | [] => cursor
  | c :: rest =>
    if c = '\n' then see ⟨rest, cursor.line + 1, -1, []⟩
    else see { cursor with rest }

def advanceBy (cursor : Cursor) : Nat → Cursor
  | 0 => cursor
  | count + 1 => cursor.advance.advanceBy count

def readWhile (cursor : Cursor) (accept : Char → Bool) : List Char × Cursor :=
  let text := cursor.rest.takeWhile accept
  (text, cursor.advanceBy text.length)

def readUntil (cursor : Cursor) (stop : Char → Bool) : List Char × Cursor :=
  cursor.readWhile fun c => !stop c

def skip (cursor : Cursor) (accept : Char → Bool) : Cursor :=
  (cursor.readWhile accept).2

/-- Skip the characters that satisfy a test; then move on if the expected one is next. -/
def consume (cursor : Cursor) (expected : Char) (accept : Char → Bool) : Bool × Cursor :=
  let cursor := cursor.skip accept
  if cursor.current = some expected then (true, cursor.advance) else (false, cursor)

def toLineEnd (cursor : Cursor) : Cursor :=
  (cursor.readUntil isLineEnd).2

def diagnostic {ε : Type} (cursor : Cursor) (cause : ε) : Diagnostic ε :=
  ⟨cause, cursor.line, cursor.column, cursor.toLineEnd.seen.reverse⟩

@[simp] theorem rest_see (cursor : Cursor) : cursor.see.rest = cursor.rest := rfl

@[simp] theorem rest_ofText (text : List Char) : (ofText text).rest = text := rfl

/-- One character of the text is left behind. -/
@[simp] theorem rest_advance (cursor : Cursor) : cursor.advance.rest = cursor.rest.tail := by
  unfold advance
  split
  · next h => simp [h]
  · next h => split <;> simp [h]

@[simp] theorem rest_advanceBy (cursor : Cursor) (count : Nat) :
    (cursor.advanceBy count).rest = cursor.rest.drop count := by
  induction count generalizing cursor with
  | zero => rfl
  | succ count ih => simp [advanceBy, ih]

@[simp] theorem readWhile_fst (cursor : Cursor) (accept : Char → Bool) :
    (cursor.readWhile accept).1 = cursor.rest.takeWhile accept := rfl

/-- Reading loses nothing: what was not read is still there. -/
@[simp] theorem rest_readWhile (cursor : Cursor) (accept : Char → Bool) :
    (cursor.readWhile accept).2.rest = cursor.rest.dropWhile accept := by
  simp only [readWhile, rest_advanceBy]
  induction cursor.rest with
  | nil => rfl
  | cons c rest ih => cases h : accept c <;> simp [h, ih]

@[simp] theorem rest_skip (cursor : Cursor) (accept : Char → Bool) :
    (cursor.skip accept).rest = cursor.rest.dropWhile accept :=
  rest_readWhile cursor accept

@[simp] theorem rest_readUntil (cursor : Cursor) (stop : Char → Bool) :
    (cursor.readUntil stop).2.rest = cursor.rest.dropWhile fun c => !stop c :=
  rest_readWhile cursor _

theorem length_rest_readWhile_le (cursor : Cursor) (accept : Char → Bool) :
    (cursor.readWhile accept).2.rest.length ≤ cursor.rest.length := by
  simpa using (List.dropWhile_sublist accept).length_le

theorem length_rest_readUntil_le (cursor : Cursor) (stop : Char → Bool) :
    (cursor.readUntil stop).2.rest.length ≤ cursor.rest.length :=
  length_rest_readWhile_le cursor _

theorem length_rest_skip_le (cursor : Cursor) (accept : Char → Bool) :
    (cursor.skip accept).rest.length ≤ cursor.rest.length :=
  length_rest_readWhile_le cursor accept

theorem length_rest_consume_le (cursor : Cursor) (expected : Char) (accept : Char → Bool) :
    (cursor.consume expected accept).2.rest.length ≤ cursor.rest.length := by
  have h := length_rest_skip_le cursor accept
  simp only [consume]
  split
  · simp only [rest_advance, List.length_tail]; omega
  · exact h

/-- Consuming the expected character makes the rest shorter. -/
theorem length_rest_consume_lt {cursor : Cursor} {expected : Char} {accept : Char → Bool}
    (h : (cursor.consume expected accept).1 = true) :
    (cursor.consume expected accept).2.rest.length < cursor.rest.length := by
  have hle := length_rest_skip_le cursor accept
  simp only [consume] at h ⊢
  split at h
  · next hc =>
    rw [if_pos hc]
    simp only [rest_advance, List.length_tail]
    cases hr : (cursor.skip accept).rest with
    | nil => rw [current, hr] at hc; cases hc
    | cons c rest => rw [hr] at hle; simp at hle ⊢; omega
  · simp at h

end Cursor

end OpeningHand
