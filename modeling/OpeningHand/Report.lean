import OpeningHand.Simulation.Results
import OpeningHand.Text.Blank

/-!
# Reports

Results are shown as a table: a line for each criterion and one for the hands without a criterion, and
a column for each deck. Labels stand on the left of their columns and numbers on the right; two spaces
separate the columns, and a line of dashes as long as they are wide follows the heading.
-/

namespace OpeningHand

/-- A share of all hands in percent, with one decimal. -/
def percentage (count iterations : Nat) : String :=
  if iterations = 0 then "-"
  else
    let tenths := (((Binary64.ofNat count).mulNat 100).div (Binary64.ofNat iterations)).tenths
    toString (tenths / 10) ++ "." ++ toString (tenths % 10) ++ "%"

structure Table where
  heading : List String
  rows : List (List String)
deriving DecidableEq, Repr

namespace Table

def labelColumns : Nat := 2

/-- A text filled up with spaces: a label behind it, a number in front of it. -/
def pad (isLabel : Bool) (width : Nat) (text : String) : List Char :=
  let spaces := List.replicate (width - text.length) ' '
  if isLabel then text.toList ++ spaces else spaces ++ text.toList

def widen : List Nat → List String → List Nat
  | width :: widths, text :: texts => max width text.length :: widen widths texts
  | widths, _ => widths

def widths (table : Table) : List Nat :=
  table.rows.foldl widen (table.heading.map String.length)

def cells (widths : List Nat) (row : List String) : List (List Char) :=
  (row.zip widths).mapIdx fun i (text, width) => pad (i < labelColumns) width text

/-- A row as a line, without blanks at its end. -/
def renderRow (widths : List Nat) (row : List String) : List Char :=
  Text.trimEnd ([' ', ' '].intercalate (cells widths row)) ++ ['\n']

def ruleWidth (widths : List Nat) : Nat :=
  widths.foldr (· + ·) 0 + 2 * (widths.length - 1)

/-- The largest width of a line. -/
def maxWidth : Nat := 65535

def rule (widths : List Nat) : List Char :=
  List.replicate (ruleWidth widths) '-' ++ ['\n']

/-- The whole table, if it is not too wide. -/
def render (table : Table) : Except Fault (List Char) :=
  let widths := table.widths
  if maxWidth < ruleWidth widths then .error .widthOverflow
  else .ok (renderRow widths table.heading ++ rule widths ++
    table.rows.flatMap (renderRow widths))

end Table

namespace Results

def cell (results : Results) (count : Nat) : String :=
  percentage count results.iterations ++ " (" ++ toString count ++ "/" ++
    toString results.iterations ++ ")"

/-- The heading of the column of a deck. The first deck is the main one, the others are alternatives
to it. -/
def deckHeading (deck size : Nat) : String :=
  (if deck = 0 then "main" else "alt." ++ toString deck) ++ " (" ++ toString size ++ " cards)"

def criterionRow (results : Results) (name : String) (criterion : Nat) :
    Except Fault (List String) := do
  let counts ← (List.range results.deckCount).mapM (results.count criterion)
  return toString (criterion + 1) :: name :: counts.map results.cell

def noMatchRow (results : Results) : Except Fault (List String) := do
  let counts ← (List.range results.deckCount).mapM results.noMatch
  return "---" :: "no match" :: counts.map results.cell

def table (results : Results) : Except Fault Table := do
  let rows ← results.criteria.zipIdx.mapM fun (name, criterion) =>
    results.criterionRow name criterion
  let last ← results.noMatchRow
  return {
    heading := "#" :: "rules" :: results.deckSizes.mapIdx deckHeading
    rows := rows ++ [last] }

end Results

end OpeningHand
