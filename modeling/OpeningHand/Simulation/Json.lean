import OpeningHand.Json
import OpeningHand.Simulation.Results
import OpeningHand.Simulation.Settings

/-!
# Settings and results in JSON

Settings may leave out anything that has a default. Results must be complete.
-/

namespace OpeningHand

/-- A seed, or null for none. -/
def Json.seed? : Json → Option (Option UInt64)
  | null => some none
  | value => value.count?.map fun n => some n.toUInt64

def Json.orDefault {α : Type} (field : Option Json) (read : Json → Option α) (default : α) :
    Option α :=
  match field with
  | some value => read value
  | none => some default

namespace Settings

def fieldNames : List String :=
  ["iterations", "draw", "seed", "parallel"]

def ofJson? (json : Json) : Option Settings :=
  match json.fields? fieldNames with
  | some [iterations, draw, seed, parallel] => do
    let standard : Settings := {}
    let iterations ← Json.orDefault iterations Json.count? standard.iterations
    let draw ← Json.orDefault draw Json.count? standard.draw
    let seed ← Json.orDefault seed Json.seed? standard.seed
    let parallel ← Json.orDefault parallel Json.bool? standard.parallel
    return { iterations, draw, seed, parallel }
  | _ => none

def toJson (settings : Settings) : Json :=
  .object [("iterations", .whole settings.iterations), ("draw", .whole settings.draw),
    ("seed", match settings.seed with
      | some seed => .whole seed.toNat
      | none => .null),
    ("parallel", .bool settings.parallel)]

end Settings

namespace Results

def fieldNames : List String :=
  ["iterations", "draw", "seed", "criteria", "deck_sizes", "match_counts", "no_match_counts"]

def ofJson? (json : Json) : Option Results :=
  match json.fields? fieldNames with
  | some [some iterations, some draw, some seed, some criteria, some deckSizes, some matchCounts,
      some noMatchCounts] => do
    let iterations ← iterations.count?
    let draw ← draw.count?
    let seed ← seed.count?
    let criteria ← criteria.row? Json.string?
    let deckSizes ← deckSizes.row? Json.count?
    let matchCounts ← matchCounts.row? (Json.row? Json.count?)
    let noMatchCounts ← noMatchCounts.row? Json.count?
    return ⟨iterations, draw, seed.toUInt64, criteria, deckSizes, matchCounts, noMatchCounts⟩
  | _ => none

def toJson (results : Results) : Json :=
  .object [("iterations", .whole results.iterations), ("draw", .whole results.draw),
    ("seed", .whole results.seed.toNat), ("criteria", .array (results.criteria.map .string)),
    ("deck_sizes", .counts results.deckSizes),
    ("match_counts", .array (results.matchCounts.map .counts)),
    ("no_match_counts", .counts results.noMatchCounts)]

end Results

end OpeningHand
