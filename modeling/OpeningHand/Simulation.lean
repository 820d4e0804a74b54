import OpeningHand.RuleBook
import OpeningHand.Simulation.Results
import OpeningHand.Simulation.Schedule
import OpeningHand.Simulation.Settings

/-!
# Simulation

For each deck, hands are drawn and tested against the criteria, and the first criterion that each of
them satisfies is counted. Every hand has a source of picks of its own, with a seed that depends only on the
number of the hand; so it does not matter in which order the hands are drawn, nor by which workers.
-/

namespace OpeningHand

def DeckList.deal {γ : Type} [Picker γ] (deck : DeckList) (draw : Nat) (source : γ) : Pile × γ :=
  let (shuffled, source) := deck.main.shuffle source
  (shuffled.draw draw, source)

def RuleBook.trial {γ : Type} [Picker γ] (book : RuleBook) (deck : DeckList) (draw : Nat) (source : γ) :
    Except Fault (Option Nat) :=
  book.firstMatch (deck.deal draw source).1

/-- The trial of a hand with a given number, where the seed of hand `i` is `base + i`. -/
def RuleBook.numberedTrial (γ : Type) [Picker γ] (book : RuleBook) (settings : Settings) (deck : DeckList)
    (base : UInt64) (i : Nat) : Except Fault (Option Nat) :=
  book.trial deck settings.draw (Picker.ofTrial base i.toUInt64 : γ)

def RuleBook.tally (γ : Type) [Picker γ] (book : RuleBook) (settings : Settings) (deck : DeckList)
    (base : UInt64) : Except Fault Tally :=
  Tally.collect book.criteria.length (book.numberedTrial γ settings deck base) (.range settings.iterations)

/-- The tallies of several decks, where that of deck `d` begins with the seed
`seed + d * iterations`. -/
def RuleBook.tallies (γ : Type) [Picker γ] (book : RuleBook) (settings : Settings) (seed : UInt64)
    (decks : List DeckList) : Except Fault (List Tally) :=
  decks.zipIdx.mapM fun (deck, d) =>
    book.tally γ settings deck (seed + (d * settings.iterations).toUInt64)

/-- The results that several tallies amount to: their columns become rows. -/
def RuleBook.results (book : RuleBook) (settings : Settings) (seed : UInt64)
    (decks : List DeckList) (tallies : List Tally) : Results where
  iterations := settings.iterations
  draw := settings.draw
  seed := seed
  criteria := book.criteria.map (·.name)
  deckSizes := decks.map (·.main.size)
  matchCounts := (List.range book.criteria.length).map fun criterion =>
    tallies.filterMap (·.hits[criterion]?)
  noMatchCounts := tallies.map (·.misses)

/-- The results for some decks. The other seed is used when the settings have none. -/
def RuleBook.simulate (book : RuleBook) (settings : Settings) (otherSeed : UInt64)
    (decks : List DeckList) (γ : Type := Generator) [Picker γ] : Except Fault Results := do
  let seed := settings.seed.getD otherSeed
  let tallies ← book.tallies γ settings seed decks
  return book.results settings seed decks tallies

/-- The tally of one deck with its trials spread over workers, if the settings allow for this. -/
def RuleBook.scheduledTally (γ : Type) [Picker γ] (book : RuleBook) (settings : Settings) (deck : DeckList)
    (base : UInt64) (schedule : Schedule) : Except Fault Tally :=
  if settings.parallel then
    schedule.collect book.criteria.length (book.numberedTrial γ settings deck base)
  else book.tally γ settings deck base

/-- The results for some decks with a schedule for the trials of each, given the number of the deck. -/
def RuleBook.simulateOn (book : RuleBook) (settings : Settings) (otherSeed : UInt64)
    (decks : List DeckList) (schedules : Nat → Schedule) (γ : Type := Generator) [Picker γ] :
    Except Fault Results := do
  let seed := settings.seed.getD otherSeed
  let tallies ← decks.zipIdx.mapM fun (deck, d) =>
    book.scheduledTally γ settings deck (seed + (d * settings.iterations).toUInt64) (schedules d)
  return book.results settings seed decks tallies

inductive SimulationError where
  | invalidRules (parseErrors referenceErrors : Nat)
  | noDeck
  | fault (fault : Fault)
deriving DecidableEq, Repr

def SimulationError.message : SimulationError → String
  | invalidRules parseErrors referenceErrors =>
    "rules contain " ++ toString parseErrors ++ " parse error(s) and " ++
      toString referenceErrors ++ " validation error(s)"
  | noDeck => "no deck to simulate"
  | fault cause => cause.message

/-- The results for some decks; rules with errors are refused, and so is a simulation without a
deck. -/
def RuleBook.simulateStrictly (book : RuleBook) (settings : Settings) (otherSeed : UInt64)
    (decks : List DeckList) : Except SimulationError Results :=
  if book.hasErrors then
    .error (.invalidRules book.parseErrors.length book.review.errors.length)
  else if decks.isEmpty then .error .noDeck
  else (book.simulate settings otherSeed decks).mapError .fault

end OpeningHand
