import OpeningHand.Pattern
import OpeningHand.Split

/-!
# Looking for a pattern in a hand

A pattern turns a stream of splits into the stream of all splits that go on from one of them by using
the cards the pattern asks for. A hand has the pattern when its stream does not run dry.

What a name refers to is looked up in a context, so the recursion is on the tree, and on the number
of lookups that may still be nested in each other.
-/

namespace OpeningHand

/-- What is known outside a pattern: the patterns that names refer to, and the cards that can turn up at
all. -/
structure Context where
  resolve : String → Option Pattern
  knows : Card → Bool

abbrev Step : Type := List Split → Except Fault (List Split)

namespace Step

/-- A step a number of times over. Nothing more happens to a stream that has run dry, nor to one that
the step leaves as it is. -/
def repeated (step : Step) : Nat → Step
  | 0, stream => .ok stream
  | count + 1, stream =>
    if stream.isEmpty then .ok stream
    else do
      let next ← step stream
      if next = stream then return stream
      repeated step count next

/-- The splits of the stream from which the step cannot go on, as they are. -/
def refused (step : Step) : Step
  | [] => .ok []
  | split :: stream => do
    let found ← step [split]
    let others ← refused step stream
    return if found.isEmpty then split :: others else others

@[simp] theorem repeated_zero (step : Step) (stream : List Split) :
    repeated step 0 stream = .ok stream := rfl

@[simp] theorem repeated_nil (step : Step) (count : Nat) : repeated step count [] = .ok [] := by
  cases count <;> rfl

@[simp] theorem refused_nil (step : Step) : refused step [] = .ok [] := rfl

end Step

/-- The splits that have a copy of the card, each after using one. -/
def Card.step (card : Card) : Step := fun stream =>
  (stream.filter (·.has card)).mapM (·.select card)

namespace Pattern

mutual

/-- The step of a pattern, where `follow` gives the step of a name. -/
def step (follow : String → Step) : Pattern → Step
  | always => .ok
  | card name => name.step
  | named name => follow name
  | all children => stepAll follow children
  | any children => stepAny follow children
  | times count child => (step follow child).repeated count
  | absent child => (step follow child).refused

/-- The steps of a row one after the other, as long as the stream has not run dry. -/
def stepAll (follow : String → Step) : List Pattern → Step
  | [], stream => .ok stream
  | child :: children, stream =>
    if stream.isEmpty then .ok stream
    else do
      let next ← step follow child stream
      stepAll follow children next

def stepAny (follow : String → Step) : List Pattern → Step
  | [], _ => .ok []
  | child :: children, stream => do
    let first ← step follow child stream
    let others ← stepAny follow children stream
    return first ++ others

end

end Pattern

namespace Context

def step (context : Context) : Nat → Pattern → Step
  | 0, pattern => pattern.step fun name _ =>
    match context.resolve name with
    | none => .ok []
    | some _ => .error .endlessReference
  | depth + 1, pattern => pattern.step fun name stream =>
    match context.resolve name with
    | none => .ok []
    | some found => context.step depth found stream

end Context

end OpeningHand
