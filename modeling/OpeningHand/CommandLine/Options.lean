import OpeningHand.Simulation.Settings
import OpeningHand.Text.Numeral

/-!
# Options of the command line

Arguments are read from left to right. An option has its value in the same argument, behind an equals
sign or right behind a short name, or else in the next argument, which must not look like an option
then. A flag has no value. Nothing but the alternative decks can be given twice.
-/

namespace OpeningHand

/-- What a run was asked to do. The alternatives are decks that are simulated side by side with the main
one, and a strict run stops at rules with errors. -/
structure Options where
  deck : String
  alternatives : List String
  rules : String
  settings : Settings
  strict : Bool
  json : Bool
  progress : Bool
deriving DecidableEq, Repr

inductive OptionsRefusal where
  | help
  | wrongUse
deriving DecidableEq, Repr

namespace Options

inductive Key where
  | deck
  | alt
  | rules
  | iterations
  | draw
  | seed
deriving DecidableEq, Repr

inductive Flag where
  | strict
  | json
  | progress
  | sequential
deriving DecidableEq, Repr

def Key.ofName? : String → Option Key
  | "deck" => some deck
  | "alt" => some alt
  | "rules" => some rules
  | "iterations" => some iterations
  | "draw" => some draw
  | "seed" => some seed
  | _ => none

def Key.ofLetter? : Char → Option Key
  | 'D' => some deck
  | 'a' => some alt
  | 'R' => some rules
  | 'I' => some iterations
  | 'd' => some draw
  | 's' => some seed
  | _ => none

def Flag.ofName? : String → Option Flag
  | "strict" => some strict
  | "json" => some json
  | "progress" => some progress
  | "sequential" => some sequential
  | _ => none

/-- What one argument says by itself. The value of an open option is in the next argument; behind the
last option there are only values. -/
inductive Argument where
  | help
  | open (key : Key)
  | closed (key : Key) (value : List Char)
  | flag (flag : Flag)
  | last
  | unknown
deriving DecidableEq, Repr

namespace Argument

/-- Two dashes and a name, with a value if there is an equals sign. -/
def ofLong (text : List Char) : Argument :=
  let name := String.ofList (text.takeWhile (· != '='))
  match text.dropWhile (· != '='), Key.ofName? name, Flag.ofName? name with
  | _ :: value, some key, _ => closed key value
  | [], some key, _ => .open key
  | [], none, some name => flag name
  | [], none, none => if name == "help" then help else unknown
  | _ :: _, none, _ => unknown

/-- A dash and a letter, with a value if there is more text. -/
def ofShort (letter : Char) (text : List Char) : Argument :=
  match Key.ofLetter? letter, text with
  | some key, [] => .open key
  | some key, '=' :: value => closed key value
  | some key, value => closed key value
  | none, _ => if letter == 'h' then help else unknown

def ofText : List Char → Argument
  | ['-', '-'] => last
  | '-' :: '-' :: text => ofLong text
  | '-' :: letter :: text => ofShort letter text
  | _ => unknown

def isValue : List Char → Bool
  | '-' :: _ :: _ => false
  | _ => true

end Argument

/-- What has been read so far. -/
structure Draft where
  deck : Option String := none
  alternatives : List String := []
  rules : Option String := none
  iterations : Option Nat := none
  draw : Option Nat := none
  seed : Option Nat := none
  strict : Bool := false
  json : Bool := false
  progress : Bool := false
  sequential : Bool := false
deriving DecidableEq, Repr

namespace Draft

/-- The draft with the value of one more option, which has to be well formed and new. -/
def set? (draft : Draft) (value : List Char) : Key → Option Draft
  | .deck =>
    if draft.deck.isSome then none else some { draft with deck := String.ofList value }
  | .alt => some { draft with alternatives := draft.alternatives ++ [String.ofList value] }
  | .rules =>
    if draft.rules.isSome then none else some { draft with rules := String.ofList value }
  | .iterations =>
    if draft.iterations.isSome then none
    else (Text.readSignedNumeral? value).map fun n => { draft with iterations := some n }
  | .draw =>
    if draft.draw.isSome then none
    else (Text.readSignedNumeral? value).map fun n => { draft with draw := some n }
  | .seed =>
    if draft.seed.isSome then none
    else (Text.readSignedNumeral? value).map fun n => { draft with seed := some n }

def raise? (draft : Draft) : Flag → Option Draft
  | .strict => if draft.strict then none else some { draft with strict := true }
  | .json => if draft.json then none else some { draft with json := true }
  | .progress => if draft.progress then none else some { draft with progress := true }
  | .sequential => if draft.sequential then none else some { draft with sequential := true }

def readAll (draft : Draft) : List (List Char) → Except OptionsRefusal Draft
  | [] => .ok draft
  | argument :: rest =>
    match Argument.ofText argument, rest with
    | .help, _ => .error .help
    | .last, [] => .ok draft
    | .flag flag, rest =>
      match draft.raise? flag with
      | some draft => draft.readAll rest
      | none => .error .wrongUse
    | .closed key value, rest =>
      match draft.set? value key with
      | some draft => draft.readAll rest
      | none => .error .wrongUse
    | .open key, value :: rest =>
      if Argument.isValue value then
        match draft.set? value key with
        | some draft => draft.readAll rest
        | none => .error .wrongUse
      else .error .wrongUse
    | _, _ => .error .wrongUse

/-- The options, if those that have no default are there. -/
def finish (draft : Draft) : Except OptionsRefusal Options :=
  match draft.deck, draft.rules with
  | some deck, some rules =>
    let standard : Settings := {}
    .ok {
      deck, rules
      alternatives := draft.alternatives
      settings := {
        iterations := draft.iterations.getD standard.iterations
        draw := draft.draw.getD standard.draw
        seed := draft.seed.map Nat.toUInt64
        parallel := !draft.sequential }
      strict := draft.strict
      json := draft.json
      progress := draft.progress }
  | _, _ => .error .wrongUse

end Draft

def ofArguments (arguments : List String) : Except OptionsRefusal Options := do
  let draft ← Draft.readAll {} (arguments.map String.toList)
  draft.finish

end Options

end OpeningHand
