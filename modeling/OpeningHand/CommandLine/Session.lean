import OpeningHand.CommandLine.Options
import OpeningHand.Report
import OpeningHand.Simulation
import OpeningHand.Simulation.Json

/-!
# Sessions

A session is one run of the program: from options and the contents of files to what is printed and the
exit code. The messages about progress and problems go to the error output, and only results go to the
standard output.
-/

namespace OpeningHand

inductive FileError where
  | missing
  | notDirectory
  | isDirectory
  | nameTooLong
  | notText
  | other (message : String)
deriving DecidableEq, Repr

def FileError.message : FileError → String
  | missing => "IO error: No such file or directory (os error 2)"
  | notDirectory => "IO error: Not a directory (os error 20)"
  | isDirectory => "IO error: Is a directory (os error 21)"
  | nameTooLong => "IO error: File name too long (os error 36)"
  | notText => "IO error: stream did not contain valid UTF-8"
  | other message => "IO error: " ++ message

abbrev FileContent : Type := Except FileError String

structure Transcript where
  exit : Nat
  output : String
  messages : String
deriving DecidableEq, Repr

namespace Session

def deckLoaded (path : String) (deck : DeckList) : String :=
  "✓ Loaded deck " ++ path ++ ": " ++ toString deck.main.size ++ " cards (" ++
    toString deck.side.size ++ " in sideboard)\n"

def deckFailed (path : String) (error : FileError) : String :=
  "✗ Failed to parse deck file '" ++ path ++ "': " ++ error.message ++ "\n"

def rulesFailed (path : String) (error : FileError) : String :=
  "✗ Failed to load rules '" ++ path ++ "': " ++ error.message ++ "\n"

def rulesLoaded (path : String) (book : RuleBook) : String :=
  (if book.patterns.size = 0 then "✗ No matcher declared in " ++ path ++ "\n" else "") ++
    "✓ Loaded " ++ toString book.patterns.size ++ " matchers (" ++
    toString book.criteria.length ++ " criteria) from " ++ path ++ "\n"

def block (heading : String) (lines : List String) : String :=
  if lines.isEmpty then ""
  else "\n=== " ++ heading ++ " ===\n" ++ String.join (lines.map (· ++ "\n"))

def problems (book : RuleBook) : String :=
  block "PARSE ERRORS" (book.parseErrors.map fun diagnostic =>
      diagnostic.render Flaw.message ++ "\n") ++
    block "ERRORS" (book.review.errorMessages.map ("-> " ++ ·)) ++
    block "WARNINGS" (book.review.warningMessages.map ("-> " ++ ·))

def stats (results : Results) (table : List Char) : String :=
  "\n=== STATS (" ++ toString results.iterations ++ " hands of " ++ toString results.draw ++
    " cards, seed " ++ toString results.seed ++ ") ===\n\n" ++ String.ofList table

def output (json : Bool) (results : Results) : Except Fault String :=
  if json then .ok (String.ofList (results.toJson.pretty 0) ++ "\n")
  else do
    let table ← results.table
    return stats results (← table.render)

def faultExit : Nat := 101

/-- The decks in some files, and the messages about them; no decks if one of them cannot be read. -/
def loadDecks (read : String → FileContent) : List String → String × Option (List DeckList)
  | [] => ("", some [])
  | path :: paths =>
    match read path with
    | .error error => (deckFailed path error, none)
    | .ok text =>
      let deck := DeckList.read text.toList
      let (messages, decks) := loadDecks read paths
      (deckLoaded path deck ++ messages, decks.map (deck :: ·))

def announce (options : Options) (decks : List DeckList) : Except Fault Unit :=
  if options.progress && countLimit ≤ options.settings.iterations * decks.length then
    .error .productOverflow
  else .ok ()

def results (options : Options) (otherSeed : UInt64) (decks : List DeckList) (book : RuleBook) :
    Except Fault String := do
  announce options decks
  let results ← book.simulate options.settings otherSeed decks
  output options.json results

def runRules (options : Options) (otherSeed : UInt64) (decks : List DeckList) (messages : String)
    (book : RuleBook) : Transcript :=
  let book := book.validateAgainst decks
  let messages := messages ++ rulesLoaded options.rules book ++ problems book
  if options.strict && book.hasErrors then
    ⟨1, "", messages ++ "✗ Rules contain errors, aborting (--strict)\n"⟩
  else
    match results options otherSeed decks book with
    | .ok output => ⟨0, output, messages⟩
    | .error fault => ⟨faultExit, "", messages ++ fault.message ++ "\n"⟩

/-- The run with given options. The other seed is used when the options have none. -/
def run (read : String → FileContent) (options : Options) (otherSeed : UInt64) : Transcript :=
  match loadDecks read (options.deck :: options.alternatives) with
  | (messages, none) => ⟨1, "", messages⟩
  | (messages, some decks) =>
    match read options.rules with
    | .error error => ⟨1, "", messages ++ rulesFailed options.rules error⟩
    | .ok text =>
      match RuleBook.read text.toList with
      | .ok book => runRules options otherSeed decks messages book
      | .error fault => ⟨faultExit, "", messages ++ fault.message ++ "\n"⟩

def usage : String :=
  "Opening hand statistics for a deck and a set of keeping rules\n\n" ++
    "Usage: opening-hand --deck <DECK> --rules <RULES> [--alt <ALT>]... [--iterations <N>]\n" ++
    "         [--draw <N>] [--seed <N>] [--strict] [--json] [--progress] [--sequential]\n"

def runArguments (read : String → FileContent) (arguments : List String) (otherSeed : UInt64) :
    Transcript :=
  match Options.ofArguments arguments with
  | .ok options => run read options otherSeed
  | .error .help => ⟨0, usage, ""⟩
  | .error .wrongUse => ⟨2, "", usage⟩

end Session

end OpeningHand
