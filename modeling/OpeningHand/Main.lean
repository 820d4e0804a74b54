import OpeningHand.CommandLine.Elapsed
import OpeningHand.CommandLine.Session

/-!
# The program

Everything outside the session: the files, the clock, and a seed for runs that are given none.
-/

open OpeningHand

def readText (path : String) : IO FileContent := do
  try
    let bytes ← IO.FS.readBinFile path
    match String.fromUTF8? bytes with
    | some text => return .ok text
    | none => return .error .notText
  catch
    | .noFileOrDirectory .. => return .error .missing
    | error => return .error (.other (toString error))

def freshSeed : IO UInt64 := do
  let bytes ← IO.getRandomBytes 8
  return bytes.toList.foldl (fun seed byte => seed * 256 + byte.toUInt64) 0

/-- The program: what a session prints, and the time it took if there are results. -/
def main (arguments : List String) : IO UInt32 := do
  let start ← IO.monoNanosNow
  let paths := match Options.ofArguments arguments with
    | .ok options => options.deck :: options.alternatives ++ [options.rules]
    | .error _ => []
  let files ← paths.mapM fun path => return (path, ← readText path)
  let read (path : String) : FileContent := (files.lookup path).getD (.error .missing)
  let transcript := Session.runArguments read arguments (← freshSeed)
  IO.print transcript.output
  IO.eprint transcript.messages
  if transcript.exit = 0 then
    if let .ok options := Options.ofArguments arguments then
      let hands := options.settings.iterations * (1 + options.alternatives.length)
      IO.eprint (elapsedMessage hands ((← IO.monoNanosNow) - start))
  return transcript.exit.toUInt32
