/-!
# Elapsed time

The last message of a run says how long the simulation took and how fast the hands were drawn.
-/

namespace OpeningHand

def hundredthsText (hundredths : Nat) : String :=
  let places := toString (hundredths % 100)
  toString (hundredths / 100) ++ "." ++ (if places.length < 2 then "0" ++ places else places)

/-- A time in nanoseconds, in the largest unit that it reaches. -/
def elapsedText (nanoseconds : Nat) : String :=
  if Nat.pow 10 9 ≤ nanoseconds then hundredthsText (nanoseconds / Nat.pow 10 7) ++ "s"
  else if Nat.pow 10 6 ≤ nanoseconds then hundredthsText (nanoseconds / Nat.pow 10 4) ++ "ms"
  else if Nat.pow 10 3 ≤ nanoseconds then hundredthsText (nanoseconds / 10) ++ "µs"
  else toString nanoseconds ++ ".00ns"

def elapsedMessage (hands nanoseconds : Nat) : String :=
  "\nSimulation completed in " ++ elapsedText nanoseconds ++ " (" ++
    toString (hands * Nat.pow 10 9 / max 1 nanoseconds) ++ " hands/sec)\n"

end OpeningHand
