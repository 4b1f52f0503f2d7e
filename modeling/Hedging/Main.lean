import Hedging.Demo.Rounds
import Hedging.Demo.Volume

/-!
# The demonstrations as a program

The name of a demonstration is the only argument; its lines go to the standard
channels, and an error in its configuration makes it fail.
-/

namespace Hedging

/-- The environment of the process. -/
def readEnvironment : IO Environment := do
  return ⟨(← IO.getEnv Environment.regionsName).map String.toUTF8,
    (← IO.getEnv Environment.intentName).map String.toUTF8⟩

/-- Writes a transcript; answers the exit code. -/
def write (t : Demo.Transcript) : IO UInt32 := do
  for line in t.err do IO.eprintln line
  for line in t.out do IO.println line
  match t.fault with
  | none => return 0
  | some f =>
    IO.eprintln ("Error: " ++ (f.context.getD f.cause.text))
    if f.context.isSome then IO.eprintln ("Caused by: " ++ f.cause.text)
    return 1

end Hedging

/-- Runs the demonstration that the argument names. -/
def main (args : List String) : IO UInt32 := do
  match args with
  | ["rounds"] => Hedging.write (Hedging.Demo.rounds (← Hedging.readEnvironment))
  | ["overrides"] => Hedging.write Hedging.Demo.overrides
  | ["many-reads"] => Hedging.write Hedging.Demo.manyReads
  | _ =>
    IO.eprintln "usage: rounds | overrides | many-reads"
    return 2
