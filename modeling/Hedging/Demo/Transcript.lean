import Hedging.Client.Session
import Hedging.Decimal.Fixed
import Hedging.Text.Column

/-!
# Transcripts

What a demonstration writes: lines on two channels, and the configuration error that
ended it, if one did.  How long something took differs from run to run; a transcript
has a mark in its place.
-/

namespace Hedging
namespace Demo

/-- The error that ended a demonstration, and perhaps what to do about it. -/
structure Fault where
  context : Option String := none
  cause : ConfigError
deriving DecidableEq, Repr

/-- All that a demonstration writes. -/
structure Transcript where
  out : List String := []
  err : List String := []
  fault : Option Fault := none
deriving DecidableEq, Repr

/-- What stands where a time would. -/
def timeMark : String := "<time>"

/-- The lines of a text; a region's name may hold more than one. -/
def linesOf (s : String) : List String := s.splitOn "\n"

/-- Lines as they come out when each text ends its line. -/
def flatten (texts : List String) : List String := texts.flatMap linesOf

/-- Milliseconds with one place. -/
def millis (x : Float) : String := Decimal.fixed 1 x ++ " ms"

/-- What an operation says when it has an answer. -/
def answerText {α : Type} (r : Report α) (text : Region → α → String) : List String :=
  match r.verdict with
  | .won _ region value => [text region value ++ " in " ++ timeMark]
  | _ => []

end Demo
end Hedging
