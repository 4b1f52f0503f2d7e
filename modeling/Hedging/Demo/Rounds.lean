import Hedging.Client.Environment
import Hedging.Demo.Transcript

/-!
# Five rounds with settings from the environment

A client reads an item five times.  In each round the regions whose names have a
length in bytes that leaves the same remainder by three as the round are slow.
-/

namespace Hedging
namespace Demo

/-- The number of rounds. -/
def roundCount : Nat := 5

/-- Whether a region is slow in a round. -/
def isSlow (round : Nat) (r : Region) : Bool := r.name.utf8ByteSize % 3 = round % 3

/-- Every attempt of a round succeeds with its number. -/
def roundScript (round : Nat) : Script Nat := fun r _ =>
  .success (if isSlow round r then 400 else 60) round

/-- The operations of the rounds. -/
def roundOperations : List (Operation Nat) :=
  (List.range roundCount).map fun round => { script := roundScript round }

/-- The line of a round. -/
def roundText (round : Nat) (r : Report Nat) : List String :=
  answerText r fun region value =>
    "round " ++ toString round ++ ": " ++ toString value ++ " from " ++ region.name

/-- The line of a region in the statistics. -/
def tallyText (row : Region × Tally) : String :=
  row.1.name ++ ": wins = " ++ toString row.2.wins ++ ", avg_latency = " ++ millis row.2.average
    ++ ", errors = " ++ toString row.2.errors

/-- The greeting of a client. -/
def greeting (c : Client) : List String :=
  "Using regions:" :: c.regions.map (fun r => "- " ++ r.name) ++
    ["Client strategy: " ++ c.strategy.text]

/-- The five rounds of a client and its statistics, whose lines are sorted. -/
def roundsOf (s : Session) : Transcript :=
  let (rs, s') := s.executeAll roundOperations
  { out := flatten (rs.zipIdx.flatMap fun (r, round) => roundText round r)
      ++ ["", "=== region stats ==="]
      ++ (flatten (s'.ledger.rows.map tallyText)).mergeSort fun a b => decide (a ≤ b)
    err := flatten (greeting s.client) }

/-- What to set when the environment is refused. -/
def environmentHint : String :=
  "set " ++ Environment.regionsName ++ " (and optionally " ++ Environment.intentName ++ ")"

/-- The demonstration. -/
def rounds (env : Environment) : Transcript :=
  match env.settings with
  | .error e => { fault := some ⟨some environmentHint, e⟩ }
  | .ok settings =>
    match Session.ofSettings settings with
    | .error e => { fault := some ⟨none, e⟩ }
    | .ok s => roundsOf s

end Demo
end Hedging
