import Hedging.Demo.Overrides

/-!
# Two thousand operations

A client reads two thousand items.  The primary region stalls on every seventh and
fails on every fiftieth.
-/

namespace Hedging
namespace Demo

/-- The number of operations. -/
def volume : Nat := 2000

/-- How long a region takes for an item. -/
def volumeDelay (item : Nat) (r : Region) : Nat :=
  if r.name = "West US" then (if item % 7 = 0 then 900 else 40)
  else if r.name = "East US" then 70
  else 120

/-- The attempts for an item. -/
def volumeScript (item : Nat) : Script Nat := fun r _ =>
  if r.name = "West US" ∧ item % 50 = 0 then
    .failure (volumeDelay item r) (r.name ++ " returned 503 for item " ++ toString item)
  else .success (volumeDelay item r) item

/-- The settings of the client. -/
def volumeSettings : Settings :=
  ⟨threeRegions, some (.thresholds { first := some 100, step := some 50 })⟩

/-- The line of a region in the statistics. -/
def volumeTallyText (row : Region × Tally) : String :=
  "region " ++ row.1.name ++ ": wins = " ++ Text.atRight 5 (toString row.2.wins)
    ++ ", avg_latency = " ++ Text.atRight 7 (Decimal.fixed 1 row.2.average) ++ " ms, errors = "
    ++ toString row.2.errors

/-- Whether an operation has no answer. -/
def isLost (r : Report Nat) : Bool :=
  match r.verdict with
  | .won .. => false
  | _ => true

/-- The operations of a client and its statistics. -/
def manyReadsOf (s : Session) : Transcript :=
  let (rs, s') := s.executeAll ((List.range volume).map fun item => { script := volumeScript item })
  { out :=
      ["strategy: " ++ s.client.strategy.text, "", "=== summary ===",
        "total calls          : " ++ toString volume,
        "errors               : " ++ toString (rs.countP isLost),
        "wall time            : " ++ timeMark,
        "avg latency          : " ++ timeMark]
      ++ s'.ledger.rows.map volumeTallyText }

/-- The demonstration. -/
def manyReads : Transcript :=
  match Session.ofSettings volumeSettings with
  | .ok s => manyReadsOf s
  | .error e => { fault := some ⟨none, e⟩ }

end Demo
end Hedging
