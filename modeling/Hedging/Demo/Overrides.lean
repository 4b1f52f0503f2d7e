import Hedging.Demo.Transcript

/-!
# Intents of a client and of an operation together

Each of three intents of a client meets each of three intents of an operation; the
primary region is slow.
-/

namespace Hedging
namespace Demo

/-- The regions of the demonstrations that have their own. -/
def threeRegions : List Region := [⟨"West US"⟩, ⟨"East US"⟩, ⟨"North Europe"⟩]

/-- Every attempt succeeds with the item of its region, the primary's after a long time. -/
def itemScript : Script String := fun r _ =>
  .success (if r.name = "West US" then 800 else 30) ("item@" ++ r.name)

/-- The intents of the clients, with their labels. -/
def clientIntents : List (String × Option Intent) :=
  [("unset", none), ("enabled", some (.enabled true)), ("disabled", some (.enabled false))]

/-- The intents of the operations, with their labels. -/
def operationIntents : List (String × Override) :=
  [("none", none), ("false", some (.enabled false)),
    ("threshold_ms=200", some (.thresholds { first := some 200 }))]

/-- The line of an operation under a strategy. -/
def overrideText (clientLabel label : String) (s : Strategy) (r : Report String) : List String :=
  answerText r fun region item =>
    "client=" ++ Text.atLeft 8 clientLabel ++ " op=" ++ Text.atLeft 16 label ++ " -> " ++ s.text
      ++ " served by " ++ region.name ++ " (" ++ item ++ ")"

/-- The lines of a client. -/
def overrideLines (clientLabel : String) (intent : Option Intent) :
    Except ConfigError (List String) := do
  let c ← Client.ofSettings ⟨threeRegions, intent⟩
  let lines ← operationIntents.mapM fun (label, override) => do
    return overrideText clientLabel label (← c.effective override)
      (c.execute override itemScript none)
  return lines.flatten

/-- The demonstration. -/
def overrides : Transcript :=
  match clientIntents.mapM fun (label, intent) => overrideLines label intent with
  | .ok lines => { out := flatten lines.flatten }
  | .error e => { fault := some ⟨none, e⟩ }

end Demo
end Hedging
