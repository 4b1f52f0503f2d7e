import Hedging.Strategy.Thresholds

/-!
# Intents

A scope says that it wants hedging, that it does not, or with which thresholds it
wants it.  An intent is written as `true`, `false` or an object, and read back from
each of them; `null` stands for no intent where one is optional.
-/

namespace Hedging

/-- What a scope says about hedging. -/
inductive Intent where
  | enabled (b : Bool)
  | thresholds (r : ThresholdRequest)
deriving DecidableEq, Repr

namespace Intent

/-- The intent as compact JSON. -/
def text : Intent → String
  | enabled b => if b then "true" else "false"
  | thresholds r => r.text

/-- The name under which messages speak of an intent. -/
def typeName : String := "RawStrategyInput"

/-- The refusal of anything that is no intent. -/
def noIntent {α : Type} : Except Json.Refusal α := .error (.mismatch (.noAlternative typeName))

/-- The intent of an object whose members were read. -/
def ofReading : Except Json.Refusal ThresholdRequest → Except Json.Refusal Intent
  | .ok r => .ok (thresholds r)
  | .error _ => noIntent

/-- Reads an intent from a document; all of it must be JSON, nested at most `depth` deep. -/
def ofDocument (depth : Nat) (d : Json.Document) : Except Json.Refusal Intent :=
  match d.value? depth with
  | none => .error .notJson
  | some _ =>
    match d with
    | .bool b => .ok (enabled b)
    | .object members =>
      ofReading (ThresholdRequest.ofMembers (members.map fun m => (m.1, m.2.met?)))
    | _ => noIntent

/-- Reads an optional intent from a document. -/
def ofOptionalDocument (depth : Nat) : Json.Document → Except Json.Refusal (Option Intent)
  | .null => .ok none
  | d => do return some (← ofDocument depth d)

/-- Reads an intent from a text. -/
def ofText (s : String) : Except Json.Refusal Intent := Json.readText (ofDocument Json.maxDepth) s

/-- Reads an optional intent from a value. -/
def ofValue : Json.Value → Except Json.Refusal (Option Intent)
  | .null => .ok none
  | .bool b => .ok (some (enabled b))
  | .object members => do return some (← ofReading (ThresholdRequest.ofValueMembers members))
  | _ => noIntent

end Intent
end Hedging
