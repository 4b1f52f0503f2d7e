import Hedging.Json.Reading

/-!
# What can be wrong with a configuration

A threshold that is not positive, a strategy that cannot be read, an environment
variable that is missing, a list of regions that is empty.
-/

namespace Hedging

/-- Why a strategy cannot be read. -/
inductive Malformed where
  /-- The text, or a part of it, was refused. -/
  | refused (r : Json.Refusal)
  /-- The text of an environment variable is not JSON. -/
  | environment (name : String)
  /-- The value, written compactly, is not an object. -/
  | notObject (value : String)
deriving DecidableEq, Repr

/-- The message for a strategy that cannot be read. -/
def Malformed.text : Malformed → String
  | refused r => r.text
  | environment name => name ++ ": " ++ Json.Refusal.notJson.text
  | notObject value =>
    "expected an object with threshold_ms/threshold_steps_ms, got " ++ value

/-- What is wrong with a configuration. -/
inductive ConfigError where
  | notPositive (field : String) (value : Int64)
  | malformed (cause : Malformed)
  | missingVariable (name : String)
  | noRegions
deriving DecidableEq, Repr

/-- The message for a configuration error. -/
def ConfigError.text : ConfigError → String
  | notPositive field value => field ++ " must be positive, got " ++ toString value.toInt
  | malformed cause => "malformed availability strategy: " ++ cause.text
  | missingVariable name => "environment variable not set: " ++ name
  | noRegions => "no preferred regions configured"

end Hedging
