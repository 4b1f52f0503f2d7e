import Hedging.Region

/-!
# Events

What a race and a client report while they run: a level, a message, and fields with
their texts in order.
-/

namespace Hedging

/-- How much an event matters. -/
inductive Level where
  | debug
  | info
  | warn
deriving DecidableEq, Repr

/-- The name of a level. -/
def Level.text : Level → String
  | debug => "DEBUG"
  | info => "INFO"
  | warn => "WARN"

/-- Something that happens while an operation runs. -/
inductive Event where
  /-- An operation starts with a strategy, given as its text, on so many regions. -/
  | operation (strategy : String) (regions : Nat)
  /-- An attempt starts, so many milliseconds after the race. -/
  | started (region : Region) (attempt offset : Nat)
  /-- An attempt fails. -/
  | failed (region : Region) (attempt : Nat) (error : String)
  /-- The first region wins; so many attempts are still in flight. -/
  | primaryWon (region : Region) (cancelled : Nat)
  /-- A later region wins, so many milliseconds after its own start. -/
  | hedgeWon (region : Region) (attempt cancelled latency : Nat)
  /-- Every attempt has failed. -/
  | allFailed (regions : Nat)
deriving DecidableEq, Repr

namespace Event

/-- The level of an event. -/
def level : Event → Level
  | hedgeWon .. => .info
  | allFailed .. => .warn
  | _ => .debug

/-- The message of an event. -/
def message : Event → String
  | operation .. => "executing operation"
  | started .. => "starting regional attempt"
  | failed .. => "regional attempt failed"
  | primaryWon .. => "primary region won the race"
  | hedgeWon .. => "hedged attempt won the race"
  | allFailed .. => "all regional attempts failed"

/-- The fields of an event and their texts. -/
def fields : Event → List (String × String)
  | operation strategy regions => [("strategy", strategy), ("regions", toString regions)]
  | started region attempt offset =>
    [("region", region.name), ("attempt", toString attempt), ("offset_ms", toString offset)]
  | failed region attempt error =>
    [("region", region.name), ("attempt", toString attempt), ("error", error)]
  | primaryWon region cancelled =>
    [("region", region.name), ("cancelled", toString cancelled)]
  | hedgeWon region attempt cancelled latency =>
    [("region", region.name), ("attempt", toString attempt), ("cancelled", toString cancelled),
      ("latency_ms", toString latency)]
  | allFailed regions => [("regions", toString regions)]

end Event
end Hedging
