import Hedging.Client.Settings
import Hedging.Race.Basic
import Hedging.Strategy.Basic
import Hedging.Text.Quoted

/-!
# Clients

A client has at least one region, the first of them the primary, and a strategy of
its own.  An operation under an active strategy races across the regions; any other
goes to the primary alone.  An operation whose own intent is refused does nothing.
-/

namespace Hedging

/-- Regions, the primary first, and the strategy of operations that have none of their own. -/
structure Client where
  primary : Region
  others : List Region
  strategy : Strategy
deriving DecidableEq, Repr, Inhabited

namespace Client

variable {α : Type}

/-- All regions, the primary first. -/
def regions (c : Client) : List Region := c.primary :: c.others

/-- The client with the given settings; an empty list of regions is refused before the intent. -/
def ofSettings (s : Settings) : Except ConfigError Client :=
  match s.regions with
  | [] => .error .noRegions
  | r :: rs => do return ⟨r, rs, ← Strategy.ofIntent s.intent⟩

/-- The strategy of an operation. -/
def effective (c : Client) (intent : Override) : Except ConfigError Strategy :=
  c.strategy.withOverride intent

/-- An operation under a strategy that is decided. -/
def attempt (c : Client) (s : Strategy) (script : Script α) (deadline : Option Nat) : Report α :=
  match s with
  | .active t => Race.run t c.regions script deadline
  | _ => Race.alone deadline c.primary (script c.primary 0)

/-- An operation of the client.  It announces itself, unless its intent is refused. -/
def execute (c : Client) (intent : Override) (script : Script α) (deadline : Option Nat) :
    Report α :=
  match c.effective intent with
  | .error e => .immediate (.config e)
  | .ok s =>
    let r := c.attempt s script deadline
    { r with events := (0, .operation s.text c.regions.length) :: r.events }

/-- The description of thresholds. -/
def thresholdsText (t : Thresholds) : String :=
  "StrategyConfig \x7b threshold: " ++ t.firstWait.text ++ ", threshold_step: " ++ t.stepWait.text
    ++ " \x7d"

/-- The description of a strategy. -/
def strategyText : Strategy → String
  | .unset => "Unset"
  | .disabled => "ExplicitlyDisabled"
  | .active t => "Active(" ++ thresholdsText t ++ ")"

/-- The description of a client: its regions and its strategy. -/
def text (c : Client) : String :=
  let regions := c.regions.map fun r => "RegionId(" ++ Text.quoted r.name ++ ")"
  "HedgedRegionClient \x7b regions: [" ++ String.intercalate ", " regions
    ++ "], default_strategy: " ++ strategyText c.strategy ++ ", .. \x7d"

end Client
end Hedging
