import Hedging.Error
import Hedging.Race.Event

/-!
# Reports

A report says how an operation ended, when, which attempts it made and which events
it emitted.  All times are milliseconds since the start of the operation.
-/

namespace Hedging

/-- The error with which an attempt to a region ended. -/
structure Failure where
  region : Region
  error : String
deriving DecidableEq, Repr

/-- The failures of all regions, in their order. -/
def failuresText (fs : List Failure) : String :=
  let head := toString fs.length ++ " region(s) failed"
  match fs with
  | [] => head
  | _ => head ++ ": " ++ String.intercalate "; " (fs.map fun f => f.region.name ++ ": " ++ f.error)

/-- Why an operation has no value. -/
inductive OperationError where
  /-- There was no region to try. -/
  | noRegions
  /-- Every attempt failed. -/
  | allFailed (failures : List Failure)
  /-- The intent of the operation was refused. -/
  | config (e : ConfigError)
deriving DecidableEq, Repr

/-- The message for an operation without a value. -/
def OperationError.text : OperationError → String
  | noRegions => "no regions to attempt"
  | allFailed fs => "all regions failed: " ++ failuresText fs
  | config e => e.text

/-- How an operation ended. -/
inductive Verdict (α : Type) where
  /-- The region at the index answered with the value. -/
  | won (index : Nat) (region : Region) (value : α)
  | failed (error : OperationError)
  /-- The deadline passed. -/
  | dropped
  /-- It waits for ever. -/
  | unfinished
deriving DecidableEq, Repr

/-- How a call ended; a success that came too late is one too. -/
inductive Ending where
  | ok
  | error
  | cancelled
deriving DecidableEq, Repr

/-- An attempt that was made: its place among the regions, and its first and last instant. -/
structure Call where
  index : Nat
  region : Region
  start : Nat
  stop : Nat
  ending : Ending
deriving DecidableEq, Repr

/-- All that an operation leaves behind. -/
structure Report (α : Type) where
  verdict : Verdict α
  elapsed : Nat
  calls : List Call
  events : List (Nat × Event)
deriving DecidableEq, Repr

namespace Report

variable {α : Type}

/-- The report of an operation that ends at once and does nothing. -/
def immediate (e : OperationError) : Report α := ⟨.failed e, 0, [], []⟩

/-- Whether an instant comes after the deadline, if there is one. -/
def isLate (deadline : Option Nat) (time : Nat) : Bool := deadline.any (· < time)

end Report
end Hedging
