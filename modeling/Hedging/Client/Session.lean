import Hedging.Client.Basic
import Hedging.Client.Ledger

/-!
# Sessions

A session is a client with its ledger.  Copies of a client share both, so a session
stands for all of them.  Operations run one after the other, or several of them at
the same time; then their winners enter the ledger in the order of their ends.
-/

namespace Hedging

/-- One operation: its intent, what its attempts will do, and when it is dropped. -/
structure Operation (α : Type) where
  intent : Override := none
  script : Script α
  deadline : Option Nat := none

/-- A client and what is known about its regions. -/
structure Session where
  client : Client
  ledger : Ledger
deriving DecidableEq, Repr, Inhabited

namespace Session

variable {α : Type}

/-- A session of a new client. -/
def ofSettings (s : Settings) : Except ConfigError Session := do
  let c ← Client.ofSettings s
  return ⟨c, .ofRegions c.regions⟩

/-- What an operation does. -/
def report (s : Session) (op : Operation α) : Report α :=
  s.client.execute op.intent op.script op.deadline

/-- Runs an operation. -/
def execute (s : Session) (op : Operation α) : Report α × Session :=
  let r := s.report op
  (r, { s with ledger := s.ledger.add r })

/-- Runs operations one after the other. -/
def executeAll (s : Session) : List (Operation α) → List (Report α) × Session
  | [] => ([], s)
  | op :: ops =>
    let (r, s) := s.execute op
    let (rs, s) := s.executeAll ops
    (r :: rs, s)

/-- Runs operations that start at the same instant. -/
def executeTogether (s : Session) (ops : List (Operation α)) : List (Report α) × Session :=
  let rs := ops.map s.report
  let inOrder := rs.mergeSort fun a b => decide (a.elapsed ≤ b.elapsed)
  (rs, { s with ledger := inOrder.foldl Ledger.add s.ledger })

/-- The events of operations that start at the same instant, in the order in which they happen. -/
def eventsTogether (rs : List (Report α)) : List Event :=
  ((rs.flatMap (·.events)).mergeSort fun a b => decide (a.1 ≤ b.1)).map (·.2)

end Session
end Hedging
