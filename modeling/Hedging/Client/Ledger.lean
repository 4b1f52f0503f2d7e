import Hedging.Duration
import Hedging.Race.Report

/-!
# Ledgers

A ledger keeps for each region of a client the operations that it won, the time they
took, and the attempts that failed there.  Its regions never change; `add` enters
a report: each call that ended with an error counts, and the winner, if there is one.
The counters are words of 64 bits, which begin again at zero after their last number.
-/

namespace Hedging

/-- What is known about a region. -/
structure Tally where
  winCounter : UInt64 := 0
  /-- The milliseconds of the operations that the region won, added up in their order. -/
  total : Float := 0
  errorCounter : UInt64 := 0
deriving DecidableEq, Repr, Inhabited

/-- The milliseconds that an operation took, worked out from its seconds. -/
def latency (elapsed : Nat) : Float :=
  if h : elapsed < 1000 * 0x10000000000000000 then (Duration.ofMillis elapsed h).toSeconds * 1000
  else Duration.longest.toSeconds * 1000

namespace Tally

/-- The number of operations won. -/
def wins (t : Tally) : Nat := t.winCounter.toNat

/-- The number of attempts that failed. -/
def errors (t : Tally) : Nat := t.errorCounter.toNat

/-- One more operation won, after so many milliseconds. -/
def addWin (t : Tally) (elapsed : Nat) : Tally :=
  { t with winCounter := t.winCounter + 1, total := t.total + latency elapsed }

/-- One more attempt failed. -/
def addError (t : Tally) : Tally := { t with errorCounter := t.errorCounter + 1 }

/-- The mean time of the operations won, zero without any. -/
def average (t : Tally) : Float :=
  if t.winCounter = 0 then 0 else t.total / t.winCounter.toFloat

end Tally

/-- A tally for each region, in the order of their names. -/
structure Ledger where
  rows : List (Region × Tally)
deriving DecidableEq, Repr, Inhabited

namespace Ledger

variable {α : Type}

/-- The ledger of a client before its first operation. -/
def ofRegions (regions : List Region) : Ledger := ⟨(Region.distinct regions).map (·, {})⟩

/-- The regions of the ledger. -/
def regions (l : Ledger) : List Region := l.rows.map (·.1)

/-- Changes the tally of a region. -/
def update (l : Ledger) (r : Region) (f : Tally → Tally) : Ledger :=
  ⟨l.rows.map fun row => if row.1 = r then (row.1, f row.2) else row⟩

/-- Enters the calls that ended with an error. -/
def addErrors (l : Ledger) (calls : List Call) : Ledger :=
  (calls.filter (·.ending = .error)).foldl (fun l c => l.update c.region Tally.addError) l

/-- Enters the winner of an operation. -/
def addVerdict (l : Ledger) (elapsed : Nat) : Verdict α → Ledger
  | .won _ r _ => l.update r (·.addWin elapsed)
  | _ => l

/-- Enters the report of an operation. -/
def add (l : Ledger) (r : Report α) : Ledger :=
  (l.addErrors r.calls).addVerdict r.elapsed r.verdict

@[simp]
theorem regions_update (l : Ledger) (r : Region) (f : Tally → Tally) :
    (l.update r f).regions = l.regions := by
  simp only [regions, update, List.map_map]
  refine List.map_congr_left fun row _ => ?_
  simp only [Function.comp]
  split <;> rfl

@[simp]
theorem regions_addErrors (l : Ledger) (calls : List Call) :
    (l.addErrors calls).regions = l.regions := by
  have h : ∀ (cs : List Call) (l : Ledger),
      (cs.foldl (fun l c => l.update c.region Tally.addError) l).regions = l.regions := by
    intro cs
    induction cs with
    | nil => simp
    | cons c cs ih => intro l; simp [ih]
  exact h _ l

@[simp]
theorem regions_add (l : Ledger) (r : Report α) : (l.add r).regions = l.regions := by
  unfold add addVerdict
  split <;> simp

end Ledger
end Hedging
