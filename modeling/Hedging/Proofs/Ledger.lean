import Hedging.Client.Session
import Hedging.Proofs.Race.Errors
import Mathlib.Algebra.GroupWithZero.Nat

/-!
# What a ledger holds after any number of operations

A report changes each row of a ledger by itself (`Ledger.rows_add`), so a row after many
reports is a fold over them (`Tally.enter`), and its numbers are those of the reports: the
operations that the region won, their times added up in order, and the calls to the region
that ended with an error.  The counters of a row hold these numbers as words of 64 bits
(`Tally.winCounter_foldl_enter`, `Tally.errorCounter_foldl_enter`).
-/

namespace Hedging

variable {α : Type}

/-! ### Keys -/

theorem nodup_eraseDups : ∀ rs : List Region, rs.eraseDups.Nodup
  | [] => List.nodup_nil
  | r :: rs => by
    have hle := List.length_filter_le (fun s => !s == r) rs
    rw [List.eraseDups_cons, List.nodup_cons, List.mem_eraseDups]
    exact ⟨by simp, nodup_eraseDups _⟩
termination_by rs => rs.length
decreasing_by exact Nat.lt_succ_of_le hle

theorem Region.nodup_distinct (rs : List Region) : (Region.distinct rs).Nodup :=
  (Region.sorted_perm _).nodup_iff.2 (nodup_eraseDups rs)

/-! ### Reports -/

namespace Verdict

/-- The region that won, if one did. -/
def winner? : Verdict α → Option Region
  | won _ r _ => some r
  | _ => none

end Verdict

namespace Report

/-- Whether an operation was won by a region. -/
def isWonBy (r : Region) (report : Report α) : Bool := report.verdict.winner? = some r

/-- Whether an operation was won. -/
def isWon (report : Report α) : Bool := report.verdict.winner?.isSome

end Report

/-! ### One row -/

namespace Tally

/-- What a report adds to the row of a region. -/
def enter (r : Region) (t : Tally) (report : Report α) : Tally :=
  let t' := { t with errorCounter := t.errorCounter + .ofNat (report.errors r) }
  if report.isWonBy r then t'.addWin report.elapsed else t'

variable (r : Region) (reports : List (Report α)) (t : Tally)

theorem winCounter_foldl_enter :
    (reports.foldl (enter r) t).winCounter
      = t.winCounter + .ofNat (reports.countP (·.isWonBy r)) := by
  induction reports generalizing t with
  | nil => exact (UInt64.add_zero _).symm
  | cons report reports ih =>
    have henter : (t.enter r report).winCounter
        = t.winCounter + .ofNat (if report.isWonBy r then 1 else 0) := by
      unfold enter
      split
      · rfl
      · exact (UInt64.add_zero _).symm
    rw [List.foldl_cons, ih, henter, List.countP_cons, UInt64.add_assoc, ← UInt64.ofNat_add,
      Nat.add_comm]

theorem errorCounter_foldl_enter :
    (reports.foldl (enter r) t).errorCounter
      = t.errorCounter + .ofNat (reports.map (·.errors r)).sum := by
  induction reports generalizing t with
  | nil => exact (UInt64.add_zero _).symm
  | cons report reports ih =>
    have henter : (t.enter r report).errorCounter
        = t.errorCounter + .ofNat (report.errors r) := by
      unfold enter
      split <;> rfl
    rw [List.foldl_cons, ih, henter, List.map_cons, List.sum_cons, UInt64.add_assoc,
      UInt64.ofNat_add]

/-- Fewer than `2 ^ 64` reports do not wrap the counter of victories. -/
theorem wins_foldl_enter (few : reports.length < 2 ^ 64) :
    (reports.foldl (enter r) {}).wins = reports.countP (·.isWonBy r) := by
  have hle : reports.countP (·.isWonBy r) ≤ reports.length := List.countP_le_length
  rw [wins, winCounter_foldl_enter, UInt64.zero_add, UInt64.toNat_ofNat',
    Nat.mod_eq_of_lt (Nat.lt_of_le_of_lt hle few)]

/-- Each report may hold several errors of a region, so the counter of errors may wrap. -/
theorem errors_foldl_enter :
    (reports.foldl (enter r) {}).errors = (reports.map (·.errors r)).sum % 2 ^ 64 := by
  rw [errors, errorCounter_foldl_enter, UInt64.zero_add, UInt64.toNat_ofNat']

/-- The times are added up from the left, in the order of the reports. -/
theorem total_foldl_enter :
    (reports.foldl (enter r) t).total
      = (reports.filter (·.isWonBy r)).foldl (fun x report => x + latency report.elapsed)
          t.total := by
  induction reports generalizing t with
  | nil => rfl
  | cons report reports ih =>
    rw [List.foldl_cons, ih]
    cases hwon : report.isWonBy r with
    | true =>
      rw [List.filter_cons_of_pos hwon, List.foldl_cons, enter, hwon]
      rfl
    | false =>
      rw [List.filter_cons_of_neg (by simp [hwon]), enter, hwon]
      rfl

end Tally

/-! ### All rows -/

namespace Ledger

theorem rows_update (l : Ledger) (r : Region) (f : Tally → Tally) :
    (l.update r f).rows = l.rows.map fun row => (row.1, if row.1 = r then f row.2 else row.2) := by
  refine List.map_congr_left fun row _ => ?_
  split <;> rfl

theorem rows_addErrors (l : Ledger) (calls : List Call) :
    (l.addErrors calls).rows = l.rows.map fun row =>
      (row.1, { row.2 with
        errorCounter := row.2.errorCounter + .ofNat (calls.countP (·.isErrorOf row.1)) }) := by
  induction calls generalizing l with
  | nil =>
    refine (List.map_id _).symm.trans (List.map_congr_left fun row _ => ?_)
    rw [List.countP_nil]
    exact congrArg (fun n => (row.1, { row.2 with errorCounter := n })) (UInt64.add_zero _).symm
  | cons call calls ih =>
    by_cases herror : call.ending = .error
    · have hcons : l.addErrors (call :: calls)
          = (l.update call.region Tally.addError).addErrors calls := by
        simp [addErrors, herror]
      rw [hcons, ih, rows_update, List.map_map]
      refine List.map_congr_left fun row _ => ?_
      by_cases hr : row.1 = call.region
      · have hcount : call.isErrorOf row.1 = true := by simp [Call.isErrorOf, herror, hr]
        rw [Function.comp_apply, if_pos hr, List.countP_cons_of_pos hcount, Tally.addError,
          Nat.add_comm, UInt64.ofNat_add, ← UInt64.add_assoc]
        rfl
      · have hcount : ¬ call.isErrorOf row.1 = true := by
          simpa [Call.isErrorOf, herror] using Ne.symm hr
        rw [Function.comp_apply, if_neg hr, List.countP_cons_of_neg hcount]
    · have hcons : l.addErrors (call :: calls) = l.addErrors calls := by
        simp [addErrors, herror]
      rw [hcons, ih]
      refine List.map_congr_left fun row _ => ?_
      have hcount : ¬ call.isErrorOf row.1 = true := by simp [Call.isErrorOf, herror]
      rw [List.countP_cons_of_neg hcount]

theorem rows_addVerdict (l : Ledger) (elapsed : Nat) (v : Verdict α) :
    (l.addVerdict elapsed v).rows = l.rows.map fun row =>
      (row.1, if v.winner? = some row.1 then row.2.addWin elapsed else row.2) := by
  cases v with
  | won i r x =>
    rw [addVerdict, rows_update]
    refine List.map_congr_left fun row _ => ?_
    simp only [Verdict.winner?, Option.some.injEq, eq_comm (a := r)]
  | failed e => exact (List.map_id _).symm
  | dropped => exact (List.map_id _).symm
  | unfinished => exact (List.map_id _).symm

/-- **A report changes each row by itself.** -/
theorem rows_add (l : Ledger) (report : Report α) :
    (l.add report).rows = l.rows.map fun row => (row.1, row.2.enter row.1 report) := by
  rw [add, rows_addVerdict, rows_addErrors, List.map_map]
  refine List.map_congr_left fun row _ => ?_
  simp only [Function.comp_apply, Tally.enter, Report.isWonBy, Report.errors, decide_eq_true_eq]

theorem rows_foldl_add (l : Ledger) (reports : List (Report α)) :
    (reports.foldl Ledger.add l).rows
      = l.rows.map fun row => (row.1, reports.foldl (Tally.enter row.1) row.2) := by
  induction reports generalizing l with
  | nil => exact (List.map_id _).symm
  | cons report reports ih =>
    rw [List.foldl_cons, ih, rows_add, List.map_map]
    rfl

end Ledger

end Hedging
