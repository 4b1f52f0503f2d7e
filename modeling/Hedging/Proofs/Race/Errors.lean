import Hedging.Proofs.Race.Alone
import Hedging.Proofs.Race.Calls

/-!
# Failed calls

How many calls to a region end with an error, said of the attempts and not of the
calls (`errors_run`).  Every attempt that fails by itself before the operation is over
counts, also when another region wins or the operation is dropped: `failsIn` asks for
no more than the instants of the attempt and the end of the operation.
-/

namespace Hedging

/-- Whether a call to a region ended with an error. -/
def Call.isErrorOf (r : Region) (c : Call) : Bool := c.region = r && c.ending = .error

/-- How many calls to a region ended with an error. -/
def Report.errors {α : Type} (r : Region) (report : Report α) : Nat :=
  report.calls.countP (·.isErrorOf r)

namespace Race

variable {α : Type} {es : List (Entrant α)} {c : Nat}

/-! ### Errors by ticks -/

/-- The record of an attempt is an error if the attempt has ended and has one. -/
theorem ending_record_eq_error_iff {e : Entrant α} :
    (e.record c).ending = .error ↔ e.hasEnded c = true ∧ e.error?.isSome = true := by
  unfold Entrant.record
  split
  · rename_i hended
    obtain ⟨k, hk, -⟩ := Entrant.hasEnded_iff.1 hended
    obtain ⟨d, hd, -⟩ := Entrant.endTick?_eq_some_iff.1 hk
    simp only [hended, true_and, Attempt.completed, Entrant.attempt, Entrant.error?]
    revert hd
    cases e.outcome <;> simp [Outcome.delay?]
  · rename_i hended
    simp [hended, Attempt.cancelled]

/-- The record of an attempt is that of one given up if the attempt has not ended. -/
theorem ending_record_eq_cancelled_iff {e : Entrant α} :
    (e.record c).ending = .cancelled ↔ e.hasEnded c = false := by
  unfold Entrant.record
  split
  · rename_i hended
    simp only [hended, Attempt.completed]
    split <;> simp
  · rename_i hended
    simp [hended, Attempt.cancelled]

theorem region_record (e : Entrant α) : (e.record c).region = e.region := by
  unfold Entrant.record
  split <;> rfl

/-- A race counts the attempts to a region that have ended by its last tick and have an error. -/
theorem countP_record {p : Entrant α → Bool} (hp : ∀ e ∈ es, e.hasEnded c = true → p e = true)
    (r : Region) :
    ((es.filter p).map (·.record c)).countP (·.isErrorOf r)
      = es.countP fun e => e.region = r && (e.hasEnded c && e.error?.isSome) := by
  rw [List.countP_map, List.countP_filter]
  refine List.countP_congr fun e he => ?_
  simp only [Function.comp_apply, Call.isErrorOf, region_record, Bool.and_eq_true,
    decide_eq_true_eq, ending_record_eq_error_iff]
  constructor
  · rintro ⟨herror, -⟩
    exact herror
  · rintro ⟨hr, hended, herror⟩
    exact ⟨⟨hr, hended, herror⟩, hp e he hended⟩

/-! ### Errors by instants -/

section
variable (t : Thresholds) (regions : List Region) (script : Script α)

/-- Whether the attempt at a place is made and fails by itself before the operation with the
report is over.  At the instant of a victory those attempts are made that start with the winner. -/
def failsIn (report : Report α) (i : Fin regions.length) : Bool :=
  match played regions script i with
  | .failure d _ =>
    match report.verdict with
    | .won w _ _ =>
      (dueAt t regions i < report.elapsed ∨
        dueAt t regions i = report.elapsed ∧ (t.start w).toMillis = report.elapsed) ∧
        dueAt t regions i + d ≤ report.elapsed
    | .dropped => dueAt t regions i + d ≤ report.elapsed
    | .failed _ => true
    | .unfinished => true
  | _ => false

/-- How many attempts to a region fail before the operation with the report is over. -/
def failuresIn (report : Report α) (r : Region) : Nat :=
  (List.finRange regions.length).countP fun i =>
    regions.get i = r && failsIn t regions script report i

variable {t regions script}

/-- The attempts that count are the same in ticks and in instants. -/
theorem countP_lineup {report : Report α} (r : Region)
    (h : ∀ i d m, played regions script i = .failure d m →
      ((entrantAt t regions script i).hasEnded c = true ↔
        failsIn t regions script report i = true)) :
    ((lineup t regions script).countP fun e => e.region = r && (e.hasEnded c && e.error?.isSome))
      = failuresIn t regions script report r := by
  rw [lineup_eq, List.countP_map]
  refine List.countP_congr fun i _ => ?_
  simp only [Function.comp_apply, Bool.and_eq_true, decide_eq_true_eq]
  refine and_congr_right fun _ => ?_
  cases ho : played regions script i with
  | failure d m =>
    have herror : (entrantAt t regions script i).error? = some m := by
      simp only [Entrant.error?, entrantAt, ho]
    rw [herror, Option.isSome_some, and_iff_left rfl]
    exact h i d m ho
  | success d v => simp [failsIn, Entrant.error?, entrantAt, ho]
  | hang => simp [failsIn, Entrant.error?, entrantAt, ho]

/-- An attempt that fails has ended by the end of an instant or by its first tick if it has
started, and its delay is over. -/
theorem hasEnded_iff_of_failure {i : Fin regions.length} {d : Nat} {m : String} (hc : c % 3 ≠ 1)
    (h : played regions script i = .failure d m) :
    (entrantAt t regions script i).hasEnded c = true ↔
      (entrantAt t regions script i).hasStarted c = true ∧ dueAt t regions i + d ≤ c / 3 := by
  have hfinish : (entrantAt t regions script i).finish? = some (dueAt t regions i + d) :=
    finishAt?_of_failure h
  constructor
  · intro hended
    have hstarted := Entrant.hasStarted_of_hasEnded hended
    obtain ⟨f, hf, hle⟩ := (Entrant.hasEnded_iff_of_hasStarted hc hstarted).1 hended
    obtain rfl : _ = f := Option.some.inj (hfinish.symm.trans hf)
    exact ⟨hstarted, hle⟩
  · rintro ⟨hstarted, hle⟩
    exact (Entrant.hasEnded_iff_of_hasStarted hc hstarted).2 ⟨_, hfinish, hle⟩

/-- The errors of a race are the attempts that fail before it is over. -/
theorem Ending.errors {report : Report α} {deadline : Option Nat}
    (h : Ending (lineup t regions script) deadline report) (r : Region) :
    report.errors r = failuresIn t regions script report r := by
  unfold Report.errors
  cases h with
  | @won e v k wins inTime =>
    obtain ⟨w, rfl, -⟩ := wins.exists_succeedsAt
    refine (countP_record (fun _ _ => Entrant.hasStarted_of_hasEnded) r).trans
      (countP_lineup r fun i d m ho => ?_)
    rw [hasEnded_iff_of_failure (Entrant.finish?_of_endTick? wins.tick).2 ho,
      Entrant.hasStarted_iff_of_winner wins.tick]
    simp only [failsIn, ho, wonReport, decide_eq_true_eq, entrantAt, dueAt_eq]
  | @failed c ongoing ended =>
    have hcalls : (lineup t regions script).map (·.record c)
        = ((lineup t regions script).filter fun _ => true).map (·.record c) := by
      rw [List.filter_true]
    rw [failedReport, hcalls]
    refine (countP_record (fun _ _ _ => rfl) r).trans (countP_lineup r fun i d m ho => ?_)
    simp only [failsIn, ho, iff_true]
    exact ended _ ((mem_lineup t regions script).2 ⟨i, rfl⟩)
  | @dropped limit hlimit noValue unended =>
    refine (countP_record (fun _ _ => Entrant.hasStarted_of_hasEnded) r).trans
      (countP_lineup r fun i d m ho => ?_)
    rw [hasEnded_iff_of_failure (by omega) ho, Entrant.hasStarted_iff]
    simp only [failsIn, ho]
    show 3 * dueAt t regions i + 1 ≤ 3 * limit + 2 ∧ dueAt t regions i + d ≤ (3 * limit + 2) / 3 ↔
      decide (dueAt t regions i + d ≤ limit) = true
    rw [decide_eq_true_iff]
    omega
  | @unfinished c ongoing noLimit started ended hangs =>
    refine (countP_record (fun _ _ => id) r).trans (countP_lineup r fun i d m ho => ?_)
    simp only [failsIn, ho, unfinishedReport, iff_true]
    have hfinish : (entrantAt t regions script i).finish? = some (dueAt t regions i + d) :=
      finishAt?_of_failure ho
    obtain ⟨k, hk, -⟩ := Entrant.exists_endTick? hfinish
    exact Entrant.hasEnded_iff.2 ⟨k, hk, ended _ ((mem_lineup t regions script).2 ⟨i, rfl⟩) k hk⟩

/-- The errors of a single attempt. -/
theorem Single.errors {report : Report α} {deadline : Option Nat} {s : Region}
    (h : Single deadline s (script s 0) report) (r : Region) :
    report.errors r = failuresIn t [s] script report r := by
  have hdue : ∀ i, dueAt t [s] i = 0 := dueAt_singleton
  have hplayed : ∀ i, played [s] script i = script s 0 := played_singleton
  have hrange : List.finRange [s].length = [(0 : Fin 1)] := rfl
  unfold Report.errors failuresIn
  rw [hrange]
  cases h with
  | won ho _ => simp [Call.isErrorOf, failsIn, hplayed, ho]
  | failed ho _ => simp [Call.isErrorOf, failsIn, hplayed, ho]
  | dropped _ late =>
    cases ho : script s 0 with
    | success d v => simp [Call.isErrorOf, failsIn, hplayed, ho]
    | failure d m =>
      have hlt := late d (by rw [ho]; rfl)
      simp [Call.isErrorOf, failsIn, hplayed, hdue, ho, hlt]
    | hang => simp [Call.isErrorOf, failsIn, hplayed, ho]
  | unfinished _ ho => simp [failsIn, hplayed, ho]

/-- **The errors of an operation are the attempts that fail before it is over.** -/
theorem errors_run (t : Thresholds) (regions : List Region) (script : Script α)
    (deadline : Option Nat) (r : Region) :
    (run t regions script deadline).errors r
      = failuresIn t regions script (run t regions script deadline) r := by
  have hruns := runsTo_run t regions script deadline
  generalize run t regions script deadline = report at hruns
  cases hruns with
  | none => rfl
  | single h => exact h.errors r
  | race _ h => exact h.errors r

end

end Race
end Hedging
