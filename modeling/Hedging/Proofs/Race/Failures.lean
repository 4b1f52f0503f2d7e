import Hedging.Proofs.Race.Alone
import Hedging.Proofs.Race.Calls

/-!
# The failures of a race

Failures come in the order of the ends of attempts and are put into slots, which are
read out in the order of the regions.  When an operation has failed, no slot is empty:
each region has its failure there, no attempt waits or is in flight, and none succeeded
(`failures_complete`).  For two or more regions this is what the last turn finds
(`slots_of_failed`); a single region has no slots (`Single.exists_failure`).
-/

namespace Hedging
namespace Race

variable {α : Type} {deadline : Option Nat}

/-! ### The slots -/

theorem map_some_filterMap_id {β : Type} {l : List (Option β)} (h : ∀ o ∈ l, o.isSome = true) :
    (l.filterMap id).map some = l := by
  have hsome : ∀ o ∈ l, (id o).map some = some o := by
    intro o ho
    obtain ⟨x, rfl⟩ := Option.isSome_iff_exists.1 (h o ho)
    rfl
  rw [List.map_filterMap, List.filterMap_congr hsome, List.filterMap_some]

/-- When everybody has ended without a value, nobody waits or is in flight, and no slot is empty. -/
theorem Ongoing.exhausted {es : List (Entrant α)} {c : Nat} (h : Ongoing es deadline c)
    (ended : ∀ e ∈ es, e.hasEnded c = true) :
    (snapshot es c).waiting = [] ∧ (snapshot es c).inFlight = [] ∧
      (snapshot es c).slots = (snapshot es c).failures.map some := by
  refine ⟨?_, ?_, ?_⟩
  · refine List.filter_eq_nil_iff.2 fun e he => ?_
    rw [Entrant.hasStarted_of_hasEnded (ended e he)]
    exact Bool.false_ne_true
  · refine List.map_eq_nil_iff.2 (List.filter_eq_nil_iff.2 fun e he => ?_)
    rw [Entrant.isFlying, ended e he, Bool.not_true, Bool.and_false]
    exact Bool.false_ne_true
  · refine (map_some_filterMap_id fun o ho => ?_).symm
    obtain ⟨e, he, rfl⟩ := List.mem_map.1 ho
    rw [if_pos (ended e he)]
    exact Entrant.failure?_isSome (ended e he) (h.noValue e he (ended e he))

/-- **A race that fails leaves nobody behind and no slot empty.** -/
theorem slots_of_failed {es : List (Entrant α)} (hes : InOrder es) (deadline : Option Nat) :
    ∀ fs, ((State.ofEntrants es).launch.run deadline).2 = .failed (.allFailed fs) →
      ((State.ofEntrants es).launch.run deadline).1.waiting = [] ∧
      ((State.ofEntrants es).launch.run deadline).1.inFlight = [] ∧
      ((State.ofEntrants es).launch.run deadline).1.slots = fs.map some := by
  refine contest_of_over hes (Q := fun s v => ∀ fs, v = .failed (.allFailed fs) →
    s.waiting = [] ∧ s.inFlight = [] ∧ s.slots = fs.map some) ?_
  intro c s v ongoing hover fs hfs
  have hturned := turned_step hes deadline c
  rw [hover] at hturned
  subst hfs
  cases hturned with
  | exhausted ended => exact ongoing.exhausted ended

/-! ### A single region -/

/-- A single attempt fails when it ends by itself with an error. -/
theorem Single.exists_failure {r : Region} {o : Outcome α} {report : Report α} {fs : List Failure}
    (h : Single deadline r o report) (hfailed : report.verdict = .failed (.allFailed fs)) :
    ∃ d m, o = .failure d m ∧ fs = [⟨r, m⟩] ∧ report.calls = [⟨0, r, 0, d, .error⟩] := by
  cases h with
  | won _ _ => cases hfailed
  | @failed d m ho _ =>
    obtain rfl : [⟨r, m⟩] = fs := OperationError.allFailed.inj (Verdict.failed.inj hfailed)
    exact ⟨d, m, ho, rfl, rfl⟩
  | dropped _ _ => cases hfailed
  | unfinished _ _ => cases hfailed

/-! ### All regions -/

section
variable {t : Thresholds} {regions : List Region} {script : Script α}

/-- The failures of a race are those of its attempts, in the order of the regions. -/
theorem failures_lineup {d : Fin regions.length → Nat} {m : Fin regions.length → String}
    (failing : ∀ i, played regions script i = .failure (d i) (m i)) :
    (lineup t regions script).filterMap (·.failure?)
      = (List.finRange regions.length).map fun i => ⟨regions.get i, m i⟩ := by
  rw [lineup_eq, List.filterMap_map]
  refine List.filterMap_eq_map_iff_forall_eq_some.2 fun i _ => ?_
  simp only [Function.comp_apply, Entrant.failure?, Entrant.error?, entrantAt, failing i,
    Option.map_some]

/-- What a failed operation leaves behind, for one region and for several. -/
theorem failed_of_run {fs : List Failure}
    (hfailed : (run t regions script deadline).verdict = .failed (.allFailed fs)) :
    ∃ (d : Fin regions.length → Nat) (m : Fin regions.length → String),
      (∀ i, played regions script i = .failure (d i) (m i)) ∧
      fs = (List.finRange regions.length).map (fun i => ⟨regions.get i, m i⟩) ∧
      (run t regions script deadline).calls = (List.finRange regions.length).map
        fun i => ⟨i, regions.get i, dueAt t regions i, dueAt t regions i + d i, .error⟩ := by
  have hruns := runsTo_run t regions script deadline
  generalize run t regions script deadline = report at hfailed hruns
  cases hruns with
  | none => cases hfailed
  | @single r _ h =>
    obtain ⟨d, m, ho, rfl, hcalls⟩ := h.exists_failure hfailed
    refine ⟨fun _ => d, fun _ => m, fun i => (played_singleton i).trans ho, rfl, ?_⟩
    simp only [dueAt_singleton, Nat.zero_add]
    exact hcalls
  | race _ h =>
    cases h with
    | won _ _ => cases hfailed
    | failed ongoing ended =>
      obtain ⟨d, m, failing⟩ := exists_failures ended ongoing.noValue
      have hfs := OperationError.allFailed.inj (Verdict.failed.inj hfailed)
      exact ⟨d, m, failing, hfs ▸ failures_lineup failing, calls_failedReport ended failing⟩
    | dropped _ _ _ => cases hfailed
    | unfinished _ _ _ _ _ => cases hfailed

/-- Attempts that all fail fail the operation, if it has the time. -/
theorem run_of_failures (h : 0 < regions.length)
    (failing : ∀ i, ∃ d m, played regions script i = .failure d m) :
    ∃ fs, (run t regions script none).verdict = .failed (.allFailed fs) := by
  have hruns := runsTo_run t regions script none
  generalize run t regions script none = report at hruns
  cases hruns with
  | none => exact absurd h (Nat.lt_irrefl 0)
  | single hsingle =>
    obtain ⟨d, m, hplayed⟩ := failing (0 : Fin 1)
    rw [played_singleton] at hplayed
    cases hsingle with
    | won ho _ =>
      rw [hplayed] at ho
      cases ho
    | failed _ _ => exact ⟨_, rfl⟩
    | dropped hlimit _ => cases hlimit
    | unfinished _ ho =>
      rw [hplayed] at ho
      cases ho
  | race _ hending =>
    cases hending with
    | won wins _ =>
      obtain ⟨i, -, d, hd, -⟩ := wins.exists_succeedsAt
      obtain ⟨d', m, hplayed⟩ := failing i
      rw [hplayed] at hd
      cases hd
    | failed _ _ => exact ⟨_, rfl⟩
    | dropped hlimit _ _ => cases hlimit
    | unfinished _ _ _ _ hangs =>
      obtain ⟨e, he, hfinish⟩ := hangs
      obtain ⟨i, rfl⟩ := (mem_lineup t regions script).1 he
      obtain ⟨d, m, hplayed⟩ := failing i
      rw [finish?_entrantAt, finishAt?_eq_none_iff, hplayed] at hfinish
      cases hfinish

end

/-- **When an operation fails, each region has the error of its own attempt at its place, every
attempt was made and ended with it, and nobody waits or is in flight; and an operation all of
whose attempts fail does fail.** -/
theorem failures_complete (t : Thresholds) (regions : List Region) (script : Script α)
    (deadline : Option Nat) (h : 0 < regions.length) :
    let r := run t regions script deadline
    (∀ fs, r.verdict = .failed (.allFailed fs) →
      fs.length = regions.length ∧
      (∃ (d : Fin regions.length → Nat) (m : Fin regions.length → String),
        (∀ i, played regions script i = .failure (d i) (m i)) ∧
        fs = (List.finRange regions.length).map (fun i => ⟨regions.get i, m i⟩) ∧
        r.calls = (List.finRange regions.length).map
          fun i => ⟨i, regions.get i, dueAt t regions i, dueAt t regions i + d i, .error⟩) ∧
      (2 ≤ regions.length → ∃ s : State α,
        (State.ofEntrants (lineup t regions script)).launch.run deadline = (s, r.verdict) ∧
        s.waiting = [] ∧ s.inFlight = [] ∧ s.slots = fs.map some)) ∧
    (deadline = none → (∀ i, ∃ d m, played regions script i = .failure d m) →
      ∃ fs, r.verdict = .failed (.allFailed fs)) := by
  intro r
  constructor
  · intro fs hfailed
    obtain ⟨d, m, failing, hfs, hcalls⟩ := failed_of_run hfailed
    refine ⟨?_, ⟨d, m, failing, hfs, hcalls⟩, fun htwo => ?_⟩
    · rw [hfs, List.length_map, List.length_finRange]
    · have hverdict : ((State.ofEntrants (lineup t regions script)).launch.run deadline).2
          = .failed (.allFailed fs) := by
        rw [← hfailed, show r = contest deadline _ from run_eq_contest htwo deadline]
        rfl
      refine ⟨_, Prod.ext rfl (hverdict.trans hfailed.symm), ?_⟩
      exact slots_of_failed (lineup_inOrder t regions script) deadline fs hverdict
  · rintro rfl failing
    exact run_of_failures h failing

/-- Two attempts to one region, of which the second fails first. -/
theorem failures_complete_of_two :
    let regions : List Region := [⟨"a"⟩, ⟨"a"⟩]
    let script : Script Nat := .ofTable [(⟨"a"⟩, [.failure 900 "slow", .failure 0 "busy"])]
    ∃ fs, (run .standard regions script none).verdict = .failed (.allFailed fs) ∧
      fs.length = 2 ∧ ∃ s : State Nat,
        (State.ofEntrants (lineup .standard regions script)).launch.run none
          = (s, .failed (.allFailed fs)) ∧
        s.waiting = [] ∧ s.inFlight = [] ∧ s.slots = fs.map some := by
  intro regions script
  have hplayed : ∀ i, played regions script i = .failure 900 "slow" ∨
      played regions script i = .failure 0 "busy" := by decide +kernel
  obtain ⟨hall, hexists⟩ := failures_complete .standard regions script none (by decide)
  obtain ⟨fs, hfs⟩ := hexists rfl fun i => (hplayed i).elim (⟨_, _, ·⟩) (⟨_, _, ·⟩)
  obtain ⟨hlength, -, hstate⟩ := hall fs hfs
  rw [hfs] at hstate
  exact ⟨fs, hfs, hlength, hstate (by decide)⟩

end Race
end Hedging
