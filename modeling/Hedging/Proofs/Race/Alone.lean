import Hedging.Proofs.Race.Attempts

/-!
# Operations on any number of regions

A single attempt starts at once and is not part of a race.  It ends the operation when it
ends by itself by the deadline, is given up at the deadline otherwise, and waits for ever
without one (`alone_ending`).  So an operation does nothing, makes one attempt or is a race
(`runsTo_run`).
-/

namespace Hedging
namespace Race

variable {α : Type}

/-- How an operation on a single region ends. -/
inductive Single (deadline : Option Nat) (r : Region) (o : Outcome α) : Report α → Prop
  | won {d : Nat} {v : α} (ho : o = .success d v) (inTime : InTime deadline d) :
      Single deadline r o ⟨.won 0 r v, d, [⟨0, r, 0, d, .ok⟩], []⟩
  | failed {d : Nat} {m : String} (ho : o = .failure d m) (inTime : InTime deadline d) :
      Single deadline r o ⟨.failed (.allFailed [⟨r, m⟩]), d, [⟨0, r, 0, d, .error⟩], []⟩
  | dropped {limit : Nat} (hlimit : deadline = some limit)
      (late : ∀ d, o.delay? = some d → limit < d) :
      Single deadline r o ⟨.dropped, limit, [⟨0, r, 0, limit, .cancelled⟩], []⟩
  | unfinished (noLimit : deadline = none) (ho : o = .hang) :
      Single deadline r o ⟨.unfinished, 0, [], []⟩

/-- An attempt that ends too late is dropped. -/
theorem single_of_isLate {deadline : Option Nat} {r : Region} {o : Outcome α} {d : Nat}
    (hd : o.delay? = some d) (h : Report.isLate deadline d = true) :
    Single deadline r o (alone.dropped r deadline) := by
  obtain ⟨limit, rfl, hlt⟩ := exists_of_isLate h
  refine .dropped rfl fun d' hd' => ?_
  obtain rfl : d = d' := Option.some.inj (hd.symm.trans hd')
  exact hlt

/-- **Every operation on a single region ends so.** -/
theorem alone_ending (deadline : Option Nat) (r : Region) (o : Outcome α) :
    Single deadline r o (alone deadline r o) := by
  cases o with
  | success d v =>
    cases hlate : Report.isLate deadline d with
    | true =>
      simp only [alone, hlate, if_true]
      exact single_of_isLate rfl hlate
    | false =>
      simp only [alone, hlate, Bool.false_eq_true, if_false]
      exact .won rfl (isLate_eq_false_iff.1 hlate)
  | failure d m =>
    cases hlate : Report.isLate deadline d with
    | true =>
      simp only [alone, hlate, if_true]
      exact single_of_isLate rfl hlate
    | false =>
      simp only [alone, hlate, Bool.false_eq_true, if_false]
      exact .failed rfl (isLate_eq_false_iff.1 hlate)
  | hang =>
    cases deadline with
    | none => exact .unfinished rfl rfl
    | some limit =>
      refine .dropped rfl fun d hd => ?_
      cases hd

section
variable {t : Thresholds} {script : Script α} {r : Region}

/-- The only attempt of an operation on one region. -/
theorem played_singleton (i : Fin [r].length) : played [r] script i = script r 0 := by
  obtain rfl : i = (0 : Fin 1) := Subsingleton.elim (α := Fin 1) i 0
  rfl

/-- It starts at once. -/
theorem dueAt_singleton (i : Fin [r].length) : dueAt t [r] i = 0 := by
  obtain rfl : i = (0 : Fin 1) := Subsingleton.elim (α := Fin 1) i 0
  rw [dueAt_eq]
  exact t.toMillis_start_zero

end

/-- How an operation on some regions ends. -/
inductive RunsTo (t : Thresholds) (script : Script α) (deadline : Option Nat) :
    List Region → Report α → Prop
  | none : RunsTo t script deadline [] (.immediate .noRegions)
  | single {r : Region} {report : Report α} (h : Single deadline r (script r 0) report) :
      RunsTo t script deadline [r] report
  | race {regions : List Region} {report : Report α} (two : 2 ≤ regions.length)
      (h : Ending (lineup t regions script) deadline report) :
      RunsTo t script deadline regions report

/-- **Every operation ends so.** -/
theorem runsTo_run (t : Thresholds) (regions : List Region) (script : Script α)
    (deadline : Option Nat) : RunsTo t script deadline regions (run t regions script deadline) := by
  rcases regions with - | ⟨r, - | ⟨r', rs⟩⟩
  · exact .none
  · exact .single (alone_ending deadline r (script r 0))
  · exact .race (by simp) (run_ending t (r :: r' :: rs) script (by simp) deadline)

end Race
end Hedging
