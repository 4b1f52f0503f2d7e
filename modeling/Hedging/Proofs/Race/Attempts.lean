import Hedging.Proofs.Race.Ending
import Hedging.Proofs.Schedule

/-!
# The attempts of an operation

For each place in a list of regions: what its attempt plays (`played`), when it starts
(`dueAt`, its entry in the schedule) and when it ends (`finishAt?`).  These are the
entrants of the race (`lineup_eq`), which stand in order (`lineup_inOrder`), and what
a race says in ticks is said here in instants (`hasStarted_iff_of_winner`,
`hasEnded_iff_of_hasStarted`).
-/

namespace Hedging
namespace Race

variable {α : Type}

section
variable (t : Thresholds) (regions : List Region) (script : Script α)

/-- What the attempt to the region at a place plays: the outcome that the script has for the
region after as many attempts as stand in front of it. -/
def played (i : Fin regions.length) : Outcome α :=
  script (regions.get i) ((regions.take i).count (regions.get i))

/-- When the region at a place is due: its entry in the schedule, in milliseconds. -/
def dueAt (i : Fin regions.length) : Nat :=
  ((t.schedule regions.length).get (i.cast (t.length_schedule _).symm)).toMillis

/-- When the attempt to the region at a place ends, if it does. -/
def finishAt? (i : Fin regions.length) : Option Nat :=
  (played regions script i).delay?.map (dueAt t regions i + ·)

/-- The attempt to the region at a place succeeds at instant `f` with the value `v`. -/
def SucceedsAt (i : Fin regions.length) (f : Nat) (v : α) : Prop :=
  ∃ d, played regions script i = .success d v ∧ f = dueAt t regions i + d

/-- The entrant at a place. -/
def entrantAt (i : Fin regions.length) : Entrant α :=
  ⟨i, regions.get i, dueAt t regions i, played regions script i⟩

theorem dueAt_eq (i : Fin regions.length) : dueAt t regions i = (t.start i).toMillis := by
  simp only [dueAt, Thresholds.schedule, List.get_eq_getElem, List.getElem_map, List.getElem_range]
  rfl

theorem dueAt_mono {i j : Fin regions.length} (h : i ≤ j) :
    dueAt t regions i ≤ dueAt t regions j := by
  rw [dueAt_eq, dueAt_eq]
  exact t.toMillis_start_mono h

theorem lineup_eq :
    lineup t regions script = (List.finRange regions.length).map (entrantAt t regions script) := by
  refine List.ext_getElem (by simp [lineup]) fun i hi _ => ?_
  simp only [lineup, List.getElem_map, List.getElem_zipIdx, List.getElem_finRange, entrantAt,
    dueAt_eq, played, Nat.zero_add]
  rfl

theorem length_lineup : (lineup t regions script).length = regions.length := by
  rw [lineup_eq, List.length_map, List.length_finRange]

theorem mem_lineup {e : Entrant α} :
    e ∈ lineup t regions script ↔ ∃ i, entrantAt t regions script i = e := by
  simp only [lineup_eq, List.mem_map, List.mem_finRange, true_and]

/-- A list made from some of the entrants is one made from their places. -/
theorem map_filter_lineup {β : Type} {p : Entrant α → Bool} {q : Fin regions.length → Bool}
    {f : Entrant α → β} {g : Fin regions.length → β}
    (hpq : ∀ i, p (entrantAt t regions script i) = q i)
    (hfg : ∀ i, q i = true → f (entrantAt t regions script i) = g i) :
    ((lineup t regions script).filter p).map f
      = ((List.finRange regions.length).filter q).map g := by
  have hp : p ∘ entrantAt t regions script = q := funext hpq
  rw [lineup_eq, List.filter_map, List.map_map, hp]
  exact List.map_congr_left fun i hi => hfg i (List.mem_filter.1 hi).2

/-- **The entrants of a race stand in order.** -/
theorem lineup_inOrder : InOrder (lineup t regions script) := by
  constructor
  · rw [length_lineup, lineup_eq, List.map_map]
    refine List.ext_getElem (by simp) fun i _ _ => ?_
    simp [entrantAt]
  · rw [lineup_eq, List.pairwise_map]
    exact (List.pairwise_lt_finRange _).imp fun hij => dueAt_mono t regions (Fin.le_of_lt hij)

variable {t regions script}

theorem finish?_entrantAt (i : Fin regions.length) :
    (entrantAt t regions script i).finish? = finishAt? t regions script i := rfl

theorem succeedsAt_iff {i : Fin regions.length} {f : Nat} {v : α} :
    SucceedsAt t regions script i f v ↔ (entrantAt t regions script i).value? = some v ∧
      finishAt? t regions script i = some f := by
  unfold SucceedsAt Entrant.value? finishAt? entrantAt
  cases played regions script i <;> simp [Outcome.delay?, eq_comm]

/-- An attempt that fails ends when its delay is over. -/
theorem finishAt?_of_failure {i : Fin regions.length} {d : Nat} {m : String}
    (h : played regions script i = .failure d m) :
    finishAt? t regions script i = some (dueAt t regions i + d) := by
  rw [finishAt?, h]
  rfl

theorem finishAt?_eq_none_iff {i : Fin regions.length} :
    finishAt? t regions script i = none ↔ played regions script i = .hang := by
  unfold finishAt?
  cases played regions script i <;> simp [Outcome.delay?]

end

/-! ### From ticks to instants -/

namespace Entrant

variable {c k : Nat}

/-- Whoever starts by the tick at which `w` ends starts before its instant, or at this instant
as `w` does. -/
theorem hasStarted_iff_of_winner {w e : Entrant α} (hw : w.endTick? = some k) :
    e.hasStarted k = true ↔ e.start < k / 3 ∨ e.start = k / 3 ∧ w.start = k / 3 := by
  obtain ⟨d, hd, hk⟩ := endTick?_eq_some_iff.1 hw
  rw [hasStarted_iff]
  simp only [startTick]
  split at hk <;> omega

/-- Of those that have started by the end of an instant or by its first tick, those have ended
whose attempts end by this instant. -/
theorem hasEnded_iff_of_hasStarted {e : Entrant α} (hc : c % 3 ≠ 1) (hs : e.hasStarted c = true) :
    e.hasEnded c = true ↔ ∃ f, e.finish? = some f ∧ f ≤ c / 3 := by
  rw [hasEnded_iff]
  constructor
  · rintro ⟨j, hj, hjc⟩
    exact ⟨j / 3, (finish?_of_endTick? hj).1, Nat.div_le_div_right hjc⟩
  · rintro ⟨f, hf, hfc⟩
    obtain ⟨d, hd, rfl⟩ := Option.map_eq_some_iff.1 hf
    refine ⟨_, endTick?_eq_some_iff.2 ⟨d, hd, rfl⟩, ?_⟩
    have hs := hasStarted_iff.1 hs
    simp only [startTick] at hs
    split <;> omega

end Entrant

/-! ### Operations that race -/

/-- Two or more regions race. -/
theorem run_eq_contest {t : Thresholds} {regions : List Region} {script : Script α}
    (h : 2 ≤ regions.length) (deadline : Option Nat) :
    run t regions script deadline = contest deadline (lineup t regions script) := by
  rcases regions with - | ⟨r, - | ⟨r', rs⟩⟩
  · exact absurd h (by simp)
  · exact absurd h (by simp)
  · rfl

/-- The winner of a race is an attempt of the operation that succeeds. -/
theorem Wins.exists_succeedsAt {t : Thresholds} {regions : List Region} {script : Script α}
    {w : Entrant α} {v : α} {k : Nat} (h : Wins (lineup t regions script) w v k) :
    ∃ i, entrantAt t regions script i = w ∧ SucceedsAt t regions script i (k / 3) v := by
  obtain ⟨i, rfl⟩ := (mem_lineup t regions script).1 h.mem
  exact ⟨i, rfl, succeedsAt_iff.2 ⟨h.value, (Entrant.finish?_of_endTick? h.tick).1⟩⟩

/-- **An operation on two or more regions ends as a race.** -/
theorem run_ending (t : Thresholds) (regions : List Region) (script : Script α)
    (h : 2 ≤ regions.length) (deadline : Option Nat) :
    Ending (lineup t regions script) deadline (run t regions script deadline) := by
  rw [run_eq_contest h]
  exact contest_ending (lineup_inOrder t regions script) deadline

/-- **The calls of an operation on several regions are those that the loop has kept.**  The report
has one call at most for each place, so the loop has kept no second one. -/
theorem calls_run_perm (t : Thresholds) (regions : List Region) (script : Script α)
    (h : 2 ≤ regions.length) (deadline : Option Nat) :
    (run t regions script deadline).calls.Perm
      ((State.ofEntrants (lineup t regions script)).launch.run deadline).1.calls := by
  rw [run_eq_contest h]
  exact callsInOrder_perm (lineup_inOrder t regions script) deadline

end Race
end Hedging
