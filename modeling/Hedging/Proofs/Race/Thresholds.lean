import Hedging.Proofs.Race.Decided
import Hedging.Proofs.Race.Failures

/-!
# What the thresholds of a race decide

Neither what an attempt plays nor how long it takes depends on the thresholds, only when it
starts does.  So they do not decide whether an operation succeeds, which it does if any
attempt would (`exists_won_iff`), or with which errors it fails (`failed_of_thresholds`).
They decide when: an operation ends with its first success (`isLeast_elapsed_of_won`) or with
its last failure (`isGreatest_elapsed_of_failed`), and shorter thresholds make both come
earlier, if they change them at all.
-/

namespace Hedging
namespace Race

variable {α : Type} {t t' : Thresholds} {regions : List Region} {script : Script α}

/-! ### Whether an operation succeeds -/

/-- Somebody wins if anybody has a success to play. -/
theorem exists_wins_of_played {i : Fin regions.length} {d : Nat} {v : α}
    (h : played regions script i = .success d v) (t : Thresholds) :
    ∃ w u k, Wins (lineup t regions script) w u k := by
  have hes := lineup_inOrder t regions script
  have hmem := (mem_lineup t regions script).2 ⟨i, rfl⟩
  obtain ⟨hv, hf⟩ := succeedsAt_iff.1 ⟨d, h, rfl⟩
  obtain ⟨j, hj, -⟩ := Entrant.exists_endTick? ((finish?_entrantAt (t := t) i).trans hf)
  obtain ⟨w, u, k, wins, -⟩ :=
    (contest_ending hes none).exists_wins hmem (by rw [hv]; rfl) hj (inTime_none _)
  exact ⟨w, u, k, wins⟩

/-- **An operation succeeds exactly when some attempt would**, whatever the thresholds. -/
theorem exists_won_iff :
    (∃ index region v, (run t regions script none).verdict = .won index region v) ↔
      ∃ i d v, played regions script i = .success d v := by
  constructor
  · rintro ⟨index, region, v, hwon⟩
    obtain ⟨w, k, wins, -⟩ := exists_wins_of_run hwon
    obtain ⟨i, -, d, hd, -⟩ := wins.exists_succeedsAt
    exact ⟨i, d, v, hd⟩
  · rintro ⟨i, d, v, hplayed⟩
    obtain ⟨w, u, k, wins⟩ := exists_wins_of_played hplayed t
    refine ⟨w.index, w.region, u, ?_⟩
    rw [run_eq_of_wins wins (inTime_none _), Report.verdict_heardFrom]
    rfl

/-- **An operation that fails does so under all thresholds, with the same errors.** -/
theorem failed_of_thresholds {fs : List Failure}
    (h : (run t regions script none).verdict = .failed (.allFailed fs)) (t' : Thresholds) :
    (run t' regions script none).verdict = .failed (.allFailed fs) := by
  obtain ⟨d, m, failing, rfl, -⟩ := failed_of_run h
  have hpos : 0 < regions.length := by
    rcases regions with - | ⟨r, rs⟩
    · cases h
    · exact Nat.succ_pos _
  obtain ⟨fs', hfs'⟩ := run_of_failures (t := t') hpos fun i => ⟨_, _, failing i⟩
  obtain ⟨d', m', failing', rfl, -⟩ := failed_of_run hfs'
  have hm : ∀ i, m' i = m i := fun i => by
    have heq := (failing' i).symm.trans (failing i)
    exact (Outcome.failure.inj heq).2
  simp only [hfs', hm]

/-! ### When it ends -/

/-- **An operation that is won ends with the first success.** -/
theorem isLeast_elapsed_of_won {index : Nat} {region : Region} {v : α}
    (h : (run t regions script none).verdict = .won index region v) :
    IsLeast {f | ∃ i u, SucceedsAt t regions script i f u} (run t regions script none).elapsed := by
  obtain ⟨w, k, wins, -, -, -, hrun⟩ := exists_wins_of_run h
  obtain ⟨i, -, hs, hleast⟩ := wins.least_success
  rw [hrun, Report.elapsed_heardFrom]
  refine ⟨⟨i, v, hs⟩, ?_⟩
  rintro g ⟨j, u, hj⟩
  rcases Prod.Lex.toLex_le_toLex.1 (hleast j g u hj) with hlt | ⟨heq, -⟩
  · exact Nat.le_of_lt hlt
  · exact Nat.le_of_eq heq

/-- **An operation that fails ends with the last failure.** -/
theorem isGreatest_elapsed_of_failed {fs : List Failure}
    (h : (run t regions script none).verdict = .failed (.allFailed fs)) :
    IsGreatest {f | ∃ i, finishAt? t regions script i = some f}
      (run t regions script none).elapsed := by
  have hne : regions ≠ [] := fun hnil => by
    subst hnil
    cases h
  have hrace := contest_ending (lineup_inOrder t regions script) none
  rw [run_eq_contest_heard hne] at h ⊢
  rw [Report.verdict_heardFrom] at h
  rw [Report.elapsed_heardFrom]
  generalize contest none (lineup t regions script) = report at hrace h ⊢
  cases hrace with
  | won _ _ => cases h
  | failed ongoing ended => exact ongoing.isGreatest_finishAt? (List.length_pos_iff.2 hne) ended
  | dropped _ _ _ => cases h
  | unfinished _ _ _ _ _ => cases h

section
variable (first : t.first ≤ t'.first) (step : t.step ≤ t'.step)
include first step

theorem dueAt_le (i : Fin regions.length) : dueAt t regions i ≤ dueAt t' regions i := by
  rw [dueAt_eq, dueAt_eq]
  exact Thresholds.toMillis_start_le first step i

/-- With shorter thresholds the first success comes no later. -/
theorem elapsed_le_of_won {index index' : Nat} {region region' : Region} {v v' : α}
    (h : (run t regions script none).verdict = .won index region v)
    (h' : (run t' regions script none).verdict = .won index' region' v') :
    (run t regions script none).elapsed ≤ (run t' regions script none).elapsed := by
  obtain ⟨i, u, d, hd, hf⟩ := (isLeast_elapsed_of_won h').1
  have hle := (isLeast_elapsed_of_won h).2 ⟨i, u, d, hd, rfl⟩
  have hdue := dueAt_le first step i
  omega

/-- With shorter thresholds the last failure comes no later. -/
theorem elapsed_le_of_failed {fs fs' : List Failure}
    (h : (run t regions script none).verdict = .failed (.allFailed fs))
    (h' : (run t' regions script none).verdict = .failed (.allFailed fs')) :
    (run t regions script none).elapsed ≤ (run t' regions script none).elapsed := by
  obtain ⟨i, hi⟩ := (isGreatest_elapsed_of_failed h).1
  obtain ⟨d, hd, hf⟩ := Option.map_eq_some_iff.1 hi
  have hi' : finishAt? t' regions script i = some (dueAt t' regions i + d) := by
    rw [finishAt?, hd, Option.map_some]
  have hle := (isGreatest_elapsed_of_failed h').2 ⟨i, hi'⟩
  have hdue := dueAt_le first step i
  omega

end

/-- **Thresholds decide when an operation ends and who wins it, never whether it succeeds.**
Under any two of them it succeeds or not alike, namely exactly when some attempt's outcome is a
success, and if it fails then with the same failures; and under shorter ones it ends no later. -/
theorem thresholds_decide_when (t t' : Thresholds) (regions : List Region) (script : Script α) :
    let r := run t regions script none
    let r' := run t' regions script none
    ((∃ index region v, r.verdict = .won index region v) ↔
      ∃ index region v, r'.verdict = .won index region v) ∧
    ((∃ index region v, r.verdict = .won index region v) ↔
      ∃ i d v, played regions script i = .success d v) ∧
    (∀ fs, r.verdict = .failed (.allFailed fs) ↔ r'.verdict = .failed (.allFailed fs)) ∧
    (t.first ≤ t'.first → t.step ≤ t'.step →
      ((∃ index region v, r.verdict = .won index region v) → r.elapsed ≤ r'.elapsed) ∧
      ∀ fs, r.verdict = .failed (.allFailed fs) → r.elapsed ≤ r'.elapsed) := by
  intro r r'
  refine ⟨exists_won_iff.trans exists_won_iff.symm, exists_won_iff, fun fs =>
    ⟨fun h => failed_of_thresholds h t', fun h => failed_of_thresholds h t⟩, ?_⟩
  intro first step
  constructor
  · rintro ⟨index, region, v, hwon⟩
    obtain ⟨index', region', v', hwon'⟩ := exists_won_iff.2 (exists_won_iff.1 ⟨_, _, _, hwon⟩)
    exact elapsed_le_of_won first step hwon hwon'
  · intro fs hfailed
    exact elapsed_le_of_failed first step hfailed (failed_of_thresholds hfailed t')

/-- Under longer thresholds another attempt wins, later; and one failure comes later too. -/
theorem thresholds_decide_when_of_two :
    let regions : List Region := [⟨"a"⟩, ⟨"b"⟩]
    let slow : Thresholds := { first := 1000, step := 100 }
    let script : Script Nat := .ofTable [(⟨"a"⟩, [.success 700 7]), (⟨"b"⟩, [.success 100 8])]
    let failing : Script Nat :=
      .ofTable [(⟨"a"⟩, [.failure 0 "busy"]), (⟨"b"⟩, [.failure 9 "slow"])]
    let fs : List Failure := [⟨⟨"a"⟩, "busy"⟩, ⟨⟨"b"⟩, "slow"⟩]
    (run .standard regions script none).verdict = .won 1 ⟨"b"⟩ 8 ∧
      (run slow regions script none).verdict = .won 0 ⟨"a"⟩ 7 ∧
      (run .standard regions script none).elapsed ≤ (run slow regions script none).elapsed ∧
      (run slow regions failing none).verdict = .failed (.allFailed fs) ∧
      (run .standard regions failing none).elapsed ≤ (run slow regions failing none).elapsed := by
  intro regions slow script failing fs
  have hwon : (run .standard regions script none).verdict = .won 1 ⟨"b"⟩ 8 := by decide +kernel
  have hfailed : (run .standard regions failing none).verdict = .failed (.allFailed fs) := by
    decide +kernel
  obtain ⟨-, -, -, hsooner⟩ := thresholds_decide_when .standard slow regions script
  obtain ⟨-, -, hfails, hsooner'⟩ := thresholds_decide_when .standard slow regions failing
  exact ⟨hwon, by decide +kernel, (hsooner (by decide) (by decide)).1 ⟨_, _, _, hwon⟩,
    (hfails fs).1 hfailed, (hsooner' (by decide) (by decide)).2 fs hfailed⟩

end Race
end Hedging
