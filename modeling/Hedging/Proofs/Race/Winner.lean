import Hedging.Proofs.Race.Attempts
import Mathlib.Data.Prod.Lex
import Mathlib.Order.Bounds.Basic

/-!
# The winner of a race

Ticks order the ends of a race, but who wins can be said in instants: of all attempts
that succeed, the first to end, and of several that end at one instant the first in the
list (`least_success_wins`).  Within an instant the order of ticks agrees with that of
places, because an attempt that starts at an instant stands behind all that started
before it (`Wins.finish_le`).
-/

namespace Hedging
namespace Race

variable {α : Type} {es : List (Entrant α)} {deadline : Option Nat}

/-- **The winner has the least instant and place of all that have a value.** -/
theorem Wins.finish_le (hes : InOrder es) {w e : Entrant α} {v : α} {k f : Nat} (h : Wins es w v k)
    (he : e ∈ es) (hv : e.value?.isSome = true) (hf : e.finish? = some f) :
    k / 3 < f ∨ k / 3 = f ∧ w.index ≤ e.index := by
  obtain ⟨j, hj, rfl⟩ := Entrant.exists_endTick? hf
  rcases h.least e he hv j hj with hkj | ⟨rfl, hi⟩
  · rcases Nat.lt_or_eq_of_le (Nat.div_le_div_right (Nat.le_of_lt hkj)) with hlt | heq
    · exact .inl hlt
    · -- At one instant, a later tick is that of an attempt without delay.
      refine .inr ⟨heq, Nat.not_lt.1 fun hi => ?_⟩
      have hstart := hes.start_le_of_index_lt he h.mem hi
      have hw := Entrant.startTick_lt h.tick
      have hmod := (Entrant.finish?_of_endTick? h.tick).2
      have hmod' := (Entrant.finish?_of_endTick? hj).2
      obtain ⟨d, -, hd⟩ := Entrant.endTick?_eq_some_iff.1 hj
      simp only [Entrant.startTick] at hw
      split at hd <;> omega
  · exact .inr ⟨rfl, hi⟩

/-- When all attempts have ended, the clock shows the last end. -/
theorem Ongoing.isGreatest_finish {c : Nat} (h : Ongoing es deadline c) (hne : es ≠ [])
    (ended : ∀ e ∈ es, e.hasEnded c = true) :
    IsGreatest {f | ∃ e ∈ es, e.finish? = some f} (c / 3) := by
  have hfinish : ∀ e ∈ es, ∃ f, e.finish? = some f ∧ e.start ≤ f ∧ f ≤ c / 3 := by
    intro e he
    obtain ⟨j, hj, hjc⟩ := Entrant.hasEnded_iff.1 (ended e he)
    have hs := Entrant.startTick_lt hj
    refine ⟨j / 3, (Entrant.finish?_of_endTick? hj).1, ?_, Nat.div_le_div_right hjc⟩
    simp only [Entrant.startTick] at hs
    omega
  constructor
  · show ∃ e ∈ es, e.finish? = some (c / 3)
    rcases h.reached with hzero | ⟨e, he, hstart | hend⟩
    · obtain ⟨e, he⟩ := List.exists_mem_of_ne_nil es hne
      obtain ⟨f, hf, -, hle⟩ := hfinish e he
      obtain rfl : f = c / 3 := by omega
      exact ⟨e, he, hf⟩
    · obtain ⟨f, hf, hge, hle⟩ := hfinish e he
      obtain rfl : f = c / 3 := by omega
      exact ⟨e, he, hf⟩
    · exact ⟨e, he, hend⟩
  · rintro f ⟨e, he, hf⟩
    obtain ⟨g, hg, -, hle⟩ := hfinish e he
    obtain rfl : g = f := Option.some.inj (hg.symm.trans hf)
    exact hle

section
variable {t : Thresholds} {regions : List Region} {script : Script α}

/-- In instants: the winner is the least attempt that succeeds. -/
theorem Wins.least_success {w : Entrant α} {v : α} {k : Nat}
    (h : Wins (lineup t regions script) w v k) :
    ∃ i, entrantAt t regions script i = w ∧ SucceedsAt t regions script i (k / 3) v ∧
      ∀ j g u, SucceedsAt t regions script j g u → toLex (k / 3, i) ≤ toLex (g, j) := by
  obtain ⟨i, rfl, hs⟩ := h.exists_succeedsAt
  refine ⟨i, rfl, hs, fun j g u hj => Prod.Lex.toLex_le_toLex.2 ?_⟩
  obtain ⟨hv, hg⟩ := succeedsAt_iff.1 hj
  have hmem := (mem_lineup t regions script).2 ⟨j, rfl⟩
  rw [← finish?_entrantAt] at hg
  exact h.finish_le (lineup_inOrder t regions script) hmem (by rw [hv]; rfl) hg

/-- When all attempts have ended, the operation ends with the last of them. -/
theorem Ongoing.isGreatest_finishAt? {c : Nat} (h : Ongoing (lineup t regions script) deadline c)
    (hpos : 0 < regions.length) (ended : ∀ e ∈ lineup t regions script, e.hasEnded c = true) :
    IsGreatest {f | ∃ i, finishAt? t regions script i = some f} (c / 3) := by
  have hne : lineup t regions script ≠ [] := by
    rw [← List.length_pos_iff, length_lineup]
    exact hpos
  have hlast := h.isGreatest_finish hne ended
  have hset : {f | ∃ e ∈ lineup t regions script, e.finish? = some f}
      = {f | ∃ i, finishAt? t regions script i = some f} := by
    ext f
    simp only [mem_lineup, Set.mem_ofPred_eq, exists_exists_eq_and, finish?_entrantAt]
  rw [← hset]
  exact hlast

/-- An attempt that succeeds ends, so none does if all that end by some tick have no value. -/
theorem not_succeedsAt_of_ended {c : Nat}
    (noValue : ∀ e ∈ lineup t regions script, e.hasEnded c = true → e.value? = none)
    (ended : ∀ e ∈ lineup t regions script, ∀ k, e.endTick? = some k → k ≤ c)
    (i : Fin regions.length) (f : Nat) (v : α) : ¬ SucceedsAt t regions script i f v := by
  intro hs
  obtain ⟨hv, hf⟩ := succeedsAt_iff.1 hs
  have hmem := (mem_lineup t regions script).2 ⟨i, rfl⟩
  rw [← finish?_entrantAt] at hf
  obtain ⟨k, hk, -⟩ := Entrant.exists_endTick? hf
  have hnone := noValue _ hmem (Entrant.hasEnded_iff.2 ⟨k, hk, ended _ hmem k hk⟩)
  simp [hnone] at hv

end

/-- **Of all attempts that succeed, the first in time wins, and of several at one instant the
first in the list.**  If none succeeds and none hangs, the operation fails at the instant at
which the last attempt ends. -/
theorem least_success_wins (t : Thresholds) (regions : List Region) (script : Script α)
    (h : 2 ≤ regions.length) :
    ((∃ i f v, SucceedsAt t regions script i f v) →
      ∃ w f v, SucceedsAt t regions script w f v ∧
        (∀ i g u, SucceedsAt t regions script i g u → toLex (f, w) ≤ toLex (g, i)) ∧
        (run t regions script none).verdict = .won w (regions.get w) v ∧
        (run t regions script none).elapsed = f) ∧
    ((∀ i f v, ¬ SucceedsAt t regions script i f v) → (∀ i, played regions script i ≠ .hang) →
      (∃ fs, (run t regions script none).verdict = .failed (.allFailed fs)) ∧
        IsGreatest {f | ∃ i, finishAt? t regions script i = some f}
          (run t regions script none).elapsed) := by
  have hending := run_ending t regions script h none
  generalize run t regions script none = r at hending
  cases hending with
  | won wins _ =>
    obtain ⟨i, rfl, hs, hleast⟩ := wins.least_success
    exact ⟨fun _ => ⟨i, _, _, hs, hleast, rfl, rfl⟩, fun hno => absurd hs (hno i _ _)⟩
  | failed ongoing ended =>
    constructor
    · rintro ⟨i, f, v, hs⟩
      have hnone := not_succeedsAt_of_ended ongoing.noValue
        fun e he _ => Entrant.endTick?_le_of_hasEnded (ended e he)
      exact absurd hs (hnone i f v)
    · intro _ _
      exact ⟨⟨_, rfl⟩, ongoing.isGreatest_finishAt? (by omega) ended⟩
  | dropped hlimit _ _ => cases hlimit
  | unfinished ongoing _ _ ended hangs =>
    constructor
    · rintro ⟨i, f, v, hs⟩
      exact absurd hs (not_succeedsAt_of_ended ongoing.noValue ended i f v)
    · intro _ hplayed
      obtain ⟨e, he, hfinish⟩ := hangs
      obtain ⟨i, rfl⟩ := (mem_lineup t regions script).1 he
      rw [finish?_entrantAt] at hfinish
      exact absurd (finishAt?_eq_none_iff.1 hfinish) (hplayed i)

/-- Two attempts to one region succeed at one instant, or all attempts fail. -/
theorem least_success_wins_of_tie :
    let regions : List Region := [⟨"a"⟩, ⟨"b"⟩, ⟨"a"⟩]
    let tie : Script Nat := .ofTable [(⟨"a"⟩, [.success 600 7, .success 0 8])]
    let failing : Script Nat := .ofTable [(⟨"a"⟩, [.failure 900 "busy"])]
    (∃ w f v, SucceedsAt .standard regions tie w f v ∧
      (∀ i g u, SucceedsAt .standard regions tie i g u → toLex (f, w) ≤ toLex (g, i)) ∧
      (run .standard regions tie none).verdict = .won w (regions.get w) v ∧
      (run .standard regions tie none).elapsed = f) ∧
    (∃ fs, (run .standard regions failing none).verdict = .failed (.allFailed fs)) ∧
      IsGreatest {f | ∃ i, finishAt? .standard regions failing i = some f}
        (run .standard regions failing none).elapsed := by
  intro regions tie failing
  have hplayed : ∀ i, played regions failing i = .failure 900 "busy" ∨
      played regions failing i = Script.unscripted := by decide +kernel
  refine ⟨(least_success_wins .standard regions tie (by decide)).1
      ⟨0, 600, 7, 600, by decide +kernel, by decide +kernel⟩,
    (least_success_wins .standard regions failing (by decide)).2 ?_ ?_⟩
  · rintro i f v ⟨d, hd, -⟩
    rcases hplayed i with hi | hi <;> simp [hi, Script.unscripted] at hd
  · intro i hd
    rcases hplayed i with hi | hi <;> simp [hi, Script.unscripted] at hd

end Race
end Hedging
