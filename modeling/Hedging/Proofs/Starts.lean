import Hedging.Proofs.Offsets
import Hedging.Proofs.Race.Decided
import Mathlib.Order.MinMax

/-!
# The starts that a race runs on

A start is an offset, at the horizon at the latest.  What saturates as an offset lies beyond
the horizon, so the two limits together are one: starts are exact below the horizon
(`toNanos_start`), grow with each region up to it (`start_lt`) and stay there
(`start_eq_horizon`).  `schedule_grows_to_horizon` says this of a whole schedule, and that no
attempt of any operation starts later.
-/

namespace Hedging

/-! ### One start -/

namespace Thresholds

variable {t : Thresholds} {i j n : Nat}

theorem toNanos_horizon : horizon.toNanos = 946080000000 * 1000000 := rfl

theorem start_le_horizon (t : Thresholds) (i : Nat) : t.start i ≤ horizon :=
  min_le_right (t.startOffset i) horizon

/-- **A start is exact up to the horizon**, and lies there if its step does not fit into 32 bits. -/
theorem toNanos_start (t : Thresholds) (i : Nat) :
    (t.start i).toNanos = (if i - 1 ≤ 0xFFFFFFFF then min (t.idealOffset i) 946080000000
      else 946080000000) * 1000000 := by
  rw [start, Duration.toNanos_min, toNanos_horizon]
  by_cases h : t.Fits i
  · rw [startOffset_of_fits h, Duration.toNanos_ofMillis, if_pos h.1]
    omega
  · rw [startOffset_of_not_fits h, Duration.toNanos_longest]
    simp only [Duration.limitNanos]
    split
    · -- The step fits, so it is the number of milliseconds that does not.
      rename_i hstep
      have hlong : ¬ t.idealOffset i < 1000 * 0x10000000000000000 := fun hlt => h ⟨hstep, hlt⟩
      omega
    · rfl

/-- **Starts never go back.** -/
theorem monotone_start (t : Thresholds) : Monotone t.start := fun _ _ hij =>
  min_le_min_right horizon (t.monotone_startOffset hij)

/-- **Starts grow with each region** as long as they lie before the horizon. -/
theorem start_lt (h : t.start i < horizon) (hij : i < j) : t.start i < t.start j := by
  have hoffset : t.startOffset i < horizon := (min_lt_iff.1 h).resolve_right (lt_irrefl _)
  have hfits : t.Fits i :=
    fits_iff.2 (lt_of_lt_of_le hoffset (Duration.le_longest horizon)).ne
  calc t.start i ≤ t.startOffset i := min_le_left _ _
    _ < min (t.startOffset j) horizon := lt_min (startOffset_lt hfits hij) hoffset

/-- **Once the horizon is reached, all regions start there.** -/
theorem start_eq_horizon (h : t.start i = horizon) (hij : i ≤ j) : t.start j = horizon :=
  le_antisymm (t.start_le_horizon j) (h.symm.le.trans (t.monotone_start hij))

theorem start_zero (t : Thresholds) : t.start 0 = .zero := by
  apply Duration.toNanos_injective
  rw [toNanos_start, idealOffset_zero, Nat.zero_min]
  rfl

/-- No region but the first starts at once. -/
theorem start_pos (t : Thresholds) (h : 0 < i) : Duration.zero < t.start i := by
  have hzero : Duration.zero < horizon := Duration.lt_iff_toNanos_lt.2 (by decide)
  rw [← t.start_zero] at hzero ⊢
  exact start_lt hzero h

/-- **Regions that start together start at the horizon.** -/
theorem start_eq_horizon_of_eq (h : t.start i = t.start j) (hij : i ≠ j) : t.start i = horizon := by
  by_contra hne
  have hlt : t.start i < horizon := lt_of_le_of_ne (t.start_le_horizon i) hne
  rcases Nat.lt_or_gt_of_ne hij with hlater | hsooner
  · exact (start_lt hlt hlater).ne h
  · exact (start_lt (h ▸ hlt) hsooner).ne h.symm

/-! ### Schedules -/

theorem start_eq_of_getElem? {d : Duration} (h : (t.schedule n)[i]? = some d) : t.start i = d := by
  obtain ⟨hi, hd⟩ := List.getElem?_eq_some_iff.1 h
  simpa only [schedule, List.getElem_map, List.getElem_range] using hd

/-- A shorter schedule is the front of a longer one. -/
theorem take_schedule (t : Thresholds) {m : Nat} (h : m ≤ n) :
    (t.schedule n).take m = t.schedule m := by
  rw [schedule, ← List.map_take, List.take_range, Nat.min_eq_left h]
  rfl

end Thresholds

/-! ### Attempts -/

namespace Race

variable {α : Type}

/-- The calls of a race are those of some of its entrants. -/
theorem Ending.exists_record {es : List (Entrant α)} {deadline : Option Nat} {report : Report α}
    (h : Ending es deadline report) {call : Call} (hcall : call ∈ report.calls) :
    ∃ e ∈ es, ∃ c, e.record c = call := by
  cases h with
  | won wins inTime =>
    obtain ⟨e, he, rfl⟩ := List.mem_map.1 hcall
    exact ⟨e, (List.mem_filter.1 he).1, _, rfl⟩
  | failed ongoing ended =>
    obtain ⟨e, he, rfl⟩ := List.mem_map.1 hcall
    exact ⟨e, he, _, rfl⟩
  | dropped hlimit noValue unended =>
    obtain ⟨e, he, rfl⟩ := List.mem_map.1 hcall
    exact ⟨e, (List.mem_filter.1 he).1, _, rfl⟩
  | unfinished ongoing noLimit started ended hangs =>
    obtain ⟨e, he, rfl⟩ := List.mem_map.1 hcall
    exact ⟨e, (List.mem_filter.1 he).1, _, rfl⟩

/-- **An attempt starts when its region is due.** -/
theorem start_of_mem_calls {t : Thresholds} {regions : List Region} {script : Script α}
    {deadline : Option Nat} {call : Call} (h : call ∈ (run t regions script deadline).calls) :
    ∃ i : Fin regions.length, call.start = (t.start i).toMillis := by
  have hne : regions ≠ [] := fun hnil => by
    subst hnil
    cases h
  rw [run_eq_contest_heard hne, Report.calls_heardFrom] at h
  obtain ⟨e, he, c, rfl⟩ :=
    (contest_ending (lineup_inOrder t regions script) deadline).exists_record h
  obtain ⟨i, rfl⟩ := (mem_lineup t regions script).1 he
  exact ⟨i, (start_record c _).trans (dueAt_eq t regions i)⟩

end Race

/-- **A schedule grows up to the horizon.**  It has a start for each region.  The first one is at
once and every other one later, the exact number of milliseconds or 30 years if this is less, or
if its step does not fit into 32 bits.  Starts never go back; before the horizon each one is later
than those in front of it, at the horizon all are the same, and so no two regions start together
before.  A shorter schedule is the front of a longer one.  Whatever the thresholds, no attempt of
an operation starts after the horizon. -/
theorem schedule_grows_to_horizon (t : Thresholds) (n : Nat) :
    let starts := t.schedule n
    let horizon := Duration.ofMillis 946080000000
    starts.length = n ∧
    (∀ d, starts[0]? = some d → d = .zero) ∧
    (∀ i d, 1 ≤ i → starts[i]? = some d → Duration.zero < d ∧
      d.toNanos = (if i - 1 ≤ 0xFFFFFFFF then min (t.first + (i - 1) * t.step) 946080000000
        else 946080000000) * 1000000) ∧
    (∀ (i j : Nat) d e, i < j → starts[i]? = some d → starts[j]? = some e →
      d ≤ e ∧ (d < horizon → d < e) ∧ (d = horizon → e = horizon)) ∧
    (∀ (i j : Nat) d, i ≠ j → starts[i]? = some d → starts[j]? = some d → d = horizon) ∧
    (∀ m ≤ n, t.schedule m = starts.take m) ∧
    (∀ d ∈ starts, d ≤ horizon) ∧
    ∀ (α : Type) (regions : List Region) (script : Script α) (deadline : Option Nat),
      ∀ call ∈ (Race.run t regions script deadline).calls, call.start ≤ 946080000000 := by
  intro starts horizon
  have hhorizon : Thresholds.horizon = horizon := rfl
  refine ⟨t.length_schedule n, ?zero, ?exact, ?order, ?together, ?front, ?last, ?attempts⟩
  case zero =>
    intro d hd
    rw [← Thresholds.start_eq_of_getElem? hd, Thresholds.start_zero]
  case exact =>
    intro i d hi hd
    rw [← Thresholds.start_eq_of_getElem? hd, Thresholds.toNanos_start, t.idealOffset_of_pos hi]
    exact ⟨t.start_pos hi, rfl⟩
  case order =>
    intro i j d e hij hd he
    rw [← Thresholds.start_eq_of_getElem? hd, ← Thresholds.start_eq_of_getElem? he, ← hhorizon]
    exact ⟨t.monotone_start hij.le, fun h => Thresholds.start_lt h hij,
      fun h => Thresholds.start_eq_horizon h hij.le⟩
  case together =>
    intro i j d hij hd hd'
    have hi := Thresholds.start_eq_of_getElem? hd
    have hj := Thresholds.start_eq_of_getElem? hd'
    rw [← hi, ← hhorizon]
    exact Thresholds.start_eq_horizon_of_eq (hi.trans hj.symm) hij
  case front =>
    intro m hm
    exact (t.take_schedule hm).symm
  case last =>
    intro d hd
    obtain ⟨i, -, rfl⟩ := List.mem_map.1 hd
    exact t.start_le_horizon i
  case attempts =>
    intro α regions script deadline call hcall
    obtain ⟨i, hi⟩ := Race.start_of_mem_calls hcall
    have hle : (t.start i).toNanos ≤ 946080000000 * 1000000 := t.start_le_horizon i
    rw [hi, Duration.toMillis_eq_div]
    omega

/-- Thresholds that end 20 milliseconds before the horizon: the third region starts exactly when it
is due, and the two behind it start together. -/
theorem schedule_grows_to_horizon_of_five :
    let t : Thresholds := { first := 946079999950, step := 30 }
    ∃ d e, (t.schedule 5)[2]? = some d ∧ (t.schedule 5)[3]? = some e ∧
      (t.schedule 5)[4]? = some e ∧ d.toNanos = 946079999980 * 1000000 ∧ d < e ∧
      e = .ofMillis 946080000000 ∧ t.schedule 3 = (t.schedule 5).take 3 := by
  intro t
  obtain ⟨-, -, hexact, horder, htogether, hfront, -⟩ := schedule_grows_to_horizon t 5
  have htwo : (t.schedule 5)[2]? = some (t.start 2) := rfl
  have hthree : (t.schedule 5)[3]? = some (t.start 3) := rfl
  have hfour : (t.schedule 5)[4]? = some (t.start 3) := congrArg some (by decide +kernel)
  have hnanos := (hexact 2 _ (by decide) htwo).2
  exact ⟨_, _, htwo, hthree, hfour, hnanos.trans (by decide),
    (horder 2 3 _ _ (by decide) htwo hthree).2.1 (by decide +kernel),
    htogether 3 4 _ (by decide) hthree hfour, hfront 3 (by decide)⟩

end Hedging
