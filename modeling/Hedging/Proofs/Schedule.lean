import Hedging.Strategy.Schedule

/-!
# The starts of a race in milliseconds

A checked product or sum of spans fails exactly when the exact result does not fit
(`mul?_eq_none_iff`, `add?_eq_none_iff`).  So the start of the region at index `i`
is the exact number of milliseconds, `idealOffset`, unless its step does not fit
into 32 bits or the horizon comes first (`toMillis_start`), starts never go back
(`toMillis_start_mono`), and shorter thresholds start no region later
(`toMillis_start_le`).
-/

namespace Hedging
namespace Duration

/-- The nanoseconds of the first span that is too long. -/
def limitNanos : Nat := 18446744073709551616000000000

theorem toNanos_lt (d : Duration) : d.toNanos < limitNanos := by
  have h1 := d.secs_lt
  have h2 := d.nanos_lt
  simp only [toNanos, limitNanos]
  omega

theorem toMillis_eq_div (d : Duration) : d.toMillis = d.toNanos / 1000000 := by
  simp only [toMillis, toNanos]
  omega

theorem toNanos_ofMillis {n : Nat} (h : n < 1000 * 0x10000000000000000) :
    (ofMillis n h).toNanos = n * 1000000 := by
  simp only [ofMillis, toNanos]
  omega

theorem toNanos_min (a b : Duration) : (min a b).toNanos = min a.toNanos b.toNanos := by
  have h : min a b = if a.toNanos ≤ b.toNanos then a else b := rfl
  rw [h]
  split <;> omega

/-- A product fails exactly when it is too long. -/
theorem mul?_eq_none_iff {d : Duration} {k : Nat} :
    d.mul? k = none ↔ limitNanos ≤ d.toNanos * k := by
  have h : (d.secs * 1000000000 + d.nanos) * k = d.secs * k * 1000000000 + d.nanos * k := by
    rw [Nat.add_mul, Nat.mul_right_comm]
  simp only [mul?, toNanos, limitNanos, h, dite_eq_right_iff, reduceCtorEq, imp_false]
  omega

/-- A sum fails exactly when it is too long. -/
theorem add?_eq_none_iff {a b : Duration} :
    a.add? b = none ↔ limitNanos ≤ a.toNanos + b.toNanos := by
  simp only [add?, toNanos, limitNanos, dite_eq_right_iff, reduceCtorEq, imp_false]
  omega

end Duration

namespace Thresholds

/-- The exact number of milliseconds before the region at index `i` is due. -/
def idealOffset (t : Thresholds) (i : Nat) : Nat := if i = 0 then 0 else t.first + (i - 1) * t.step

/-- The horizon in milliseconds. -/
def horizonMillis : Nat := 946080000000

/-- Steps and the first wait together are exact as long as they fit. -/
theorem toNanos_steps (t : Thresholds) (k : Nat) :
    (((t.stepWait.mul? k).bind (·.add? t.firstWait)).getD Duration.longest).toNanos
      = min ((t.first + k * t.step) * 1000000) (Duration.limitNanos - 1) := by
  have hstep : t.stepWait.toNanos * k = k * t.step * 1000000 := by
    rw [stepWait, Duration.toNanos_ofMillis, Nat.mul_right_comm, Nat.mul_comm t.step]
  have hfirst : t.firstWait.toNanos = t.first * 1000000 := Duration.toNanos_ofMillis _
  have hlongest : Duration.longest.toNanos = Duration.limitNanos - 1 := rfl
  cases hm : t.stepWait.mul? k with
  | none =>
    have hle := Duration.mul?_eq_none_iff.1 hm
    rw [Option.bind_none, Option.getD_none, hlongest]
    omega
  | some d =>
    have hd := Duration.toNanos_mul? hm
    rw [Option.bind_some]
    cases ha : d.add? t.firstWait with
    | none =>
      have hle := Duration.add?_eq_none_iff.1 ha
      rw [Option.getD_none, hlongest]
      omega
    | some e =>
      have he := Duration.toNanos_add? ha
      have hlt := e.toNanos_lt
      rw [Option.getD_some]
      omega

/-- **When a region starts.**  The exact offset, at the horizon at the latest; a step
that does not fit into 32 bits puts the region at the horizon. -/
theorem toMillis_start (t : Thresholds) (i : Nat) :
    (t.start i).toMillis
      = if i - 1 < 0x100000000 then min (t.idealOffset i) horizonMillis else horizonMillis := by
  have hhorizon : horizon.toNanos = 946080000000000000 := rfl
  rw [start, Duration.toMillis_eq_div, Duration.toNanos_min, hhorizon]
  simp only [startOffset, idealOffset, horizonMillis]
  by_cases hi : i = 0
  · have hzero : Duration.zero.toNanos = 0 := rfl
    rw [if_pos hi, if_pos hi, hzero]
    split <;> omega
  · rw [if_neg hi, if_neg hi]
    split
    · rw [toNanos_steps]
      simp only [Duration.limitNanos]
      omega
    · rfl

theorem toMillis_start_zero (t : Thresholds) : (t.start 0).toMillis = 0 := by
  rw [toMillis_start]
  rfl

/-- **Starts never go back.** -/
theorem toMillis_start_mono (t : Thresholds) {i j : Nat} (h : i ≤ j) :
    (t.start i).toMillis ≤ (t.start j).toMillis := by
  have hideal : t.idealOffset i ≤ t.idealOffset j := by
    have hmul := Nat.mul_le_mul_right t.step (Nat.sub_le_sub_right h 1)
    simp only [idealOffset]
    repeat' split
    all_goals omega
  rw [toMillis_start, toMillis_start]
  repeat' split
  all_goals omega

/-- **Shorter thresholds start no region later.** -/
theorem toMillis_start_le {t t' : Thresholds} (first : t.first ≤ t'.first)
    (step : t.step ≤ t'.step) (i : Nat) : (t.start i).toMillis ≤ (t'.start i).toMillis := by
  have hideal : t.idealOffset i ≤ t'.idealOffset i := by
    have hmul := Nat.mul_le_mul_left (i - 1) step
    simp only [idealOffset]
    split <;> omega
  rw [toMillis_start, toMillis_start]
  split <;> omega

/-- No region but the first starts at once. -/
theorem toMillis_start_pos (t : Thresholds) {i : Nat} (h : 0 < i) : 0 < (t.start i).toMillis := by
  have hideal : 0 < t.idealOffset i := by
    have := t.first_pos
    simp only [idealOffset]
    split <;> omega
  rw [toMillis_start]
  simp only [horizonMillis]
  split <;> omega

end Thresholds
end Hedging
