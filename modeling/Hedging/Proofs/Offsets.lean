import Hedging.Proofs.Words
import Mathlib.Order.Lattice
import Mathlib.Order.Monotone.Basic

/-!
# Exact and saturated offsets

A region's offset is exact or the longest span.  It is exact if its step fits into 32 bits and
the number of its milliseconds into a span (`Fits`), and then those in front of it are exact too
(`Fits.mono`), so the offsets grow with each region until the first one that does not fit, and
stay the longest span from there on (`offset_exact_or_longest`).
-/

namespace Hedging

/-! ### The order of spans -/

namespace Duration

theorem toNanos_injective : Function.Injective toNanos := by
  rintro ⟨s, n, hs, hn⟩ ⟨s', n', hs', hn'⟩ h
  obtain ⟨rfl, rfl⟩ : s = s' ∧ n = n' := by
    simp only [toNanos] at h
    omega
  rfl

/-- Spans are ordered by their length. -/
instance : LinearOrder Duration where
  lt a b := a.toNanos < b.toNanos
  le_refl a := Nat.le_refl a.toNanos
  le_trans a b c := Nat.le_trans
  lt_iff_le_not_ge a b := Nat.lt_iff_le_and_not_ge
  le_antisymm a b h h' := toNanos_injective (Nat.le_antisymm h h')
  le_total a b := Nat.le_total a.toNanos b.toNanos
  toDecidableLE := inferInstance
  min := min
  min_def a b := rfl

theorem le_iff_toNanos_le {a b : Duration} : a ≤ b ↔ a.toNanos ≤ b.toNanos := Iff.rfl

theorem lt_iff_toNanos_lt {a b : Duration} : a < b ↔ a.toNanos < b.toNanos := Iff.rfl

theorem toNanos_longest : longest.toNanos = limitNanos - 1 := rfl

theorem le_longest (d : Duration) : d ≤ longest := by
  have := d.toNanos_lt
  rw [le_iff_toNanos_le, toNanos_longest]
  omega

end Duration

namespace Thresholds

variable {t : Thresholds} {i j : Nat}

/-! ### The offsets that fit -/

/-- The step of the region at index `i` fits into 32 bits, and its offset into a span. -/
def Fits (t : Thresholds) (i : Nat) : Prop :=
  i - 1 ≤ 0xFFFFFFFF ∧ t.idealOffset i < 1000 * 0x10000000000000000

theorem idealOffset_zero (t : Thresholds) : t.idealOffset 0 = 0 := rfl

theorem idealOffset_of_pos (t : Thresholds) (h : 0 < i) :
    t.idealOffset i = t.first + (i - 1) * t.step :=
  if_neg (Nat.pos_iff_ne_zero.1 h)

/-- The first region starts at once. -/
theorem fits_zero (t : Thresholds) : t.Fits 0 :=
  ⟨Nat.zero_le _, lt_of_eq_of_lt t.idealOffset_zero (by decide)⟩

/-- Each region is due later than the one in front of it, as far as numbers go. -/
theorem strictMono_idealOffset (t : Thresholds) : StrictMono t.idealOffset := by
  refine strictMono_nat_of_lt_succ fun i => ?_
  have hfirst := t.first_pos
  have hstep := t.step_pos
  rcases i with - | i
  · rw [t.idealOffset_of_pos (Nat.succ_pos 0)]
    exact Nat.lt_of_lt_of_le hfirst (Nat.le_add_right _ _)
  · rw [t.idealOffset_of_pos (Nat.succ_pos i), t.idealOffset_of_pos (Nat.succ_pos _)]
    exact Nat.add_lt_add_left (Nat.mul_lt_mul_of_pos_right (Nat.lt_succ_self i) hstep) _

/-- **If an offset fits, so do those in front of it.** -/
theorem Fits.mono (h : t.Fits j) (hij : i ≤ j) : t.Fits i :=
  ⟨Nat.le_trans (Nat.sub_le_sub_right hij 1) h.1,
    Nat.lt_of_le_of_lt (t.strictMono_idealOffset.monotone hij) h.2⟩

/-- **An offset that fits is exact.** -/
theorem startOffset_of_fits (h : t.Fits i) :
    t.startOffset i = Duration.ofMillis (t.idealOffset i) h.2 := by
  apply Duration.toNanos_injective
  rw [Duration.toNanos_ofMillis]
  by_cases hi : i = 0
  · rw [hi, idealOffset_zero, startOffset, if_pos rfl]
    rfl
  · have hfits := h.2
    rw [t.idealOffset_of_pos (Nat.pos_of_ne_zero hi)] at hfits ⊢
    rw [startOffset, if_neg hi, if_pos (Nat.lt_succ_of_le h.1), toNanos_steps]
    simp only [Duration.limitNanos]
    omega

/-- **An offset that does not fit is the longest span.** -/
theorem startOffset_of_not_fits (h : ¬ t.Fits i) : t.startOffset i = Duration.longest := by
  by_cases hi : i = 0
  · rw [hi] at h
    exact absurd t.fits_zero h
  rw [startOffset, if_neg hi]
  split
  · rename_i hstep
    have hlong : ¬ t.first + (i - 1) * t.step < 1000 * 0x10000000000000000 := fun hlt =>
      h ⟨Nat.le_of_lt_succ hstep, (t.idealOffset_of_pos (Nat.pos_of_ne_zero hi)).symm ▸ hlt⟩
    apply Duration.toNanos_injective
    rw [toNanos_steps, Duration.toNanos_longest]
    simp only [Duration.limitNanos]
    omega
  · rfl

theorem startOffset_ne_longest (h : t.Fits i) : t.startOffset i ≠ Duration.longest := by
  intro heq
  have hnanos := congrArg Duration.nanos heq
  rw [startOffset_of_fits h] at hnanos
  simp only [Duration.ofMillis, Duration.longest] at hnanos
  omega

/-- The offsets that fit are those below the longest span. -/
theorem fits_iff : t.Fits i ↔ t.startOffset i ≠ Duration.longest :=
  ⟨startOffset_ne_longest, fun h => by_contra fun hnot => h (startOffset_of_not_fits hnot)⟩

/-- **Offsets grow with each region** as long as they fit. -/
theorem startOffset_lt (h : t.Fits i) (hij : i < j) : t.startOffset i < t.startOffset j := by
  by_cases hj : t.Fits j
  · rw [startOffset_of_fits h, startOffset_of_fits hj, Duration.lt_iff_toNanos_lt,
      Duration.toNanos_ofMillis, Duration.toNanos_ofMillis]
    exact Nat.mul_lt_mul_of_pos_right (t.strictMono_idealOffset hij) (by decide)
  · rw [startOffset_of_not_fits hj]
    exact lt_of_le_of_ne (Duration.le_longest _) (startOffset_ne_longest h)

/-- **Offsets never go back.** -/
theorem monotone_startOffset (t : Thresholds) : Monotone t.startOffset := by
  intro i j hij
  rcases Nat.eq_or_lt_of_le hij with rfl | hlt
  · exact le_refl _
  by_cases h : t.Fits i
  · exact le_of_lt (startOffset_lt h hlt)
  · rw [startOffset_of_not_fits fun hj => h (hj.mono hij)]
    exact Duration.le_longest _

theorem toInt_ofInt {n : Nat} (h : n < 0x8000000000000000) : (Int64.ofInt n).toInt = n :=
  Int64.toInt_ofInt_of_le (by omega) (by omega)

/-- **All thresholds are made from two positive numbers of milliseconds.** -/
theorem exists_ofMillis (t : Thresholds) :
    ∃ first step : Int64, ofMillis first step = .ok t ∧ first.toInt = t.first ∧
      step.toInt = t.step := by
  have hfirst := toInt_ofInt t.first_lt
  have hstep := toInt_ofInt t.step_lt
  exact ⟨_, _, ofMillis_eq_ok_iff.2 ⟨hfirst, hstep⟩, hfirst, hstep⟩

/-- **Offsets are exact or saturated.**  The first region has no offset.  That of a later one is
the exact number of milliseconds as long as its step fits into 32 bits and this number into a
span, and the longest span in every other case; words compute it at every index of 64 bits,
without an overflow that is not noticed and none that is noticed too early.  So offsets never go
back, grow with each region before they are the longest span, and stay the longest one then. -/
theorem offset_exact_or_longest (t : Thresholds) :
    (∃ first step : Int64, ofMillis first step = .ok t ∧ first.toInt = t.first ∧
      step.toInt = t.step) ∧
    t.startOffset 0 = .zero ∧
    (∀ i, 1 ≤ i →
      let exact := t.first + (i - 1) * t.step
      let offset := t.startOffset i
      (i - 1 ≤ 0xFFFFFFFF ∧ exact < 1000 * 0x10000000000000000 →
        offset.secs = exact / 1000 ∧ offset.nanos = exact % 1000 * 1000000) ∧
      (¬(i - 1 ≤ 0xFFFFFFFF ∧ exact < 1000 * 0x10000000000000000) → offset = .longest)) ∧
    (∀ i : UInt64, (t.startOffsetWords i).secs.toNat = (t.startOffset i.toNat).secs ∧
      (t.startOffsetWords i).nanos.toNat = (t.startOffset i.toNat).nanos) ∧
    Monotone t.startOffset ∧
    (∀ i j, i < j → t.startOffset i ≠ .longest → t.startOffset i < t.startOffset j) ∧
    (∀ i j, i ≤ j → t.startOffset i = .longest → t.startOffset j = .longest) := by
  refine ⟨t.exists_ofMillis, rfl, ?each, ?words, t.monotone_startOffset, ?grow, ?stay⟩
  case each =>
    intro i hi exact offset
    have hexact : t.idealOffset i = exact := t.idealOffset_of_pos hi
    constructor
    · rintro ⟨hstep, hlt⟩
      have hfits : t.Fits i := ⟨hstep, hexact.symm ▸ hlt⟩
      rw [show offset = _ from startOffset_of_fits hfits, ← hexact]
      exact ⟨rfl, rfl⟩
    · intro hnot
      exact startOffset_of_not_fits fun hfits => hnot ⟨hfits.1, hexact ▸ hfits.2⟩
  case words =>
    intro i
    rw [startOffsetWords_eq]
    exact ⟨Duration.toNat_secs_words _, Duration.toNat_nanos_words _⟩
  case grow =>
    intro i j hij hi
    exact startOffset_lt (fits_iff.2 hi) hij
  case stay =>
    intro i j hij hi
    refine startOffset_of_not_fits fun hj => ?_
    exact fits_iff.1 (hj.mono hij) hi

/-- The longest thresholds fit 2000 times, with two seconds left, and the usual ones as often as
there are steps of 32 bits. -/
theorem offset_exact_or_longest_of_most :
    let most : Thresholds := { first := 0x7FFFFFFFFFFFFFFF, step := 0x7FFFFFFFFFFFFFFF }
    (most.startOffset 2000).secs = 18446744073709551614 ∧
      most.startOffset 2000 < most.startOffset 2001 ∧ most.startOffset 2001 = .longest ∧
      most.startOffset 0xFFFFFFFFFFFFFFFF = .longest ∧
      (standard.startOffset 0x100000000).secs = 429496730 ∧
      (standard.startOffset 0x100000000).nanos = 0 ∧
      standard.startOffset 0x100000001 = .longest := by
  intro most
  obtain ⟨-, -, hmost, -, -, hgrow, hstay⟩ := offset_exact_or_longest most
  obtain ⟨-, -, hstandard, -⟩ := offset_exact_or_longest standard
  have hlong : most.startOffset 2001 = .longest := (hmost 2001 (by decide)).2 (by decide)
  obtain ⟨hsecs, hnanos⟩ := (hstandard 0x100000000 (by decide)).1 (by decide)
  exact ⟨((hmost 2000 (by decide)).1 (by decide)).1.trans (by decide),
    hgrow 2000 2001 (by decide) (by decide +kernel), hlong, hstay 2001 _ (by decide) hlong,
    hsecs.trans (by decide), hnanos.trans (by decide),
    (hstandard 0x100000001 (by decide)).2 (by decide)⟩

end Thresholds
end Hedging
