import Hedging.Proofs.Schedule

/-!
# Spans in machine words

A span fills a word of 64 bits with its seconds and one of 32 bits with its nanoseconds.  Its
product with a number of steps and the sum of two spans take several operations on such words:
the nanoseconds are multiplied in 64 bits, what exceeds a second is carried over, and each
operation on the seconds is checked by itself.  No check is missing and none is too strict: the
words compute what `Duration.mul?` and `Duration.add?` say (`words_mul?`, `words_add?`), and so
the offset of a region (`Thresholds.startOffsetWords_eq`).
-/

namespace Hedging

/-- A number as a word of 64 bits, if it fits. -/
def word? (n : Nat) : Option UInt64 := if n < 0x10000000000000000 then some (.ofNat n) else none

theorem word?_of_lt {n : Nat} (h : n < 0x10000000000000000) : word? n = some (.ofNat n) := if_pos h

theorem word?_of_le {n : Nat} (h : 0x10000000000000000 ≤ n) : word? n = none :=
  if_neg (Nat.not_lt.2 h)

/-- A sum that is checked after its first part is refused exactly if the whole does not fit. -/
theorem word?_bind_add {β : Type} (m n : Nat) (f : UInt64 → Option β) :
    ((word? m).bind fun w => (word? (w.toNat + n)).bind f) = (word? (m + n)).bind f := by
  by_cases h : m < 0x10000000000000000
  · rw [word?_of_lt h, Option.bind_some, UInt64.toNat_ofNat_of_lt' h]
  · rw [word?_of_le (Nat.not_lt.1 h), word?_of_le (by omega)]
    rfl

namespace Duration

/-- A span as two words. -/
structure Words where
  secs : UInt64
  nanos : UInt32
deriving DecidableEq, Repr

namespace Words

/-- The span of a number of milliseconds. -/
def ofMillis (n : UInt64) : Words := ⟨n / 1000, (n % 1000).toUInt32 * 1000000⟩

/-- `k` times the span; the product of the seconds is checked, and then its sum with the carry. -/
def mul? (w : Words) (k : UInt32) : Option Words := do
  let nanos := w.nanos.toUInt64 * k.toUInt64
  let product ← word? (w.secs.toNat * k.toNat)
  let secs ← word? (product.toNat + (nanos / 1000000000).toNat)
  return ⟨secs, (nanos % 1000000000).toUInt32⟩

/-- The sum of two spans; the sum of the seconds is checked, and then its sum with the carry. -/
def add? (v w : Words) : Option Words := do
  let secs ← word? (v.secs.toNat + w.secs.toNat)
  let nanos := v.nanos + w.nanos
  if nanos < 1000000000 then return ⟨secs, nanos⟩
  else return ⟨← word? (secs.toNat + 1), nanos - 1000000000⟩

end Words

/-- The words of a span. -/
def words (d : Duration) : Words := ⟨.ofNat d.secs, .ofNat d.nanos⟩

@[simp]
theorem toNat_secs_words (d : Duration) : d.words.secs.toNat = d.secs :=
  UInt64.toNat_ofNat_of_lt' d.secs_lt

@[simp]
theorem toNat_nanos_words (d : Duration) : d.words.nanos.toNat = d.nanos :=
  UInt32.toNat_ofNat_of_lt' (Nat.lt_trans d.nanos_lt (by decide))

/-- Words are those of a span if they stand for its numbers. -/
theorem eq_words {w : Words} {d : Duration} (secs : w.secs.toNat = d.secs)
    (nanos : w.nanos.toNat = d.nanos) : w = d.words := by
  rcases w with ⟨s, n⟩
  rw [words, ← secs, ← nanos, UInt64.ofNat_toNat, UInt32.ofNat_toNat]

/-- Seconds that are checked last make a span exactly if they fit. -/
theorem bind_word?_eq_words {secs nanos : Nat} {low : UInt32} (hlow : low.toNat = nanos)
    (hnanos : nanos < 1000000000) :
    ((word? secs).bind fun high => some (⟨high, low⟩ : Words))
      = (if h : secs < 0x10000000000000000 then some (⟨secs, nanos, h, hnanos⟩ : Duration)
        else none).map words := by
  split
  · rename_i h
    rw [word?_of_lt h]
    exact congrArg some (eq_words (UInt64.toNat_ofNat_of_lt' h) hlow)
  · rename_i h
    rw [word?_of_le (Nat.not_lt.1 h)]
    rfl

theorem words_ofMillis {n : Nat} (h : n < 0x10000000000000000) :
    Words.ofMillis (.ofNat n) = (ofMillis n (by omega)).words := by
  have hn : (UInt64.ofNat n).toNat = n := UInt64.toNat_ofNat_of_lt' h
  refine eq_words ?_ ?_
  · simp only [Words.ofMillis, UInt64.toNat_div, hn]
    rfl
  · simp only [Words.ofMillis, UInt32.toNat_mul, UInt64.toNat_toUInt32, UInt64.toNat_mod, hn]
    simp only [UInt64.reduceToNat, UInt32.reduceToNat, ofMillis]
    omega

/-- The nanoseconds of a product fit into a word of 64 bits. -/
theorem toNat_nanos_mul (d : Duration) (k : UInt32) :
    (d.words.nanos.toUInt64 * k.toUInt64).toNat = d.nanos * k.toNat := by
  have hlt : d.nanos * k.toNat < 1000000000 * 0x100000000 :=
    Nat.mul_lt_mul'' d.nanos_lt k.toNat_lt
  rw [UInt64.toNat_mul, UInt32.toNat_toUInt64, UInt32.toNat_toUInt64, toNat_nanos_words]
  omega

/-- **A product is computed exactly or refused.** -/
theorem words_mul? (d : Duration) (k : UInt32) :
    d.words.mul? k = (d.mul? k.toNat).map words := by
  have hnanos := toNat_nanos_mul d k
  have hcarry : (d.words.nanos.toUInt64 * k.toUInt64 / 1000000000).toNat
      = d.nanos * k.toNat / 1000000000 := by
    rw [UInt64.toNat_div, hnanos]
    rfl
  have hrest : (d.words.nanos.toUInt64 * k.toUInt64 % 1000000000).toUInt32.toNat
      = d.nanos * k.toNat % 1000000000 := by
    rw [UInt64.toNat_toUInt32, UInt64.toNat_mod, hnanos]
    simp only [UInt64.reduceToNat]
    omega
  simp only [Words.mul?, mul?, toNat_secs_words, hcarry, Option.bind_eq_bind, word?_bind_add]
  exact bind_word?_eq_words hrest (Nat.mod_lt _ (by decide))

/-- **A sum is computed exactly or refused.** -/
theorem words_add? (a b : Duration) : a.words.add? b.words = (a.add? b).map words := by
  have ha := a.nanos_lt
  have hb := b.nanos_lt
  have hnanos : (a.words.nanos + b.words.nanos).toNat = a.nanos + b.nanos := by
    rw [UInt32.toNat_add, toNat_nanos_words, toNat_nanos_words]
    omega
  have hless : a.words.nanos + b.words.nanos < 1000000000 ↔ a.nanos + b.nanos < 1000000000 := by
    rw [UInt32.lt_iff_toNat_lt, hnanos]
    rfl
  unfold Words.add? add?
  rw [toNat_secs_words, toNat_secs_words]
  by_cases hcarry : a.nanos + b.nanos < 1000000000
  · simp only [hless.2 hcarry, if_true, Nat.div_eq_of_lt hcarry, Nat.add_zero]
    refine bind_word?_eq_words ?_ _
    rw [hnanos, Nat.mod_eq_of_lt hcarry]
  · have hone : (a.nanos + b.nanos) / 1000000000 = 1 := by omega
    simp only [mt hless.1 hcarry, if_false, hone, Option.bind_eq_bind, word?_bind_add]
    refine bind_word?_eq_words ?_ _
    have hle : 1000000000 ≤ a.words.nanos + b.words.nanos :=
      UInt32.le_iff_toNat_le.2 (hnanos ▸ Nat.not_lt.1 hcarry)
    rw [UInt32.toNat_sub_of_le _ _ hle, hnanos]
    show a.nanos + b.nanos - 1000000000 = (a.nanos + b.nanos) % 1000000000
    omega

end Duration

namespace Thresholds

/-- How long after the start of a race the region at index `i` is due, worked out in words. -/
def startOffsetWords (t : Thresholds) (i : UInt64) : Duration.Words :=
  if i = 0 then Duration.zero.words
  else if i - 1 < 0x100000000 then
    (((Duration.Words.ofMillis (.ofNat t.step)).mul? (i - 1).toUInt32).bind
      (·.add? (.ofMillis (.ofNat t.first)))).getD Duration.longest.words
  else Duration.longest.words

theorem words_firstWait (t : Thresholds) :
    Duration.Words.ofMillis (.ofNat t.first) = t.firstWait.words :=
  Duration.words_ofMillis (Nat.lt_trans t.first_lt (by decide))

theorem words_stepWait (t : Thresholds) :
    Duration.Words.ofMillis (.ofNat t.step) = t.stepWait.words :=
  Duration.words_ofMillis (Nat.lt_trans t.step_lt (by decide))

/-- **Words compute the offset of a region**, at every index of 64 bits. -/
theorem startOffsetWords_eq (t : Thresholds) (i : UInt64) :
    t.startOffsetWords i = (t.startOffset i.toNat).words := by
  unfold startOffsetWords startOffset
  by_cases hzero : i = 0
  · rw [if_pos hzero, hzero]
    rfl
  have hpos : i.toNat ≠ 0 := fun h => hzero (UInt64.toNat_inj.1 h)
  have hpred : (i - 1).toNat = i.toNat - 1 :=
    UInt64.toNat_sub_of_le i 1 (UInt64.le_iff_toNat_le.2 (Nat.pos_of_ne_zero hpos))
  have hshort : i - 1 < 0x100000000 ↔ i.toNat - 1 < 0x100000000 := by
    rw [UInt64.lt_iff_toNat_lt, hpred]
    rfl
  rw [if_neg hzero, if_neg hpos]
  by_cases hsteps : i.toNat - 1 < 0x100000000
  · have hk : (i - 1).toUInt32.toNat = i.toNat - 1 := by
      rw [UInt64.toNat_toUInt32, hpred]
      exact Nat.mod_eq_of_lt hsteps
    rw [if_pos (hshort.2 hsteps), if_pos hsteps, words_firstWait, words_stepWait,
      Duration.words_mul?, hk]
    cases t.stepWait.mul? (i.toNat - 1) with
    | none => rfl
    | some d =>
      rw [Option.map_some, Option.bind_some, Option.bind_some, Duration.words_add?]
      cases d.add? t.firstWait <;> rfl
  · rw [if_neg (mt hshort.1 hsteps), if_neg hsteps]

end Thresholds
end Hedging
