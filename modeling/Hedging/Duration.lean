/-
# Spans of time

A `Duration` is a number of whole seconds below `2 ^ 64` and of nanoseconds below
`10 ^ 9`.  Its arithmetic is checked: `mul?` and `add?` answer `none` when the
number of seconds does not fit, and `toNanos_add?`, `toNanos_mul?` say that they
are exact otherwise.
-/

namespace Hedging

/-- A span of time: whole seconds and the nanoseconds that remain. -/
structure Duration where
  secs : Nat
  nanos : Nat
  secs_lt : secs < 0x10000000000000000 := by decide
  nanos_lt : nanos < 1000000000 := by decide
deriving DecidableEq, Repr

namespace Duration

/-- The empty span. -/
def zero : Duration := ⟨0, 0, by decide, by decide⟩

/-- The longest span. -/
def longest : Duration := ⟨0xFFFFFFFFFFFFFFFF, 999999999, by decide, by decide⟩

/-- The span of `n` seconds. -/
def ofSeconds (n : Nat) (h : n < 0x10000000000000000 := by decide) : Duration :=
  ⟨n, 0, h, by decide⟩

/-- The span of `n` milliseconds. -/
def ofMillis (n : Nat) (h : n < 1000 * 0x10000000000000000 := by decide) : Duration :=
  ⟨n / 1000, n % 1000 * 1000000, by omega, by omega⟩

/-- The span in nanoseconds; spans are compared by it. -/
def toNanos (d : Duration) : Nat := d.secs * 1000000000 + d.nanos

/-- The span in whole milliseconds, rounded down. -/
def toMillis (d : Duration) : Nat := d.secs * 1000 + d.nanos / 1000000

instance : LE Duration := ⟨fun a b => a.toNanos ≤ b.toNanos⟩

instance (a b : Duration) : Decidable (a ≤ b) :=
  inferInstanceAs (Decidable (a.toNanos ≤ b.toNanos))

/-- The shorter of two spans. -/
instance : Min Duration := ⟨fun a b => if a ≤ b then a else b⟩

/-- `k` times the span, if it fits. -/
def mul? (d : Duration) (k : Nat) : Option Duration :=
  if h : d.secs * k + d.nanos * k / 1000000000 < 0x10000000000000000 then
    some ⟨d.secs * k + d.nanos * k / 1000000000, d.nanos * k % 1000000000, h,
      Nat.mod_lt _ (by decide)⟩
  else none

/-- The sum of two spans, if it fits. -/
def add? (a b : Duration) : Option Duration :=
  if h : a.secs + b.secs + (a.nanos + b.nanos) / 1000000000 < 0x10000000000000000 then
    some ⟨a.secs + b.secs + (a.nanos + b.nanos) / 1000000000, (a.nanos + b.nanos) % 1000000000, h,
      Nat.mod_lt _ (by decide)⟩
  else none

theorem toNanos_mul? {d e : Duration} {k : Nat} (h : d.mul? k = some e) :
    e.toNanos = d.toNanos * k := by
  unfold mul? at h
  split at h
  · obtain rfl := Option.some.inj h
    have h1 : (d.secs * 1000000000 + d.nanos) * k = d.secs * k * 1000000000 + d.nanos * k := by
      rw [Nat.add_mul, Nat.mul_right_comm]
    simp only [toNanos, h1]
    omega
  · simp at h

theorem toNanos_add? {a b c : Duration} (h : a.add? b = some c) :
    c.toNanos = a.toNanos + b.toNanos := by
  unfold add? at h
  split at h
  · obtain rfl := Option.some.inj h
    simp only [toNanos]
    omega
  · simp at h

theorem toMillis_ofMillis {n : Nat} (h : n < 1000 * 0x10000000000000000) :
    (ofMillis n h).toMillis = n := by
  simp only [ofMillis, toMillis]
  omega

/-- The span in seconds, as the sum of two roundings: whole seconds, and nanoseconds by `10 ^ 9`. -/
def toSeconds (d : Duration) : Float :=
  d.secs.toUInt64.toFloat + d.nanos.toUInt64.toFloat / 1e9

/-- The digits of `f` as a fraction of `width` places, without the zeros at its end. -/
def fractionDigits (f width : Nat) : List Char :=
  let digits := (toString f).toList
  let padded := List.replicate (width - digits.length) '0' ++ digits
  (padded.reverse.dropWhile (· = '0')).reverse

/-- A whole number with a fraction of `width` places and a unit. -/
def withUnit (whole f width : Nat) (unit : String) : String :=
  match fractionDigits f width with
  | [] => toString whole ++ unit
  | ds => toString whole ++ "." ++ String.ofList ds ++ unit

/-- The span in the largest of the units s, ms, µs and ns that it fills. -/
def text (d : Duration) : String :=
  if 0 < d.secs then withUnit d.secs d.nanos 9 "s"
  else if 1000000 ≤ d.nanos then withUnit (d.nanos / 1000000) (d.nanos % 1000000) 6 "ms"
  else if 1000 ≤ d.nanos then withUnit (d.nanos / 1000) (d.nanos % 1000) 3 "µs"
  else toString d.nanos ++ "ns"

/-- A fraction has no zeros at its end, and a whole number no fraction. -/
example : (ofMillis 1500).text = "1.5s" ∧ (ofMillis 60000).text = "60s" ∧
    (ofMillis 100).text = "100ms" ∧ (ofMillis 9223372036854775807).text = "9223372036854775.807s" ∧ zero.text = "0ns" := by
  decide +kernel

end Duration
end Hedging
