import Hedging.Decimal.Binary

/-!
# The shortest decimal that reads back

The decimals that are read as one double fill an interval around it, whose ends
belong to it exactly when the significand is even.  `shortest` takes the coarsest
power of ten with a multiple in that interval, and of the two multiples next to
the double the one in the interval, the nearer if both are, the even one if they
are equally near.
-/

namespace Hedging
namespace Decimal

/-- The decimals that read as the double `value / scale`: those from `low / scale` to `high / scale`,
with the ends if the interval is closed. -/
structure Interval where
  low : Nat
  value : Nat
  high : Nat
  scale : Nat
  closed : Bool

namespace Interval

/-- The interval of a positive double, in quarters of its last place. -/
def ofBinary (b : Binary) : Interval where
  low := numerator (4 * b.significand - if b.narrowBelow then 1 else 2) 2 (b.exponent - 2)
  value := numerator (4 * b.significand) 2 (b.exponent - 2)
  high := numerator (4 * b.significand + 2) 2 (b.exponent - 2)
  scale := denominator 2 (b.exponent - 2)
  closed := b.significand % 2 == 0

/-- The same interval in units of `10 ^ k`. -/
def inUnits (i : Interval) (k : Int) : Interval where
  low := numerator i.low 10 (-k)
  value := numerator i.value 10 (-k)
  high := numerator i.high 10 (-k)
  scale := i.scale * denominator 10 (-k)
  closed := i.closed

/-- Whether the interval holds the whole number `n`. -/
def holds (i : Interval) (n : Nat) : Bool :=
  if i.closed then decide (i.low ≤ n * i.scale) && decide (n * i.scale ≤ i.high)
  else decide (i.low < n * i.scale) && decide (n * i.scale < i.high)

/-- Of the two whole numbers next to the value, the nearer one that the interval holds. -/
def nearest? (i : Interval) : Option Nat :=
  let n := i.value / i.scale
  let below := i.value - n * i.scale
  let above := (n + 1) * i.scale - i.value
  match 0 < n && i.holds n, i.holds (n + 1) with
  | true, true =>
    if below < above then some n
    else if above < below then some (n + 1)
    else if n % 2 = 0 then some n else some (n + 1)
  | true, false => some n
  | false, true => some (n + 1)
  | false, false => none

end Interval

/-- The largest power of ten that a double can be a multiple of. -/
def coarsest : Nat := 309

/-- How many powers of ten separate the coarsest from the finest decimal of a double. -/
def grids : Nat := 640

/-- The shortest decimal `n * 10 ^ k` of a positive double, as `n` and `k`. -/
def shortest (b : Binary) : Nat × Int :=
  let i := Interval.ofBinary b
  ((List.range grids).findSome? fun (j : Nat) =>
    let k : Int := (coarsest : Int) - (j : Int)
    (i.inUnits k).nearest?.map fun n => (n, k)).getD (0, 0)

/-- A tenth, the smallest double and the largest one. -/
example : shortest (.ofBits 0x3FB999999999999A) = (1, -1) ∧ shortest (.ofBits 1) = (5, -324) ∧
    shortest (.ofBits 0x7FEFFFFFFFFFFFFF) = (17976931348623157, 292) := by
  decide +kernel

end Decimal
end Hedging
