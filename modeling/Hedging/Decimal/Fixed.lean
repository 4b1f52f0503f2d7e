import Hedging.Decimal.Binary

/-!
# Decimals of a fixed number of places

`fixed` writes a double with a given number of places: its exact value rounded to
the nearest, and to the even neighbour when it lies halfway (`roundDiv_spec`).
-/

namespace Hedging
namespace Decimal

/-- The whole number nearest to `num / den`, the even one if two are equally near. -/
def roundDiv (num den : Nat) : Nat :=
  let n := num / den
  let rest := num % den
  if 2 * rest < den then n
  else if den < 2 * rest then n + 1
  else if n % 2 = 0 then n else n + 1

/-- The rounded quotient is within half a unit of the quotient. -/
theorem roundDiv_spec {num den : Nat} (h : 0 < den) :
    2 * num ≤ (2 * roundDiv num den + 1) * den ∧
      (2 * roundDiv num den) * den ≤ 2 * num + den := by
  have h1 := Nat.div_add_mod num den
  have h2 := Nat.mod_lt num h
  have h3 : ∀ n, (2 * n + 1) * den = 2 * (den * n) + den := fun n => by
    rw [Nat.add_mul, Nat.one_mul, Nat.mul_comm den n, Nat.mul_assoc]
  have h4 : ∀ n, 2 * n * den = 2 * (den * n) := fun n => by
    rw [Nat.mul_comm den n, Nat.mul_assoc]
  have h5 : den * (num / den + 1) = den * (num / den) + den := Nat.mul_succ _ _
  simp only [roundDiv, h3, h4]
  repeat' split
  all_goals omega

/-- A half goes to the even neighbour. -/
example : roundDiv 5 2 = 2 ∧ roundDiv 7 2 = 4 ∧ roundDiv 8 3 = 3 := by
  decide

/-- A double with `places` digits after the point. -/
def fixed (places : Nat) (x : Float) : String :=
  let b := Binary.ofFloat x
  let scaled := numerator b.significand 2 b.exponent * Nat.pow 10 places
  let n := roundDiv scaled (denominator 2 b.exponent)
  let fraction := toString (n % Nat.pow 10 places)
  let padded := String.ofList (List.replicate (places - fraction.length) '0') ++ fraction
  (if b.negative then "-" else "") ++ toString (n / Nat.pow 10 places) ++
    (if places = 0 then "" else "." ++ padded)

end Decimal
end Hedging
