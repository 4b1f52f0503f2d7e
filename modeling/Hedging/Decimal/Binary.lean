/-
# Doubles as whole numbers and powers of two

A finite double is `± m * 2 ^ q` with whole numbers `m < 2 ^ 53` and `q`.  Both are
read off its 64 bits, so that decimals can be worked out in exact arithmetic.
-/

namespace Hedging
namespace Decimal

/-- The parts of a finite double: `± significand * 2 ^ exponent`. -/
structure Binary where
  negative : Bool
  significand : Nat
  exponent : Int
deriving DecidableEq, Repr

namespace Binary

/-- The parts that 64 bits encode: a sign, eleven bits of exponent and 52 of significand. -/
def ofBits (bits : Nat) : Binary :=
  let e : Nat := bits / 0x10000000000000 % 0x800
  let f : Nat := bits % 0x10000000000000
  if e = 0 then ⟨bits / 0x8000000000000000 == 1, f, -1074⟩
  else ⟨bits / 0x8000000000000000 == 1, f + 0x10000000000000, (e : Int) - 1075⟩

/-- The parts of a finite double. -/
def ofFloat (x : Float) : Binary := ofBits x.toBits.toNat

/-- Whether the gap to the next smaller double is half the gap to the next larger one. -/
def narrowBelow (b : Binary) : Bool := b.significand == 0x10000000000000 && b.exponent != -1074

theorem significand_ofBits_lt (bits : Nat) : (ofBits bits).significand < 0x20000000000000 := by
  simp only [ofBits]
  split <;> simp only <;> omega

end Binary

/-- The numerator of `n * base ^ e`. -/
def numerator (n base : Nat) (e : Int) : Nat := n * base.pow e.toNat

/-- The denominator of `n * base ^ e`. -/
def denominator (base : Nat) (e : Int) : Nat := base.pow (-e).toNat

end Decimal
end Hedging
