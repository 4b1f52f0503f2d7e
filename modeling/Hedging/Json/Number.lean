import Hedging.Decimal.Shortest

/-!
# Numbers

A number is an integer of 64 bits, signed or not, or a double.  Which one a
numeral denotes is decided by `Numeral.number?`; here stand the two kinds, how they are
written, and which of them fit a signed integer of 64 bits.
-/

namespace Hedging
namespace Json

/-- A number: an integer between `-2 ^ 63` and `2 ^ 64 - 1`, or a double. -/
inductive Number where
  | integer (i : Int)
  | float (x : Float)
deriving DecidableEq, Repr

/-- The integer as a signed one of 64 bits, if it is in range. -/
def int64? (i : Int) : Option Int64 :=
  if -0x8000000000000000 ≤ i ∧ i < 0x8000000000000000 then some (Int64.ofInt i) else none

theorem int64?_toInt (n : Int64) : int64? n.toInt = some n := by
  rw [int64?, if_pos ⟨n.le_toInt, n.toInt_lt⟩, Int64.ofInt_toInt]

theorem toInt_of_int64? {i : Int} {n : Int64} (h : int64? i = some n) : n.toInt = i := by
  unfold int64? at h
  split at h
  · rename_i hi
    obtain rfl := Option.some.inj h
    exact Int64.toInt_ofInt_of_le hi.1 hi.2
  · simp at h

/-- The exponents for which a double is written without one: its first digit stands at most
sixteen places before the point, and at most four zeros follow the point. -/
def isPositional (point : Int) : Bool := -5 < point && point ≤ 16

/-- The decimal `digits * 10 ^ k`, with `.0` when it is whole; an exponent has a sign. -/
def decimalText (digits : List Char) (k : Int) : List Char :=
  let point : Int := digits.length + k
  if isPositional point then
    if 0 ≤ k then digits ++ List.replicate k.toNat '0' ++ ['.', '0']
    else if 0 < point then digits.take point.toNat ++ ['.'] ++ digits.drop point.toNat
    else ['0', '.'] ++ List.replicate (-point).toNat '0' ++ digits
  else
    let fraction := if digits.length ≤ 1 then [] else '.' :: digits.drop 1
    let sign := if point ≤ 0 then '-' else '+'
    digits.take 1 ++ fraction ++ ['e', sign] ++ (toString (point - 1).natAbs).toList

/-- An exponent appears from `10 ^ 16` up and below `10 ^ (-5)`. -/
example : String.ofList (decimalText ['1'] 15) = "1000000000000000.0" ∧
    String.ofList (decimalText ['1'] 16) = "1e+16" ∧
    String.ofList (decimalText ['1', '5'] (-1)) = "1.5" ∧
    String.ofList (decimalText ['1'] (-5)) = "0.00001" ∧
    String.ofList (decimalText ['1', '5'] (-7)) = "1.5e-6" := by
  decide +kernel

/-- A finite double in the fewest digits that read back. -/
def floatText (x : Float) : String :=
  let b := Decimal.Binary.ofFloat x
  let sign := if b.negative then ['-'] else []
  if b.significand = 0 then String.ofList (sign ++ ['0', '.', '0'])
  else
    let (n, k) := Decimal.shortest b
    String.ofList (sign ++ decimalText (toString n).toList k)

/-- How a number is written. -/
def Number.text : Number → String
  | integer i => toString i
  | float x => floatText x

end Json
end Hedging
