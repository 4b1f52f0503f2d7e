import Hedging.Json.Number

/-!
# Numerals

A numeral is what a document writes for a number: a sign, whole digits, and
perhaps a fraction and an exponent.  `Numeral.scan?` reads one from the front of a
text and `Numeral.number?` says which number it denotes, if it is in range.

An integer stays one while it fits into 64 bits.  Any other numeral is a double: its
leading digits, as many as fit into an unsigned integer of 64 bits, multiplied or
divided by a power of ten.
-/

namespace Hedging
namespace Json

/-- A number as it is written: digits, and for an exponent whether its sign is a minus. -/
structure Numeral where
  negative : Bool
  whole : List Char
  fraction : Option (List Char)
  exponent : Option (Bool × List Char)
deriving DecidableEq, Repr

namespace Numeral

/-- The digits at the front of a text, and the rest. -/
def digits (cs : List Char) : List Char × List Char :=
  (cs.takeWhile Char.isDigit, cs.dropWhile Char.isDigit)

theorem digits_append (cs : List Char) : (digits cs).1 ++ (digits cs).2 = cs :=
  List.takeWhile_append_dropWhile

theorem length_digits_le (cs : List Char) : (digits cs).2.length ≤ cs.length := by
  have h := congrArg List.length (digits_append cs)
  simp only [List.length_append] at h
  omega

/-- The whole part: a lone zero, or digits that do not start with zero. -/
def whole? (cs : List Char) : Option (List Char × List Char) :=
  match digits cs with
  | ([], _) => none
  | ('0' :: _ :: _, _) => none
  | (ds, rest) => some (ds, rest)

/-- A fraction, if a point comes next: digits follow it. -/
def fraction? (cs : List Char) : Option (Option (List Char) × List Char) :=
  match cs with
  | '.' :: rest =>
    match digits rest with
    | ([], _) => none
    | (ds, rest) => some (some ds, rest)
  | _ => some (none, cs)

/-- The sign of an exponent, and what follows it. -/
def exponentSign (cs : List Char) : Bool × List Char :=
  match cs with
  | '-' :: rest => (true, rest)
  | '+' :: rest => (false, rest)
  | _ => (false, cs)

/-- An exponent, if its mark comes next: a sign may follow it, and digits. -/
def exponent? (cs : List Char) : Option (Option (Bool × List Char) × List Char) :=
  match cs with
  | c :: rest =>
    if c = 'e' ∨ c = 'E' then
      match digits (exponentSign rest).2 with
      | ([], _) => none
      | (ds, rest') => some (some ((exponentSign rest).1, ds), rest')
    else some (none, cs)
  | [] => some (none, [])

/-- The numeral at the front of a text after its sign, and the rest. -/
def scan? (negative : Bool) (cs : List Char) : Option (Numeral × List Char) := do
  let (whole, cs) ← whole? cs
  let (fraction, cs) ← fraction? cs
  let (exponent, cs) ← exponent? cs
  return (⟨negative, whole, fraction, exponent⟩, cs)

theorem length_whole? {cs rest : List Char} {ds : List Char} (h : whole? cs = some (ds, rest)) :
    rest.length < cs.length := by
  have happ := congrArg List.length (digits_append cs)
  unfold whole? at h
  split at h <;> simp only [reduceCtorEq, Option.some.injEq, Prod.mk.injEq] at h
  rename_i ds' rest' hne _ hd
  obtain ⟨rfl, rfl⟩ := h
  rw [hd] at happ
  cases ds' with
  | nil => exact absurd rfl hne
  | cons d ds' => simp only [List.length_append, List.length_cons] at happ; omega

theorem length_fraction? {cs rest : List Char} {f : Option (List Char)}
    (h : fraction? cs = some (f, rest)) : rest.length ≤ cs.length := by
  unfold fraction? at h
  split at h
  · rename_i cs'
    have hle := length_digits_le cs'
    split at h <;> simp only [reduceCtorEq, Option.some.injEq, Prod.mk.injEq] at h
    rename_i hd
    obtain ⟨-, rfl⟩ := h
    rw [hd] at hle
    simp only [List.length_cons] at *
    omega
  · simp only [Option.some.injEq, Prod.mk.injEq] at h
    exact Nat.le_of_eq (congrArg List.length h.2.symm)

theorem length_exponentSign (cs : List Char) : (exponentSign cs).2.length ≤ cs.length := by
  unfold exponentSign
  split <;> simp

theorem length_exponent? {cs rest : List Char} {e : Option (Bool × List Char)}
    (h : exponent? cs = some (e, rest)) : rest.length ≤ cs.length := by
  unfold exponent? at h
  split at h
  · rename_i c cs'
    split at h
    · have hle := length_digits_le (exponentSign cs').2
      have hle' := length_exponentSign cs'
      split at h <;> simp only [reduceCtorEq, Option.some.injEq, Prod.mk.injEq] at h
      rename_i hd
      obtain ⟨-, rfl⟩ := h
      rw [hd] at hle
      simp only [List.length_cons] at *
      omega
    · simp only [Option.some.injEq, Prod.mk.injEq] at h
      exact Nat.le_of_eq (congrArg List.length h.2.symm)
  · simp only [Option.some.injEq, Prod.mk.injEq] at h
    exact Nat.le_of_eq (congrArg List.length h.2.symm)

/-- A numeral has at least one character. -/
theorem length_scan? {negative : Bool} {cs rest : List Char} {x : Numeral}
    (h : scan? negative cs = some (x, rest)) : rest.length < cs.length := by
  simp only [scan?, Option.bind_eq_bind, Option.bind_eq_some_iff, Option.pure_def,
    Option.some.injEq, Prod.mk.injEq, Prod.exists] at h
  obtain ⟨ds, cs1, h1, f, cs2, h2, e, cs3, h3, -, rfl⟩ := h
  have := length_whole? h1
  have := length_fraction? h2
  have := length_exponent? h3
  omega

/-- Takes digits into `n` while the result stays below `2 ^ 64`, and gives those that are left. -/
def absorb (n : Nat) : List Char → Nat × List Char
  | [] => (n, [])
  | c :: cs =>
    let n' := 10 * n + (c.toNat - '0'.toNat)
    if n' < 0x10000000000000000 then absorb n' cs else (n, c :: cs)

/-- The integer of 64 bits that a sign and a magnitude denote, or else a double; so is `-0`. -/
def integer (negative : Bool) (n : Nat) : Number :=
  if !negative then .integer n
  else if n = 0 ∨ 0x8000000000000000 < n then .float (-n.toUInt64.toFloat)
  else .integer (-n)

/-- The double next to `10 ^ k`. -/
def powerOfTen (k : Nat) : Float := Float.ofScientific 1 false k

/-- The largest power of ten among the doubles. -/
def maxPower : Nat := 308

/-- `x / 10 ^ k`, by the largest power of ten as often as needed. -/
def scaleDown (x : Float) (k : Nat) : Float :=
  if k ≤ maxPower then x / powerOfTen k
  else if x == 0 then x
  else scaleDown (x / powerOfTen maxPower) (k - maxPower)
termination_by k
decreasing_by simp only [maxPower] at *; omega

/-- `n * 10 ^ e` as a double, unless it is beyond the largest one. -/
def scale? (n : Nat) (e : Int) : Option Float :=
  let x := n.toUInt64.toFloat
  if e < 0 then some (scaleDown x (-e).toNat)
  else if maxPower < e.toNat then (if n = 0 then some x else none)
  else
    let y := x * powerOfTen e.toNat
    if y.isInf then none else some y

/-- The largest exponent that is worked out; a larger one makes the number zero or too large. -/
def maxExponent : Nat := 0x7FFFFFFF

/-- The double `n * 10 ^ power`, with an exponent on top. -/
def float? (negative : Bool) (n : Nat) (power : Int) (exponent : Option (Bool × List Char)) :
    Option Float :=
  let signed (x : Float) : Float := if negative then -x else x
  match exponent with
  | none => (scale? n power).map signed
  | some (down, ds) =>
    let e := Nat.ofDigitChars 10 ds 0
    if maxExponent < e then
      if n ≠ 0 ∧ !down then none else some (signed 0)
    else (scale? n (if down then power - e else power + e)).map signed

/-- The number that a numeral denotes, if it is in the range of doubles. -/
def number? (x : Numeral) : Option Number :=
  let (n, excess) := absorb 0 x.whole
  match excess, x.fraction, x.exponent with
  | [], none, none => some (integer x.negative n)
  | _, none, e => (float? x.negative n excess.length e).map .float
  | _, some ds, e =>
    let (n', rest) := absorb n ds
    (float? x.negative n' ((excess.length : Int) - (ds.length - rest.length : Nat)) e).map .float

end Numeral
end Json
end Hedging
