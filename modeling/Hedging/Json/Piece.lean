/-
# The characters of a string as they are written

Between its quotes a string writes each character as itself, as an escape of one
letter, or as one or two UTF-16 units of four hexadecimal digits.  `Piece.scan?`
reads up to the closing quote; `Piece.text?` puts the units together, and has no
answer when half of a surrogate pair stands alone.
-/

namespace Hedging
namespace Json

/-- What a string writes for a character, or for half of one. -/
inductive Piece where
  | char (c : Char)
  | unit (u : Nat)
deriving DecidableEq, Repr

namespace Piece

/-- The value of a hexadecimal digit of either case. -/
def hexValue? (c : Char) : Option Nat :=
  if '0' ≤ c ∧ c ≤ '9' then some (c.toNat - '0'.toNat)
  else if 'a' ≤ c ∧ c ≤ 'f' then some (c.toNat - 'a'.toNat + 10)
  else if 'A' ≤ c ∧ c ≤ 'F' then some (c.toNat - 'A'.toNat + 10)
  else none

/-- The unit that four hexadecimal digits denote. -/
def unit? (w x y z : Char) : Option Nat := do
  let high := (← hexValue? w) * 16 + (← hexValue? x)
  let low := (← hexValue? y) * 16 + (← hexValue? z)
  return high * 256 + low

/-- The character that an escape of one letter stands for. -/
def escaped? (c : Char) : Option Char :=
  if c = '"' ∨ c = '\\' ∨ c = '/' then some c
  else if c = 'b' then some '\x08'
  else if c = 'f' then some '\x0c'
  else if c = 'n' then some '\n'
  else if c = 'r' then some '\r'
  else if c = 't' then some '\t'
  else none

/-- Reads a string after its opening quote: its pieces, and what follows the closing quote.
Control characters below the space must be escaped. -/
def scan? (done : List Piece) : List Char → Option (List Piece × List Char)
  | [] => none
  | c :: rest =>
    if c = '"' then some (done.reverse, rest)
    else if c = '\\' then
      match rest with
      | [] => none
      | 'u' :: w :: x :: y :: z :: rest =>
        match unit? w x y z with
        | some u => scan? (.unit u :: done) rest
        | none => none
      | e :: rest =>
        match escaped? e with
        | some d => scan? (.char d :: done) rest
        | none => none
    else if c < ' ' then none
    else scan? (.char c :: done) rest

/-- Whether a unit is the first half of a surrogate pair. -/
def isHigh (u : Nat) : Bool := 0xD800 ≤ u && u ≤ 0xDBFF

/-- Whether a unit is the second half of a surrogate pair. -/
def isLow (u : Nat) : Bool := 0xDC00 ≤ u && u ≤ 0xDFFF

/-- The character of a surrogate pair. -/
def ofPair (u v : Nat) : Char := Char.ofNat (0x10000 + (u - 0xD800) * 0x400 + (v - 0xDC00))

/-- The characters of the pieces, unless half of a surrogate pair stands alone. -/
def text? (done : List Char) : List Piece → Option (List Char)
  | [] => some done.reverse
  | .char c :: rest => text? (c :: done) rest
  | .unit u :: rest =>
    if isHigh u then
      match rest with
      | .unit v :: rest => if isLow v then text? (ofPair u v :: done) rest else none
      | _ => none
    else if isLow u then none
    else text? (Char.ofNat u :: done) rest

/-- Two halves of a surrogate pair make one character; one half makes none. -/
example : text? [] [.unit 0xD83D, .unit 0xDE00, .char 'a', .unit 0xE9] = some ['😀', 'a', 'é'] ∧
    text? [] [.unit 0xD83D, .char 'a'] = none ∧ text? [] [.unit 0xDE00] = none := by
  decide

/-- Reading a string consumes its closing quote. -/
theorem length_scan? {done ps : List Piece} {cs rest : List Char}
    (h : scan? done cs = some (ps, rest)) : rest.length < cs.length := by
  fun_induction scan? done cs <;> simp_all <;> omega

end Piece
end Json
end Hedging
