import Hedging.Json.Numeral
import Hedging.Json.Piece

/-!
# Tokens

A document is cut into brackets, commas, colons, the three words, strings and
numerals, with spaces, tabs and line ends between them.  A string that holds half
of a surrogate pair and a numeral beyond the doubles are tokens all the same: their
content is `none`, and who needs it refuses them.
-/

namespace Hedging
namespace Json

/-- A token of a document. -/
inductive Token where
  | arrayOpen
  | arrayClose
  | objectOpen
  | objectClose
  | comma
  | colon
  | null
  | bool (b : Bool)
  | number (n : Option Number)
  | string (s : Option String)
deriving DecidableEq, Repr

/-- The four characters that may stand between tokens. -/
def isSpace (c : Char) : Bool := c = ' ' || c = '\t' || c = '\n' || c = '\r'

/-- What follows a word, if the text starts with it. -/
def after? : List Char → List Char → Option (List Char)
  | [], cs => some cs
  | w :: ws, c :: cs => if w = c then after? ws cs else none
  | _ :: _, [] => none

theorem length_after? {ws cs rest : List Char} (h : after? ws cs = some rest) :
    rest.length ≤ cs.length := by
  fun_induction after? ws cs <;> simp_all
  omega

namespace Token

/-- The tokens of one character. -/
def punctuation? (c : Char) : Option Token :=
  if c = '[' then some arrayOpen
  else if c = ']' then some arrayClose
  else if c = '\x7b' then some objectOpen
  else if c = '\x7d' then some objectClose
  else if c = ',' then some comma
  else if c = ':' then some colon
  else none

/-- The string whose opening quote was read. -/
def string? (cs : List Char) : Option (Token × List Char) := do
  let (ps, rest) ← Piece.scan? [] cs
  return (string ((Piece.text? [] ps).map String.ofList), rest)

/-- The numeral at the front of a text, after its sign. -/
def number? (negative : Bool) (cs : List Char) : Option (Token × List Char) := do
  let (x, rest) ← Numeral.scan? negative cs
  return (number x.number?, rest)

/-- The token that starts with the character `c`, and what follows it. -/
def next? (c : Char) (cs : List Char) : Option (Token × List Char) :=
  match punctuation? c with
  | some t => some (t, cs)
  | none =>
    if c = '"' then string? cs
    else if c = 'n' then (after? ['u', 'l', 'l'] cs).map (null, ·)
    else if c = 't' then (after? ['r', 'u', 'e'] cs).map (bool true, ·)
    else if c = 'f' then (after? ['a', 'l', 's', 'e'] cs).map (bool false, ·)
    else if c = '-' then number? true cs
    else number? false (c :: cs)

theorem length_string? {cs rest : List Char} {t : Token} (h : string? cs = some (t, rest)) :
    rest.length < cs.length := by
  simp only [string?, Option.bind_eq_bind, Option.bind_eq_some_iff, Option.pure_def,
    Option.some.injEq, Prod.mk.injEq, Prod.exists] at h
  obtain ⟨ps, r, h, -, rfl⟩ := h
  exact Piece.length_scan? h

theorem length_number? {negative : Bool} {cs rest : List Char} {t : Token}
    (h : number? negative cs = some (t, rest)) : rest.length < cs.length := by
  simp only [number?, Option.bind_eq_bind, Option.bind_eq_some_iff, Option.pure_def,
    Option.some.injEq, Prod.mk.injEq, Prod.exists] at h
  obtain ⟨x, r, h, -, rfl⟩ := h
  exact Numeral.length_scan? h

theorem length_next? {c : Char} {cs rest : List Char} {t : Token}
    (h : next? c cs = some (t, rest)) : rest.length ≤ cs.length := by
  have word : ∀ {ws : List Char} {u : Token},
      (after? ws cs).map (u, ·) = some (t, rest) → rest.length ≤ cs.length := by
    intro ws u hw
    simp only [Option.map_eq_some_iff, Prod.mk.injEq] at hw
    obtain ⟨r, hr, -, hrest⟩ := hw
    exact hrest ▸ length_after? hr
  unfold next? at h
  cases hp : punctuation? c with
  | some u =>
    simp only [hp, Option.some.injEq, Prod.mk.injEq] at h
    exact Nat.le_of_eq (congrArg List.length h.2.symm)
  | none =>
    simp only [hp] at h
    by_cases h1 : c = '"'
    · exact Nat.le_of_lt (length_string? (by rwa [if_pos h1] at h))
    by_cases h2 : c = 'n'
    · exact word (by rwa [if_neg h1, if_pos h2] at h)
    by_cases h3 : c = 't'
    · exact word (by rwa [if_neg h1, if_neg h2, if_pos h3] at h)
    by_cases h4 : c = 'f'
    · exact word (by rwa [if_neg h1, if_neg h2, if_neg h3, if_pos h4] at h)
    by_cases h5 : c = '-'
    · exact Nat.le_of_lt
        (length_number? (by rwa [if_neg h1, if_neg h2, if_neg h3, if_neg h4, if_pos h5] at h))
    · exact Nat.le_of_lt_succ
        (length_number? (by rwa [if_neg h1, if_neg h2, if_neg h3, if_neg h4, if_neg h5] at h))

/-- Cuts a text into tokens, which are added to those found so far. -/
def scan? (done : List Token) (cs : List Char) : Option (List Token) :=
  match cs with
  | [] => some done.reverse
  | c :: cs =>
    if isSpace c then scan? done cs
    else
      match _h : next? c cs with
      | none => none
      | some (t, rest) => scan? (t :: done) rest
termination_by cs.length
decreasing_by
  · simp
  · exact Nat.lt_succ_of_le (length_next? _h)

end Token
end Json
end Hedging
