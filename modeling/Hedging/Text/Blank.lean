/-
# Blank characters

The characters with the property `White_Space`: they are ignored around the
pieces of a list of names.  `trim` removes them from both ends of a text, and
`trim_eq_nil_iff` says when nothing is left.
-/

namespace Hedging
namespace Text

/-- The first and last code points of each range of blank characters. -/
def blankRanges : List (Nat × Nat) :=
  [(0x9, 0xD), (0x20, 0x20), (0x85, 0x85), (0xA0, 0xA0), (0x1680, 0x1680), (0x2000, 0x200A),
  (0x2028, 0x2029), (0x202F, 0x202F), (0x205F, 0x205F), (0x3000, 0x3000)]

/-- Whether a character has the property `White_Space`. -/
def isBlank (c : Char) : Bool :=
  blankRanges.any fun r => r.1 ≤ c.toNat && c.toNat ≤ r.2

/-- The text without the blank characters at either end. -/
def trim (cs : List Char) : List Char :=
  ((cs.dropWhile isBlank).reverse.dropWhile isBlank).reverse

/-- There are twenty-five blank characters. -/
example : (blankRanges.map fun r => r.2 + 1 - r.1).sum = 25 := by
  decide

theorem dropWhile_isBlank_eq_nil_iff {cs : List Char} :
    cs.dropWhile isBlank = [] ↔ ∀ c ∈ cs, isBlank c = true := by
  induction cs with
  | nil => simp
  | cons c cs ih => by_cases h : isBlank c = true <;> simp [h, ih]

/-- Trimming leaves nothing exactly when every character is blank. -/
theorem trim_eq_nil_iff {cs : List Char} : trim cs = [] ↔ ∀ c ∈ cs, isBlank c = true := by
  constructor
  · intro h c hc
    have h1 : ∀ d ∈ (cs.dropWhile isBlank).reverse, isBlank d = true :=
      dropWhile_isBlank_eq_nil_iff.1 (List.reverse_eq_nil_iff.1 h)
    by_cases hd : cs.dropWhile isBlank = []
    · exact dropWhile_isBlank_eq_nil_iff.1 hd c hc
    · have h2 := List.head_dropWhile_not isBlank hd
      rw [h1 _ (List.mem_reverse.2 (List.head_mem hd))] at h2
      exact absurd h2 (by decide)
  · intro h
    simp [trim, dropWhile_isBlank_eq_nil_iff.2 h]

end Text
end Hedging
