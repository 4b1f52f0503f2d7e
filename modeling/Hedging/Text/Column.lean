/-
# Columns

A text that is shorter than its column is filled with spaces, words on their right
and numbers on their left; a longer one is never cut.
-/

namespace Hedging
namespace Text

/-- The text at the left of a column of `width` characters. -/
def atLeft (width : Nat) (s : String) : String :=
  s ++ String.ofList (List.replicate (width - s.length) ' ')

/-- The text at the right of a column of `width` characters. -/
def atRight (width : Nat) (s : String) : String :=
  String.ofList (List.replicate (width - s.length) ' ') ++ s

end Text
end Hedging
