/-
# Regions

A region is a replica of the service, known by its name.  Regions are ordered by
name, code point by code point, which is also the order of the names' UTF-8
bytes; `Region.sorted` keeps repetitions and `Region.distinct` drops them.
-/

namespace Hedging

/-- A replica of the service, for instance `West US`. -/
structure Region where
  name : String
deriving DecidableEq, Repr, Inhabited, Hashable

namespace Region

instance : Ord Region := ⟨fun a b => compare a.name b.name⟩

instance : LE Region := ⟨fun a b => a.name ≤ b.name⟩

instance (a b : Region) : Decidable (a ≤ b) := inferInstanceAs (Decidable (a.name ≤ b.name))

/-- Puts a region in front of the first one that does not come before it. -/
def insert (r : Region) : List Region → List Region
  | [] => [r]
  | s :: rs => if r ≤ s then r :: s :: rs else s :: insert r rs

/-- The regions in order of their names, repetitions kept. -/
def sorted (rs : List Region) : List Region := rs.foldr insert []

/-- The regions in order of their names, each one once. -/
def distinct (rs : List Region) : List Region := sorted rs.eraseDups

theorem insert_perm (r : Region) (rs : List Region) : (insert r rs).Perm (r :: rs) := by
  induction rs with
  | nil => exact .refl _
  | cons s rs ih =>
    unfold insert
    split
    · exact .refl _
    · exact (ih.cons s).trans (.swap r s rs)

theorem sorted_perm (rs : List Region) : (sorted rs).Perm rs := by
  induction rs with
  | nil => exact .refl _
  | cons r rs ih => exact (insert_perm r _).trans (ih.cons r)

theorem mem_distinct {r : Region} {rs : List Region} : r ∈ distinct rs ↔ r ∈ rs := by
  rw [distinct, (sorted_perm _).mem_iff, List.mem_eraseDups]

/-- Names are compared by code points, so capitals come first. -/
example : distinct [⟨"b"⟩, ⟨"a"⟩, ⟨"B"⟩, ⟨"a"⟩] = [⟨"B"⟩, ⟨"a"⟩, ⟨"b"⟩] := by
  decide +kernel

end Region
end Hedging
