import Hedging.Region

/-!
# Outcomes

An attempt succeeds or fails a number of milliseconds after it starts, or never
ends.  A script says which outcome each attempt has: the first one sent to a region,
the second one, and so on.
-/

namespace Hedging

/-- How an attempt ends. -/
inductive Outcome (α : Type) where
  | success (delay : Nat) (value : α)
  | failure (delay : Nat) (error : String)
  | hang
deriving DecidableEq, Repr

namespace Outcome

variable {α : Type}

/-- How long after its start the attempt ends, if it does. -/
def delay? : Outcome α → Option Nat
  | success d _ => some d
  | failure d _ => some d
  | hang => none

end Outcome

/-- The outcome of the attempt sent to a region as the `k`-th one, counted from zero. -/
abbrev Script (α : Type) := Region → Nat → Outcome α

namespace Script

variable {α : Type}

/-- The error of an attempt for which nothing is laid down. -/
def unscripted : Outcome α := .failure 0 "unscripted"

/-- The `k`-th outcome of a list; the last one stands for all later ones. -/
def pick (os : List (Outcome α)) (k : Nat) : Outcome α :=
  (os[min k (os.length - 1)]?).getD unscripted

/-- The script of a table with a list of outcomes for each region. -/
def ofTable (table : List (Region × List (Outcome α))) : Script α := fun r k =>
  match table.lookup r with
  | some os => pick os k
  | none => unscripted

/-- The second attempt fails, and so does every later one; an unknown region fails at once. -/
example : let s : Script Nat := ofTable [(⟨"a"⟩, [.success 5 1, .failure 0 "busy"])]
    (s ⟨"a"⟩ 0, s ⟨"a"⟩ 1, s ⟨"a"⟩ 7, s ⟨"b"⟩ 0)
      = (.success 5 1, .failure 0 "busy", .failure 0 "busy", unscripted) := by
  decide

end Script
end Hedging
