import Hedging.Strategy.Intent

/-!
# Strategies

A scope leaves hedging open, forbids it, or turns it on with thresholds.  Of nested
scopes the innermost that does not leave it open decides: `Strategy.resolve` folds
`Strategy.overriddenBy`, which is associative and has `unset` as its identity.
-/

namespace Hedging

/-- The decision of a scope on hedging. -/
inductive Strategy where
  | unset
  | disabled
  | active (t : Thresholds)
deriving DecidableEq, Repr, Inhabited

namespace Strategy

/-- Whether hedging is left open. -/
def isUnset : Strategy → Bool
  | unset => true
  | _ => false

/-- Whether hedging is on. -/
def isActive : Strategy → Bool
  | active _ => true
  | _ => false

/-- The thresholds, where hedging is on. -/
def thresholds? : Strategy → Option Thresholds
  | active t => some t
  | _ => none

/-- How a strategy is reported. -/
def text : Strategy → String
  | unset => "unset"
  | disabled => "disabled"
  | active t =>
    "cross-region hedging (threshold=" ++ toString t.first ++ "ms, step=" ++ toString t.step
      ++ "ms)"

/-- The decision of an outer scope around an inner one: the inner one's, unless it is open. -/
def overriddenBy (outer inner : Strategy) : Strategy :=
  match inner with
  | unset => outer
  | _ => inner

/-- The decision of nested scopes, the outermost first. -/
def resolve (scopes : List Strategy) : Strategy :=
  scopes.foldl overriddenBy unset

/-- The decision that an intent asks for; no intent leaves it open. -/
def ofIntent : Option Intent → Except ConfigError Strategy
  | none => .ok unset
  | some (.enabled true) => .ok (active Thresholds.standard)
  | some (.enabled false) => .ok disabled
  | some (.thresholds r) => do return active (← Thresholds.ofRequest r)

/-- The decision for an operation with an intent of its own, around which stands a default. -/
def withOverride (default : Strategy) (intent : Option Intent) : Except ConfigError Strategy := do
  return resolve [default, ← ofIntent intent]

@[simp]
theorem unset_overriddenBy (s : Strategy) : unset.overriddenBy s = s := by
  cases s <;> rfl

@[simp]
theorem overriddenBy_unset (s : Strategy) : s.overriddenBy unset = s := rfl

/-- An inner scope that is not open decides. -/
theorem overriddenBy_of_ne_unset {inner : Strategy} (h : inner ≠ unset) (outer : Strategy) :
    outer.overriddenBy inner = inner := by
  rcases inner with - | - | t
  · exact absurd rfl h
  · rfl
  · rfl

theorem overriddenBy_assoc (a b c : Strategy) :
    (a.overriddenBy b).overriddenBy c = a.overriddenBy (b.overriddenBy c) := by
  cases c <;> rfl

end Strategy
end Hedging
