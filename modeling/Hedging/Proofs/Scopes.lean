import Hedging.Strategy.Basic
import Mathlib.Algebra.BigOperators.Group.List.Basic

/-!
# Nested scopes

Strategies under nesting are a monoid, in which `unset` is the identity, and the decision of
nested scopes is their product (`resolve_eq_prod`).  So the decision of a nesting is that of its
parts, may be folded from either end, and ignores open scopes.  A product is its last factor that
is not open (`resolve_eq_getLast?`): nobody outside the deciding scope has a say
(`resolve_append_of_ne_unset`).
-/

namespace Hedging
namespace Strategy

/-- Scopes multiply by nesting, the outer one on the left. -/
instance : Monoid Strategy where
  mul := overriddenBy
  one := unset
  mul_assoc := overriddenBy_assoc
  one_mul := unset_overriddenBy
  mul_one := overriddenBy_unset

theorem mul_eq (outer inner : Strategy) : outer * inner = outer.overriddenBy inner := rfl

theorem one_eq : (1 : Strategy) = unset := rfl

theorem mul_eq_unset_iff {outer inner : Strategy} :
    outer * inner = unset ↔ outer = unset ∧ inner = unset := by
  cases inner <;> simp [mul_eq, overriddenBy]

theorem mul_of_ne_unset (outer : Strategy) {inner : Strategy} (h : inner ≠ unset) :
    outer * inner = inner :=
  overriddenBy_of_ne_unset h outer

variable {inner scopes : List Strategy} {s : Strategy}

/-! ### The product -/

/-- **The decision of nested scopes is their product.** -/
theorem resolve_eq_prod (scopes : List Strategy) : resolve scopes = scopes.prod :=
  List.prod_eq_foldl.symm

theorem resolve_cons (s : Strategy) (inner : List Strategy) :
    resolve (s :: inner) = s * resolve inner := by
  rw [resolve_eq_prod, resolve_eq_prod, List.prod_cons]

theorem resolve_append (outer inner : List Strategy) :
    resolve (outer ++ inner) = resolve outer * resolve inner := by
  simp only [resolve_eq_prod, List.prod_append]

/-- Scopes may be folded from the innermost outwards too. -/
theorem resolve_eq_foldr (scopes : List Strategy) :
    resolve scopes = scopes.foldr overriddenBy unset :=
  (resolve_eq_prod scopes).trans List.prod_eq_foldr

/-- **Open scopes do not matter.** -/
theorem resolve_filter (scopes : List Strategy) :
    resolve (scopes.filter (· ≠ unset)) = resolve scopes := by
  have hopen : (fun s : Strategy => decide (s ≠ unset)) = (· != 1) := by
    funext s
    rw [one_eq, bne, beq_eq_decide, decide_not]
  rw [hopen, resolve_eq_prod, resolve_eq_prod, List.prod_filter_bne_one]

/-! ### The deciding scope -/

/-- **Nobody outside scopes that decide has a say.** -/
theorem resolve_append_of_ne_unset (outer : List Strategy) (h : resolve inner ≠ unset) :
    resolve (outer ++ inner) = resolve inner :=
  (resolve_append outer inner).trans (mul_of_ne_unset _ h)

/-- Hedging is left open if every scope leaves it open. -/
theorem resolve_eq_unset_iff : resolve scopes = unset ↔ ∀ s ∈ scopes, s = unset := by
  induction scopes with
  | nil => exact ⟨fun _ s hs => absurd hs List.not_mem_nil, fun _ => rfl⟩
  | cons s inner ih => rw [resolve_cons, mul_eq_unset_iff, ih, List.forall_mem_cons]

/-- **Which scope decides**: one that is not open, and inside which all are. -/
theorem resolve_eq_iff (hs : s ≠ unset) :
    resolve scopes = s ↔ ∃ outer inner, scopes = outer ++ s :: inner ∧ ∀ i ∈ inner, i = unset := by
  constructor
  · intro h
    induction scopes with
    | nil => exact absurd h.symm hs
    | cons first scopes ih =>
      rw [resolve_cons] at h
      by_cases hopen : resolve scopes = unset
      · rw [hopen] at h
        obtain rfl : first = s := h
        exact ⟨[], scopes, rfl, resolve_eq_unset_iff.1 hopen⟩
      · obtain ⟨outer, inner, rfl, hinner⟩ := ih ((mul_of_ne_unset first hopen).symm.trans h)
        exact ⟨first :: outer, inner, rfl, hinner⟩
  · rintro ⟨outer, inner, rfl, hinner⟩
    have hdecides : resolve (s :: inner) = s := by
      rw [resolve_cons, resolve_eq_unset_iff.2 hinner]
      rfl
    rw [resolve_append_of_ne_unset outer (hdecides.symm ▸ hs), hdecides]

/-- **The decision is that of the last scope which is not open.** -/
theorem resolve_eq_getLast? (scopes : List Strategy) :
    resolve scopes = ((scopes.filter (· ≠ unset)).getLast?).getD unset := by
  cases hlast : (scopes.filter (· ≠ unset)).getLast? with
  | none =>
    rw [← resolve_filter, List.getLast?_eq_none_iff.1 hlast]
    rfl
  | some s =>
    have hs : s ≠ unset := of_decide_eq_true (List.mem_filter.1 (List.mem_of_getLast? hlast)).2
    obtain ⟨outer, houter⟩ := List.getLast?_eq_some_iff.1 hlast
    rw [← resolve_filter, houter]
    exact (resolve_eq_iff hs).2 ⟨outer, [], rfl, fun _ hi => absurd hi List.not_mem_nil⟩

/-! ### Operations -/

section
variable {intent : Option Intent} {own : Strategy}

theorem withOverride_of_ok (h : ofIntent intent = .ok own) (default : Strategy) :
    default.withOverride intent = .ok (resolve [default, own]) := by
  rw [withOverride, h]
  rfl

/-- An operation is one more scope, inside those that its default was decided in. -/
theorem withOverride_resolve (h : ofIntent intent = .ok own) (scopes : List Strategy) :
    (resolve scopes).withOverride intent = .ok (resolve (scopes ++ [own])) := by
  rw [withOverride_of_ok h, resolve_append, resolve_cons]

end

/-- **Folding scopes is a homomorphism of monoids.**  Strategies under `overriddenBy`, with the
identity `unset`, are a monoid, and the decision of a nesting comes from those of its two parts.
It is the last scope that is not open, or `unset` if there is none: a strategy that is not open is
the decision if and only if it stands somewhere and all scopes inside are open.  So it does not
matter from which end one folds, scopes that are open can be put in and left out, and scopes
outside the deciding one can be replaced by any others.  An operation with an intent that is not
refused is one more scope, the innermost. -/
theorem resolve_is_homomorphism :
    (resolve [] = unset ∧ ∀ outer inner : List Strategy,
      resolve (outer ++ inner) = (resolve outer).overriddenBy (resolve inner)) ∧
    (∀ scopes : List Strategy,
      resolve scopes = ((scopes.filter (· ≠ unset)).getLast?).getD unset ∧
      resolve scopes = scopes.foldr overriddenBy unset ∧
      (resolve scopes = unset ↔ ∀ s ∈ scopes, s = unset) ∧
      ∀ s, s ≠ unset → (resolve scopes = s ↔
        ∃ outer inner, scopes = outer ++ s :: inner ∧ ∀ i ∈ inner, i = unset)) ∧
    (∀ scopes scopes' : List Strategy,
      scopes.filter (· ≠ unset) = scopes'.filter (· ≠ unset) → resolve scopes = resolve scopes') ∧
    (∀ outer outer' inner : List Strategy, resolve inner ≠ unset →
      resolve (outer ++ inner) = resolve (outer' ++ inner)) ∧
    ∀ (intent : Option Intent) (own : Strategy), ofIntent intent = .ok own →
      (∀ default : Strategy, default.withOverride intent = .ok (resolve [default, own])) ∧
      ∀ scopes : List Strategy,
        (resolve scopes).withOverride intent = .ok (resolve (scopes ++ [own])) := by
  refine ⟨⟨rfl, resolve_append⟩, fun scopes => ?decision, ?spaced, ?outside, ?operation⟩
  case decision =>
    exact ⟨resolve_eq_getLast? scopes, resolve_eq_foldr scopes, resolve_eq_unset_iff,
      fun _ hs => resolve_eq_iff hs⟩
  case spaced =>
    intro scopes scopes' h
    rw [← resolve_filter scopes, h, resolve_filter]
  case outside =>
    intro outer outer' inner h
    rw [resolve_append_of_ne_unset outer h, resolve_append_of_ne_unset outer' h]
  case operation =>
    intro intent own hown
    exact ⟨withOverride_of_ok hown, withOverride_resolve hown⟩

/-- A scope that forbids hedging decides between open ones, whatever stands outside; a request
inside it turns hedging on again. -/
theorem resolve_is_homomorphism_of_five :
    let t : Thresholds := { first := 50, step := 10 }
    let scopes : List Strategy := [.active .standard, .unset, .disabled, .unset]
    resolve scopes = .disabled ∧ resolve scopes = resolve [.disabled, .unset] ∧
      resolve ([.active .standard] ++ [.unset, .disabled]) = resolve ([] ++ [.unset, .disabled]) ∧
      (resolve scopes).withOverride (some (.thresholds ⟨some 50, some 10⟩))
        = .ok (resolve (scopes ++ [.active t])) ∧
      resolve (scopes ++ [.active t]) = .active t := by
  intro t scopes
  obtain ⟨-, hdecision, -, houtside, hoperation⟩ := resolve_is_homomorphism
  have hdisabled : ∀ outer, resolve (outer ++ [.disabled, .unset]) = .disabled := fun outer =>
    ((hdecision _).2.2.2 .disabled nofun).2 ⟨outer, [.unset], rfl, by simp⟩
  have hforbidden : resolve scopes = .disabled := hdisabled [.active .standard, .unset]
  have hactive : resolve (scopes ++ [.active t]) = .active t :=
    ((hdecision _).2.2.2 (.active t) nofun).2 ⟨scopes, [], rfl, by simp⟩
  exact ⟨hforbidden, hforbidden.trans (hdisabled []).symm, houtside _ _ _ nofun,
    (hoperation _ (.active t) rfl).2 scopes, hactive⟩

end Strategy
end Hedging
