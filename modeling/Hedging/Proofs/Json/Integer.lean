import Hedging.Proofs.Json.Text

/-!
# Integers read back

The decimal digits of an integer are read as one numeral, since they start with a zero only
where it is the whole number (`toDigits_ne_zero_cons`), and denote that integer as long as it
has 64 bits, signed or not (`ofText?_toString`).
-/

namespace Hedging
namespace Json

theorem toList_toString_nat (m : Nat) : (toString m).toList = Nat.toDigits 10 m := by
  rw [Nat.toString_eq_ofList_toDigits, String.toList_ofList]

theorem isDigit_of_mem_toDigits {m : Nat} {c : Char} (h : c ∈ Nat.toDigits 10 m) :
    c.isDigit = true :=
  Nat.isDigit_of_mem_toDigits (by decide) (by decide) h

/-- Only the number zero is written with a zero in front. -/
theorem toDigits_ne_zero_cons (m : Nat) (d : Char) (ds : List Char) :
    Nat.toDigits 10 m ≠ '0' :: d :: ds := by
  induction m using Nat.strongRecOn generalizing d ds with
  | _ m ih =>
    intro h
    by_cases hm : m < 10
    · rw [Nat.toDigits_of_lt_base hm] at h
      exact List.cons_ne_nil d ds (List.cons.inj h).2.symm
    · rw [Nat.toDigits_eq_if (by decide), if_neg hm] at h
      cases hq : Nat.toDigits 10 (m / 10) with
      | nil => exact Nat.toDigits_ne_nil hq
      | cons c cs =>
        rw [hq, List.cons_append, List.cons.injEq] at h
        obtain ⟨rfl, -⟩ := h
        cases cs with
        | nil =>
          have hzero : m / 10 = 0 := by
            rw [← Nat.ofDigitChars_ten_toDigits (n := m / 10), hq]
            rfl
          omega
        | cons d' ds' => exact ih (m / 10) (by omega) d' ds' hq

namespace Numeral

theorem le_ofDigitChars (cs : List Char) (n : Nat) : n ≤ Nat.ofDigitChars 10 cs n := by
  rw [Nat.ofDigitChars_eq_ofDigitChars_zero]
  have hpow : 1 * n ≤ 10 ^ cs.length * n := Nat.mul_le_mul_right n (Nat.one_le_pow _ _ (by decide))
  omega

/-- Digits whose number has 64 bits are all taken. -/
theorem absorb_of_lt {cs : List Char} :
    ∀ {n : Nat}, Nat.ofDigitChars 10 cs n < 0x10000000000000000 →
      absorb n cs = (Nat.ofDigitChars 10 cs n, []) := by
  induction cs with
  | nil => exact fun _ => rfl
  | cons c cs ih =>
    intro n h
    rw [Nat.ofDigitChars_cons] at h ⊢
    have hlt := Nat.lt_of_le_of_lt (le_ofDigitChars cs _) h
    rw [absorb, if_pos hlt, ih h]

theorem digits_toDigits (m : Nat) : digits (Nat.toDigits 10 m) = (Nat.toDigits 10 m, []) := by
  have hall : ∀ c ∈ Nat.toDigits 10 m, c.isDigit = true := fun c => isDigit_of_mem_toDigits
  rw [digits, ← List.append_nil (Nat.toDigits 10 m), List.takeWhile_append_of_pos hall,
    List.dropWhile_append_of_pos hall]
  simp

/-- **A number at the front of a text is told from what follows it**, if no numeral goes on with
that. -/
theorem toDigits_append_inj {m n : Nat} {x y : List Char} (hx : Ends x) (hy : Ends y)
    (h : Nat.toDigits 10 m ++ x = Nat.toDigits 10 n ++ y) : m = n ∧ x = y := by
  have hsplit := congrArg digits h
  rw [digits_append_rest hx, digits_append_rest hy, digits_toDigits, digits_toDigits] at hsplit
  obtain ⟨hdigits, hrest⟩ := Prod.mk.inj hsplit
  have hnumber := congrArg (Nat.ofDigitChars 10 · 0) hdigits
  simp only [Nat.ofDigitChars_ten_toDigits] at hnumber
  exact ⟨hnumber, hrest⟩

theorem scan?_toDigits (negative : Bool) (m : Nat) :
    scan? negative (Nat.toDigits 10 m) = some (⟨negative, Nat.toDigits 10 m, none, none⟩, []) := by
  have hwhole : whole? (Nat.toDigits 10 m) = some (Nat.toDigits 10 m, []) :=
    whole?_eq_some_iff.2 ⟨digits_toDigits m, Nat.toDigits_ne_nil, toDigits_ne_zero_cons m⟩
  rw [scan?, hwhole]
  rfl

theorem number?_toDigits (negative : Bool) {m : Nat} (h : m < 0x10000000000000000) :
    number? ⟨negative, Nat.toDigits 10 m, none, none⟩ = some (integer negative m) := by
  have habsorb : absorb 0 (Nat.toDigits 10 m) = (m, []) := by
    rw [absorb_of_lt (by rwa [Nat.ofDigitChars_ten_toDigits]), Nat.ofDigitChars_ten_toDigits]
  simp only [number?, habsorb]

theorem integer_true {m : Nat} (hpos : 0 < m) (h : m ≤ 0x8000000000000000) :
    integer true m = .integer (-m) := by
  have hin : ¬(m = 0 ∨ 0x8000000000000000 < m) := by omega
  rw [integer, if_neg (by decide), if_neg hin]

end Numeral

namespace Token

theorem number?_toDigits (negative : Bool) {m : Nat} (h : m < 0x10000000000000000) :
    number? negative (Nat.toDigits 10 m) =
      some (number (some (Numeral.integer negative m)), []) := by
  rw [number?, Numeral.scan?_toDigits, Option.bind_eq_bind, Option.bind_some]
  simp only [Numeral.number?_toDigits negative h, Option.pure_def]

/-- A digit starts a numeral. -/
theorem next?_of_isDigit {c : Char} (h : c.isDigit = true) (cs : List Char) :
    next? c cs = number? false (c :: cs) := by
  have hstarts : starts.all (fun d => !d.isDigit) = true := rfl
  refine next?_of_not_mem_starts (fun hc => ?_) cs
  have hdigit := List.all_eq_true.1 hstarts c hc
  rw [h] at hdigit
  cases hdigit

theorem isSpace_of_isDigit {c : Char} (h : c.isDigit = true) : isSpace c = false := by
  cases hc : isSpace c with
  | false => rfl
  | true =>
    simp only [isSpace, Bool.or_eq_true, decide_eq_true_eq] at hc
    rcases hc with ((rfl | rfl) | rfl) | rfl <;> cases h

theorem scan?_toDigits {m : Nat} (h : m < 0x10000000000000000) :
    scan? [] (Nat.toDigits 10 m) = some [number (some (.integer m))] := by
  have hnumber := number?_toDigits false h
  cases hm : Nat.toDigits 10 m with
  | nil => exact absurd hm Nat.toDigits_ne_nil
  | cons c cs =>
    have hc : c.isDigit = true := isDigit_of_mem_toDigits (hm ▸ List.mem_cons_self)
    rw [hm] at hnumber
    rw [scan?_cons (isSpace_of_isDigit hc), next?_of_isDigit hc, hnumber, Option.bind_some, scan?]
    rfl

theorem scan?_minus_toDigits {m : Nat} (hpos : 0 < m) (h : m ≤ 0x8000000000000000) :
    scan? [] ('-' :: Nat.toDigits 10 m) = some [number (some (.integer (-m)))] := by
  have hnext : next? '-' (Nat.toDigits 10 m) = number? true (Nat.toDigits 10 m) := rfl
  rw [scan?_cons rfl, hnext, number?_toDigits true (by omega), Option.bind_some, scan?,
    Numeral.integer_true hpos h]
  rfl

end Token

/-- **An integer of 64 bits is read back from its decimal text.** -/
theorem Document.ofText?_toString {i : Int} (hlow : -0x8000000000000000 ≤ i)
    (hhigh : i < 0x10000000000000000) :
    Document.ofText? (toString i) = some (.number (some (.integer i))) := by
  refine Document.ofText?_eq_some_iff.2 ⟨[.number (some (.integer i))], ?_, rfl⟩
  cases i with
  | ofNat m =>
    have htext : toString (Int.ofNat m) = toString m := rfl
    have hm : m < 0x10000000000000000 := Int.ofNat_lt.1 hhigh
    rw [htext, toList_toString_nat, Token.scan?_toDigits hm]
    rfl
  | negSucc m =>
    have htext : toString (Int.negSucc m) = "-" ++ toString (m + 1) := rfl
    have hminus : "-".toList = ['-'] := rfl
    rw [htext, String.toList_append, hminus, toList_toString_nat, List.singleton_append,
      Token.scan?_minus_toDigits (Nat.succ_pos m) (by omega)]
    rfl

end Json
end Hedging
