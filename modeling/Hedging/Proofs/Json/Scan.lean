import Hedging.Json.Document
import Hedging.Json.Value

/-!
# Tokens of a text inside another

A numeral, a string and a token are read the same where more text follows, as long as no
numeral could go on with it (`Ends`).  So the tokens of two texts in a row are those of the
first and then those of the second (`Token.scan?_append`), and what is written for a string is
one token that holds the string (`Token.scan?_stringText`).
-/

namespace Hedging
namespace Json

/-- No numeral goes on with this text. -/
def Ends (cs : List Char) : Prop :=
  ∀ c ∈ cs.head?, c.isDigit = false ∧ c ≠ '.' ∧ c ≠ 'e' ∧ c ≠ 'E'

theorem ends_cons {c : Char} (cs : List Char)
    (h : c.isDigit = false ∧ c ≠ '.' ∧ c ≠ 'e' ∧ c ≠ 'E' := by decide) : Ends (c :: cs) := by
  intro d hd
  obtain rfl : c = d := Option.some.inj hd
  exact h

/-! ### Numerals -/

namespace Numeral

variable {x : List Char}

theorem digits_append_rest (hx : Ends x) (cs : List Char) :
    digits (cs ++ x) = ((digits cs).1, (digits cs).2 ++ x) := by
  induction cs with
  | nil =>
    cases x with
    | nil => rfl
    | cons c x =>
      have hc := (hx c rfl).1
      simp [digits, hc]
  | cons c cs ih =>
    cases hc : c.isDigit with
    | true =>
      simp only [digits, Prod.mk.injEq] at ih
      simp only [digits, List.cons_append, List.takeWhile_cons_of_pos hc,
        List.dropWhile_cons_of_pos hc, ih]
    | false => simp [digits, hc]

theorem whole?_eq_some_iff {cs ds rest : List Char} :
    whole? cs = some (ds, rest) ↔
      digits cs = (ds, rest) ∧ ds ≠ [] ∧ ∀ d ds', ds ≠ '0' :: d :: ds' := by
  unfold whole?
  split
  · rename_i rest' h
    simp only [h, reduceCtorEq, false_iff, not_and]
    rintro heq hne
    exact absurd (Prod.mk.inj heq).1.symm hne
  · rename_i d ds' rest' h
    simp only [h, reduceCtorEq, false_iff, not_and]
    rintro heq - hzero
    exact hzero d ds' (Prod.mk.inj heq).1.symm
  · rename_i ds' rest' hne hzero h
    rw [h, Option.some.injEq]
    constructor
    · rintro heq
      obtain ⟨rfl, rfl⟩ := Prod.mk.inj heq
      exact ⟨rfl, hne, hzero⟩
    · exact fun heq => heq.1

theorem fraction?_of_ne {cs : List Char} (h : cs.head? ≠ some '.') :
    fraction? cs = some (none, cs) := by
  unfold fraction?
  split
  · exact absurd rfl h
  · rfl

theorem exponent?_of_ne {cs : List Char} (h : ∀ c ∈ cs.head?, c ≠ 'e' ∧ c ≠ 'E') :
    exponent? cs = some (none, cs) := by
  cases cs with
  | nil => rfl
  | cons c cs =>
    obtain ⟨he, hE⟩ := h c rfl
    simp [exponent?, he, hE]

variable {cs rest : List Char}

theorem whole?_append (hx : Ends x) {ds : List Char} (h : whole? cs = some (ds, rest)) :
    whole? (cs ++ x) = some (ds, rest ++ x) := by
  obtain ⟨hdigits, hne, hzero⟩ := whole?_eq_some_iff.1 h
  refine whole?_eq_some_iff.2 ⟨?_, hne, hzero⟩
  rw [digits_append_rest hx, hdigits]

theorem fraction?_append (hx : Ends x) {f : Option (List Char)}
    (h : fraction? cs = some (f, rest)) : fraction? (cs ++ x) = some (f, rest ++ x) := by
  cases cs with
  | nil =>
    obtain ⟨rfl, rfl⟩ := Prod.mk.inj (Option.some.inj h)
    exact fraction?_of_ne fun hdot => (hx '.' hdot).2.1 rfl
  | cons c cs =>
    by_cases hdot : c = '.'
    · subst hdot
      have hdigits := digits_append_rest hx cs
      simp only [fraction?, List.cons_append] at h ⊢
      rw [hdigits]
      split at h <;> simp_all
    · have hne : (c :: cs).head? ≠ some '.' := fun heq => hdot (Option.some.inj heq)
      rw [fraction?_of_ne hne] at h
      obtain ⟨rfl, rfl⟩ := Prod.mk.inj (Option.some.inj h)
      exact fraction?_of_ne hne

theorem exponent?_append (hx : Ends x) {e : Option (Bool × List Char)}
    (h : exponent? cs = some (e, rest)) : exponent? (cs ++ x) = some (e, rest ++ x) := by
  cases cs with
  | nil =>
    obtain ⟨rfl, rfl⟩ := Prod.mk.inj (Option.some.inj h)
    exact exponent?_of_ne fun c hc => (hx c hc).2.2
  | cons c cs =>
    by_cases he : c = 'e' ∨ c = 'E'
    · have hsign : (exponentSign cs).2 ≠ [] →
          exponentSign (cs ++ x) = ((exponentSign cs).1, (exponentSign cs).2 ++ x) := by
        intro hne
        cases cs with
        | nil => exact absurd rfl hne
        | cons d cs =>
          unfold exponentSign
          split <;> simp_all
      have hdigits := digits_append_rest hx (exponentSign cs).2
      simp only [exponent?, List.cons_append, he, if_true] at h ⊢
      by_cases hne : (exponentSign cs).2 = []
      · rw [hne] at h
        cases h
      · rw [hsign hne, hdigits]
        split at h <;> simp_all
    · have hne : ∀ d ∈ (c :: cs).head?, d ≠ 'e' ∧ d ≠ 'E' := fun d hd => by
        obtain rfl : c = d := Option.some.inj hd
        exact not_or.1 he
      rw [exponent?_of_ne hne] at h
      obtain ⟨rfl, rfl⟩ := Prod.mk.inj (Option.some.inj h)
      exact exponent?_of_ne hne

theorem scan?_append (hx : Ends x) {negative : Bool} {n : Numeral}
    (h : scan? negative cs = some (n, rest)) : scan? negative (cs ++ x) = some (n, rest ++ x) := by
  simp only [scan?, Option.bind_eq_bind, Option.bind_eq_some_iff, Option.pure_def,
    Option.some.injEq, Prod.mk.injEq, Prod.exists] at h ⊢
  obtain ⟨ds, cs₁, h₁, f, cs₂, h₂, e, cs₃, h₃, rfl, rfl⟩ := h
  exact ⟨ds, _, whole?_append hx h₁, f, _, fraction?_append hx h₂, e, _, exponent?_append hx h₃,
    rfl, rfl⟩

end Numeral

/-! ### Strings -/

namespace Piece

/-! What a string writes, as equations of its scanner. -/

theorem scan?_plain {done : List Piece} {c : Char} {cs : List Char} (hq : c ≠ '"')
    (hb : c ≠ '\\') (hc : ¬c < ' ') : scan? done (c :: cs) = scan? (.char c :: done) cs := by
  rw [scan?.eq_def]
  simp [hq, hb, hc]

theorem scan?_escaped {done : List Piece} {e d : Char} {cs : List Char}
    (h : escaped? e = some d) : scan? done ('\\' :: e :: cs) = scan? (.char d :: done) cs := by
  have hu : e ≠ 'u' := by
    rintro rfl
    cases h
  rw [scan?.eq_def]
  simp [h, hu]

theorem scan?_unit {done : List Piece} {w x y z : Char} {u : Nat} {cs : List Char}
    (h : unit? w x y z = some u) :
    scan? done ('\\' :: 'u' :: w :: x :: y :: z :: cs) = scan? (.unit u :: done) cs := by
  rw [scan?.eq_def]
  simp [h]

theorem scan?_append {done ps : List Piece} {cs rest : List Char}
    (h : scan? done cs = some (ps, rest)) (x : List Char) :
    scan? done (cs ++ x) = some (ps, rest ++ x) := by
  fun_induction scan? done cs with
  | case1 => cases h
  | case2 done rest' =>
    obtain ⟨rfl, rfl⟩ := Prod.mk.inj (Option.some.inj h)
    unfold scan?
    rfl
  | case3 => cases h
  | case4 done w x' y z rest' u hu _ ih =>
    rw [← ih h]
    exact scan?_unit hu
  | case5 => cases h
  | case6 done _ e rest' d hd _ ih =>
    rw [← ih h]
    exact scan?_escaped hd
  | case7 => cases h
  | case8 => cases h
  | case9 done c rest' hq hb hc ih =>
    rw [← ih h]
    exact scan?_plain hq hb hc

theorem unit?_digitChar : ∀ n < 32,
    unit? '0' '0' (Nat.digitChar (n / 16)) (Nat.digitChar (n % 16)) = some n := by
  decide

/-- What is written for a character is one piece that stands for it. -/
theorem scan?_escapedChar (c : Char) (done : List Piece) (cs : List Char) :
    ∃ p, scan? done (escapedChar c ++ cs) = scan? (p :: done) cs ∧
      ∀ acc ps, text? acc (p :: ps) = text? (c :: acc) ps := by
  have letter : ∀ {e : Char}, escaped? e = some c →
      ∃ p, scan? done (['\\', e] ++ cs) = scan? (p :: done) cs ∧
        ∀ acc ps, text? acc (p :: ps) = text? (c :: acc) ps :=
    fun he => ⟨.char c, scan?_escaped he, fun _ _ => rfl⟩
  unfold escapedChar
  split
  · next h => exact letter (by rw [h]; rfl)
  split
  · next h => exact letter (by rw [h]; rfl)
  split
  · next h => exact letter (by rw [h]; rfl)
  split
  · next h => exact letter (by rw [h]; rfl)
  split
  · next h => exact letter (by rw [h]; rfl)
  split
  · next h => exact letter (by rw [h]; rfl)
  split
  · next h => exact letter (by rw [h]; rfl)
  split
  · next h =>
    have hlt : c.toNat < 32 := h
    -- A control character is far below the surrogates, so its unit stands alone.
    have hhigh : isHigh c.toNat = false :=
      Bool.and_eq_false_iff.2 (.inl (decide_eq_false (by omega)))
    have hlow : isLow c.toNat = false :=
      Bool.and_eq_false_iff.2 (.inl (decide_eq_false (by omega)))
    refine ⟨.unit c.toNat, scan?_unit (unit?_digitChar _ hlt), fun acc ps => ?_⟩
    rw [text?.eq_def]
    simp [hhigh, hlow]
  · next hq hb _ _ _ _ _ hc => exact ⟨.char c, scan?_plain hq hb hc, fun _ _ => rfl⟩

theorem scan?_flatMap_escapedChar (s x : List Char) : ∀ done,
    ∃ ps, scan? done (s.flatMap escapedChar ++ '"' :: x) = some (done.reverse ++ ps, x) ∧
      ∀ acc, text? acc ps = some (acc.reverse ++ s) := by
  induction s with
  | nil =>
    intro done
    refine ⟨[], ?_, fun acc => by simp [text?]⟩
    rw [List.append_nil, scan?.eq_def]
    rfl
  | cons c s ih =>
    intro done
    obtain ⟨p, hscan, htext⟩ := scan?_escapedChar c done (s.flatMap escapedChar ++ '"' :: x)
    obtain ⟨ps, hps, hacc⟩ := ih (p :: done)
    refine ⟨p :: ps, ?_, fun acc => ?_⟩
    · rw [List.flatMap_cons, List.append_assoc, hscan, hps]
      simp
    · rw [htext, hacc]
      simp

end Piece

/-! ### Tokens -/

theorem after?_append {ws cs rest : List Char} (h : after? ws cs = some rest) (x : List Char) :
    after? ws (cs ++ x) = some (rest ++ x) := by
  fun_induction after? ws cs <;> simp_all [after?]

namespace Token

theorem string?_append {cs rest : List Char} {t : Token} (h : string? cs = some (t, rest))
    (x : List Char) : string? (cs ++ x) = some (t, rest ++ x) := by
  simp only [string?, Option.bind_eq_bind, Option.bind_eq_some_iff, Option.pure_def,
    Option.some.injEq, Prod.mk.injEq, Prod.exists] at h ⊢
  obtain ⟨ps, r, h, rfl, rfl⟩ := h
  exact ⟨ps, _, Piece.scan?_append h x, rfl, rfl⟩

theorem number?_append {x : List Char} (hx : Ends x) {negative : Bool} {cs rest : List Char}
    {t : Token} (h : number? negative cs = some (t, rest)) :
    number? negative (cs ++ x) = some (t, rest ++ x) := by
  simp only [number?, Option.bind_eq_bind, Option.bind_eq_some_iff, Option.pure_def,
    Option.some.injEq, Prod.mk.injEq, Prod.exists] at h ⊢
  obtain ⟨n, r, h, rfl, rfl⟩ := h
  exact ⟨n, _, Numeral.scan?_append hx h, rfl, rfl⟩

/-- The characters that tokens other than numerals without a sign start with. -/
def starts : List Char := ['[', ']', '\x7b', '\x7d', ',', ':', '"', 'n', 't', 'f', '-']

theorem next?_of_not_mem_starts {c : Char} (h : c ∉ starts) (cs : List Char) :
    next? c cs = number? false (c :: cs) := by
  simp only [starts, List.mem_cons, List.not_mem_nil, or_false, not_or] at h
  simp [next?, punctuation?, h]

/-- **A token is the same where no numeral could go on.** -/
theorem next?_append {x : List Char} (hx : Ends x) {c : Char} {cs rest : List Char} {t : Token}
    (h : next? c cs = some (t, rest)) : next? c (cs ++ x) = some (t, rest ++ x) := by
  have word : ∀ {ws : List Char} {u : Token}, (after? ws cs).map (u, ·) = some (t, rest) →
      (after? ws (cs ++ x)).map (u, ·) = some (t, rest ++ x) := by
    intro ws u hw
    obtain ⟨r, hr, heq⟩ := Option.map_eq_some_iff.1 hw
    obtain ⟨rfl, rfl⟩ := Prod.mk.inj heq
    rw [after?_append hr, Option.map_some]
  unfold next? at h ⊢
  cases hp : punctuation? c with
  | some u =>
    simp only [hp, Option.some.injEq, Prod.mk.injEq] at h ⊢
    exact ⟨h.1, congrArg (· ++ x) h.2⟩
  | none =>
    simp only [hp] at h ⊢
    by_cases h1 : c = '"'
    · rw [if_pos h1] at h ⊢
      exact string?_append h x
    by_cases h2 : c = 'n'
    · rw [if_neg h1, if_pos h2] at h ⊢
      exact word h
    by_cases h3 : c = 't'
    · rw [if_neg h1, if_neg h2, if_pos h3] at h ⊢
      exact word h
    by_cases h4 : c = 'f'
    · rw [if_neg h1, if_neg h2, if_neg h3, if_pos h4] at h ⊢
      exact word h
    by_cases h5 : c = '-'
    · rw [if_neg h1, if_neg h2, if_neg h3, if_neg h4, if_pos h5] at h ⊢
      exact number?_append hx h
    · rw [if_neg h1, if_neg h2, if_neg h3, if_neg h4, if_neg h5] at h ⊢
      exact number?_append hx h

theorem scan?_space {c : Char} {done : List Token} {cs : List Char} (h : isSpace c = true) :
    scan? done (c :: cs) = scan? done cs := by
  rw [scan?, if_pos h]

theorem scan?_cons {c : Char} {done : List Token} {cs : List Char} (h : isSpace c = false) :
    scan? done (c :: cs) = (next? c cs).bind fun p => scan? (p.1 :: done) p.2 := by
  rw [scan?, h, if_neg Bool.false_ne_true]
  split <;> rename_i hn <;> rw [hn] <;> rfl

/-- Tokens found so far stand in front of the others. -/
theorem scan?_done (done : List Token) :
    ∀ cs, scan? done cs = (scan? [] cs).map (done.reverse ++ ·)
  | [] => by simp [scan?]
  | c :: cs => by
    cases hspace : isSpace c with
    | true => rw [scan?_space hspace, scan?_space hspace, scan?_done done cs]
    | false =>
      rw [scan?_cons hspace, scan?_cons hspace]
      cases h : next? c cs with
      | none => rfl
      | some p =>
        have hlt := length_next? h
        rw [Option.bind_some, Option.bind_some, scan?_done (p.1 :: done) p.2,
          scan?_done [p.1] p.2, Option.map_map]
        simp [Function.comp_def]
termination_by cs => cs.length

theorem scan?_punctuation {c : Char} {t : Token} {cs : List Char} (hc : isSpace c = false)
    (ht : punctuation? c = some t) : scan? [] (c :: cs) = (scan? [] cs).map (t :: ·) := by
  rw [scan?_cons hc, next?, ht, Option.bind_some, scan?_done]
  rfl

/-- **The tokens of two texts in a row.** -/
theorem scan?_append {x : List Char} (hx : Ends x) {cs : List Char} {ts : List Token}
    (h : scan? [] cs = some ts) : scan? [] (cs ++ x) = (scan? [] x).map (ts ++ ·) := by
  match cs with
  | [] =>
    obtain rfl : [] = ts := by simpa [scan?] using h
    simp
  | c :: cs =>
    cases hspace : isSpace c with
    | true =>
      rw [scan?_space hspace] at h
      rw [List.cons_append, scan?_space hspace, scan?_append hx h]
    | false =>
      rw [scan?_cons hspace, Option.bind_eq_some_iff] at h
      obtain ⟨⟨t, rest⟩, hnext, h⟩ := h
      rw [scan?_done, Option.map_eq_some_iff] at h
      obtain ⟨ts', hts, rfl⟩ := h
      have hlt := length_next? hnext
      rw [List.cons_append, scan?_cons hspace, next?_append hx hnext, Option.bind_some, scan?_done,
        scan?_append hx hts, Option.map_map]
      simp [Function.comp_def]
termination_by cs.length

/-- **A string is read back as one token.** -/
theorem scan?_stringText (s : String) (x : List Char) :
    scan? [] ((stringText s).toList ++ x) = (scan? [] x).map (string (some s) :: ·) := by
  obtain ⟨ps, hscan, htext⟩ := Piece.scan?_flatMap_escapedChar s.toList x []
  have hstring : string? (s.toList.flatMap escapedChar ++ '"' :: x) =
      some (string (some s), x) := by
    simp [string?, hscan, htext, String.ofList_toList]
  have hnext : next? '"' (s.toList.flatMap escapedChar ++ '"' :: x) = some (string (some s), x) :=
    hstring
  rw [stringText, String.toList_ofList, List.append_assoc, List.append_assoc, List.cons_append,
    List.nil_append, List.cons_append, List.nil_append, scan?_cons (by decide), hnext,
    Option.bind_some, scan?_done]
  rfl

end Token
end Json
end Hedging
