import Hedging.Proofs.Dispatch
import Hedging.Proofs.Readers

/-!
# The values that are read as intents

A value of which each key stands once is read as an intent exactly if it is `null`, a boolean,
or an object whose entries for the thresholds are missing, `null` or integers of 64 bits
(`Intent.Denoted`, `Intent.ofValue_eq_ok_iff`), and a numeral denotes an integer only if it is
written as one and is not `-0` (`Json.Numeral.number?_eq_integer_iff`).  The reader of thresholds
alone accepts `null` and the same objects, and differs from that of intents only in what it
checks afterwards (`values_of_strategies`).
-/

namespace Hedging

open Json

/-! ### Numerals of integers -/

namespace Json.Numeral

/-- Digits whose number does not have 64 bits are not all taken. -/
theorem absorb_of_le {cs : List Char} : ∀ {n : Nat}, n < 0x10000000000000000 →
    0x10000000000000000 ≤ Nat.ofDigitChars 10 cs n → (absorb n cs).2 ≠ [] := by
  induction cs with
  | nil =>
    intro n hn h
    rw [Nat.ofDigitChars_nil] at h
    omega
  | cons c cs ih =>
    intro n hn h
    rw [Nat.ofDigitChars_cons] at h
    simp only [absorb]
    split
    · next hlt => exact ih hlt h
    · exact List.cons_ne_nil c cs

theorem integer_eq_integer_iff {negative : Bool} {n : Nat} {i : Int} :
    integer negative n = .integer i ↔
      if negative then 0 < n ∧ n ≤ 0x8000000000000000 ∧ i = -n else i = n := by
  rcases negative with - | -
  · simp [integer, eq_comm]
  · simp only [integer, Bool.not_true, Bool.false_eq_true, if_false, if_true]
    split
    · simp only [reduceCtorEq, false_iff, not_and]
      omega
    · rw [Number.integer.injEq]
      omega

/-- **A numeral denotes an integer if it has neither fraction nor exponent and its number is in
range**; zero has no sign. -/
theorem number?_eq_integer_iff {x : Numeral} {i : Int} :
    x.number? = some (.integer i) ↔
      x.fraction = none ∧ x.exponent = none ∧
        let n := Nat.ofDigitChars 10 x.whole 0
        if x.negative then 0 < n ∧ n ≤ 0x8000000000000000 ∧ i = -n
        else n < 0x10000000000000000 ∧ i = n := by
  obtain ⟨negative, whole, fraction, exponent⟩ := x
  set n := Nat.ofDigitChars 10 whole 0 with hn
  by_cases hlt : n < 0x10000000000000000
  · have habsorb : absorb 0 whole = (n, []) := absorb_of_lt hlt
    rcases fraction with - | ds
    · rcases exponent with - | e
      · simp only [number?, habsorb, Option.some.injEq, integer_eq_integer_iff, hlt, true_and]
      · simp [number?, habsorb]
    · simp [number?, habsorb]
  · have hrest : (absorb 0 whole).2 ≠ [] := absorb_of_le (by decide) (Nat.not_lt.1 hlt)
    have hfloat : number? ⟨negative, whole, fraction, exponent⟩ ≠ some (.integer i) := by
      generalize habsorb : absorb 0 whole = p at hrest
      rcases p with ⟨m, - | ⟨c, cs⟩⟩
      · exact absurd rfl hrest
      · rcases fraction with - | ds <;> simp [number?, habsorb]
    refine iff_of_false hfloat ?_
    rintro ⟨-, -, hrange⟩
    split at hrange <;> omega

end Json.Numeral

/-! ### Entries of an object -/

namespace Json

theorem mem_valuesAt {κ α : Type} [DecidableEq κ] {k : κ} {a : α} {ms : List (κ × α)} :
    a ∈ valuesAt k ms ↔ (k, a) ∈ ms := by
  simp only [valuesAt, List.mem_filterMap, Option.ite_none_right_eq_some, Option.some.injEq]
  constructor
  · rintro ⟨⟨k', a'⟩, hm, rfl, rfl⟩
    exact hm
  · exact fun hm => ⟨(k, a), hm, rfl, rfl⟩

/-- Of a merged object each key has one value at most. -/
theorem length_valuesAt_le_one {ms : List (String × Value)} (h : InKeyOrder ms) (k : String) :
    (valuesAt k ms).length ≤ 1 := by
  induction ms with
  | nil => exact Nat.zero_le 1
  | cons m ms ih =>
    obtain ⟨hhead, htail⟩ := List.pairwise_cons.1 h
    obtain ⟨k', v⟩ := m
    by_cases hk : k' = k
    · subst hk
      rw [valuesAt_cons_self, valuesAt_eq_nil fun m hm e => String.lt_irrefl _ (e ▸ hhead m hm)]
      exact Nat.le_refl 1
    · rw [valuesAt_cons_of_ne hk]
      exact ih htail

/-- Of the members of a value no key is there twice, and they stand in the order of their keys. -/
def Value.IsMerged : Value → Prop
  | .object members => InKeyOrder members
  | _ => True

instance : DecidablePred Value.IsMerged
  | .object members => inferInstanceAs (Decidable (members.Pairwise _))
  | .null | .bool _ | .number _ | .string _ | .array _ => inferInstanceAs (Decidable True)

theorem Document.met?_eq_map_iff {d : Document} :
    d.met? = some .map ↔ ∃ members, d = .object members := by
  cases d <;> simp [met?]

/-- **Whatever is read from a document is merged.** -/
theorem Document.isMerged_of_value? {n : Nat} {d : Document} {v : Value}
    (h : d.value? n = some v) : v.IsMerged := by
  unfold Value.IsMerged
  split
  · obtain ⟨members, rfl⟩ := met?_eq_map_iff.1 (met?_of_value? h)
    obtain ⟨_, ms, -, -, hms⟩ := value?_object_iff.1 h
    obtain rfl := Value.object.inj hms
    exact inKeyOrder_mergeMembers ms
  · trivial

/-- A threshold is read from `null` and from an integer of 64 bits. -/
theorem readOptionalInt64_eq_ok_iff {met : Option Met} {o : Option Int64} :
    readOptionalInt64 met = .ok o ↔
      met = some .null ∧ o = none ∨
        ∃ n : Int64, met = some (.number (.integer n.toInt)) ∧ o = some n := by
  unfold readOptionalInt64
  split
  · simp [eq_comm]
  · next i =>
    cases hi : int64? i with
    | none =>
      have hne : ∀ n : Int64, i ≠ n.toInt := by
        rintro n rfl
        rw [int64?_toInt] at hi
        cases hi
      simp [hne]
    | some n =>
      obtain rfl := toInt_of_int64? hi
      simp [Int64.toInt_inj, eq_comm]
  · next hnull hinteger =>
    rcases met with - | m <;> simp_all [refuse]

end Json

/-! ### Intents -/

namespace ThresholdRequest

/-- What an object gives for a threshold: nothing if its entry is missing or `null`, or the
integer of 64 bits that the entry is. -/
inductive Entry (members : List (String × Value)) (key : String) : Option Int64 → Prop
  | missing (h : ∀ m ∈ members, m.1 ≠ key) : Entry members key none
  | null (h : (key, .null) ∈ members) : Entry members key none
  | integer {n : Int64} (h : (key, .number (.integer n.toInt)) ∈ members) :
    Entry members key (some n)

theorem lastReading_singleton {v : Value} {o : Option Int64} :
    lastReading [v] = .ok o ↔
      v = .null ∧ o = none ∨ ∃ n : Int64, v = .number (.integer n.toInt) ∧ o = some n := by
  have hread : lastReading [v] = readOptionalInt64 (some v.met) := by
    rw [lastReading, List.foldlM_cons]
    cases readOptionalInt64 (some v.met) <;> rfl
  rw [hread, readOptionalInt64_eq_ok_iff]
  cases v <;> simp [Value.met]

/-- **A merged object gives for a threshold what its entry is read as.** -/
theorem entry_iff {members : List (String × Value)} (h : InKeyOrder members) {key : String}
    {o : Option Int64} : Entry members key o ↔ lastReading (valuesAt key members) = .ok o := by
  have hmem : ∀ v, (key, v) ∈ members ↔ v ∈ valuesAt key members := fun v => mem_valuesAt.symm
  match hvalues : valuesAt key members, length_valuesAt_le_one h key with
  | [], _ =>
    simp only [hvalues, List.not_mem_nil, iff_false] at hmem
    have hnone : lastReading [] = .ok o ↔ o = none := by
      simp [lastReading, pure, Except.pure, eq_comm]
    rw [hnone]
    constructor
    · rintro (- | hnull | hinteger)
      · rfl
      · exact absurd hnull (hmem _)
      · exact absurd hinteger (hmem _)
    · rintro rfl
      exact .missing fun m hm hkey => hmem m.2 (hkey ▸ hm)
  | [v], _ =>
    simp only [hvalues, List.mem_singleton] at hmem
    rw [lastReading_singleton]
    constructor
    · rintro (hmissing | hnull | hinteger)
      · exact absurd rfl (hmissing _ ((hmem v).2 rfl))
      · exact .inl ⟨((hmem _).1 hnull).symm, rfl⟩
      · exact .inr ⟨_, ((hmem _).1 hinteger).symm, rfl⟩
    · rintro (⟨rfl, rfl⟩ | ⟨n, rfl, rfl⟩)
      · exact .null ((hmem _).2 rfl)
      · exact .integer ((hmem _).2 rfl)

/-- **The thresholds of a merged object are its two entries.** -/
theorem ofValueMembers_eq_ok_iff_entries {members : List (String × Value)} (h : InKeyOrder members)
    {o : ThresholdRequest} : ofValueMembers members = .ok o ↔
      Entry members firstKey o.first ∧ Entry members stepKey o.step := by
  rw [ofValueMembers_eq_ok_iff, entry_iff h, entry_iff h]

end ThresholdRequest

namespace Intent

/-- The intents for which values stand: `null` for none, a boolean for hedging or not, and an
object for the thresholds that it gives. -/
inductive Denoted : Value → Option Intent → Prop
  | absent : Denoted .null none
  | enabled (b : Bool) : Denoted (.bool b) (some (enabled b))
  | thresholds {members : List (String × Value)} {o : ThresholdRequest}
    (first : ThresholdRequest.Entry members ThresholdRequest.firstKey o.first)
    (step : ThresholdRequest.Entry members ThresholdRequest.stepKey o.step) :
    Denoted (.object members) (some (thresholds o))

/-- **A merged value is read as the intent for which it stands.** -/
theorem ofValue_eq_ok_iff {v : Value} (h : v.IsMerged) {x : Option Intent} :
    ofValue v = .ok x ↔ Denoted v x := by
  constructor
  · intro hread
    rcases v with - | b | y | s | items | members
    · obtain rfl := Except.ok.inj hread
      exact .absent
    · obtain rfl := Except.ok.inj hread
      exact .enabled b
    · cases hread
    · cases hread
    · cases hread
    · obtain ⟨o, ho, rfl⟩ := ofValue_object_eq_ok_iff.1 hread
      obtain ⟨hfirst, hstep⟩ := (ThresholdRequest.ofValueMembers_eq_ok_iff_entries h).1 ho
      exact .thresholds hfirst hstep
  · rintro (- | b | ⟨hfirst, hstep⟩)
    · rfl
    · rfl
    · exact ofValue_object_eq_ok_iff.2
        ⟨_, (ThresholdRequest.ofValueMembers_eq_ok_iff_entries h).2 ⟨hfirst, hstep⟩, rfl⟩

/-- Whatever is no intent is refused with one message. -/
theorem eq_of_ofValue_eq_error {v : Value} {e : Refusal} (h : ofValue v = .error e) :
    e = .mismatch (.noAlternative typeName) := by
  rcases v with - | b | y | s | items | members
  · cases h
  · cases h
  · exact (Except.error.inj h).symm
  · exact (Except.error.inj h).symm
  · exact (Except.error.inj h).symm
  · rw [ofValue] at h
    cases hmembers : ThresholdRequest.ofValueMembers members with
    | error e' =>
      rw [hmembers] at h
      exact (Except.error.inj h).symm
    | ok o =>
      rw [hmembers] at h
      cases h

theorem ofValue_eq_error_iff {v : Value} (h : v.IsMerged) {e : Refusal} :
    ofValue v = .error e ↔
      e = .mismatch (.noAlternative typeName) ∧ ∀ x, ¬Denoted v x := by
  constructor
  · intro hread
    refine ⟨eq_of_ofValue_eq_error hread, fun x hx => ?_⟩
    rw [(ofValue_eq_ok_iff h).2 hx] at hread
    cases hread
  · rintro ⟨rfl, hnone⟩
    cases hread : ofValue v with
    | error e => rw [eq_of_ofValue_eq_error hread]
    | ok x => exact absurd ((ofValue_eq_ok_iff h).1 hread) (hnone x)

end Intent

/-! ### Thresholds -/

namespace Thresholds

theorem positive_eq_error_iff {field : String} {n : Int64} {e : ConfigError} :
    positive field n = .error e ↔ n.toInt ≤ 0 ∧ e = .notPositive field n := by
  unfold positive
  split
  · next hn => simp only [reduceCtorEq, false_iff, not_and]; omega
  · next hn => rw [Except.error.injEq, and_iff_right (Int.not_lt.1 hn), eq_comm]

/-- Of two thresholds that are not positive the first one is reported. -/
theorem ofMillis_eq_error_iff {first step : Int64} {e : ConfigError} :
    ofMillis first step = .error e ↔
      first.toInt ≤ 0 ∧ e = .notPositive ThresholdRequest.firstKey first ∨
        0 < first.toInt ∧ step.toInt ≤ 0 ∧ e = .notPositive ThresholdRequest.stepKey step := by
  unfold ofMillis
  cases hfirst : positive ThresholdRequest.firstKey first with
  | error e' =>
    obtain ⟨hle, rfl⟩ := positive_eq_error_iff.1 hfirst
    simp [bind, Except.bind, hle, Int.not_lt.2 hle, eq_comm]
  | ok m =>
    have hpos : 0 < first.toInt := by
      have := m.property.1
      rw [positive_eq_ok_iff.1 hfirst]
      omega
    rw [or_iff_right fun h => absurd hpos (Int.not_lt.2 h.1), and_iff_right hpos,
      ← positive_eq_error_iff]
    cases positive ThresholdRequest.stepKey step <;> simp [bind, Except.bind, pure, Except.pure]

/-- A request that was read is refused only for a threshold that is not positive. -/
theorem exists_notPositive_of_ofRequest {o : ThresholdRequest} {e : ConfigError}
    (h : ofRequest o = .error e) : ∃ field n, e = .notPositive field n := by
  rcases ofMillis_eq_error_iff.1 h with ⟨-, rfl⟩ | ⟨-, -, rfl⟩
  · exact ⟨_, _, rfl⟩
  · exact ⟨_, _, rfl⟩

theorem ofValue_object_of_ok {members : List (String × Value)} {o : ThresholdRequest}
    (h : ThresholdRequest.ofValueMembers members = .ok o) :
    ofValue (.object members) = ofRequest o := by
  rw [ofValue, h]

theorem ofValue_object_of_error {members : List (String × Value)} {e : Refusal}
    (h : ThresholdRequest.ofValueMembers members = .error e) :
    ofValue (.object members) = .error (.malformed (.refused e)) := by
  rw [ofValue, h]

/-- **An object is malformed as thresholds exactly where it is as an intent.** -/
theorem malformed_iff {members : List (String × Value)} :
    (∃ cause, ofValue (.object members) = .error (.malformed cause)) ↔
      ∃ e, Intent.ofValue (.object members) = .error e := by
  cases hmembers : ThresholdRequest.ofValueMembers members with
  | error e =>
    refine iff_of_true ⟨_, ofValue_object_of_error hmembers⟩
      ⟨.mismatch (.noAlternative Intent.typeName), ?_⟩
    rw [Intent.ofValue, hmembers]
    rfl
  | ok o =>
    have hread := Intent.ofValue_object_eq_ok_iff.2 ⟨o, hmembers, rfl⟩
    refine iff_of_false ?thresholds ?intent
    case thresholds =>
      rintro ⟨cause, hcause⟩
      rw [ofValue_object_of_ok hmembers] at hcause
      obtain ⟨field, n, hn⟩ := exists_notPositive_of_ofRequest hcause
      cases hn
    case intent =>
      rintro ⟨e, he⟩
      cases hread.symm.trans he

/-- **Elsewhere its thresholds are those of the intent**, or are refused as those are. -/
theorem map_active_ofValue {members : List (String × Value)} {x : Option Intent}
    (h : Intent.ofValue (.object members) = .ok x) :
    (ofValue (.object members)).map .active = Strategy.ofIntent x ∧
      ∀ e, ofValue (.object members) = .error e → ∃ field n, e = .notPositive field n := by
  obtain ⟨o, ho, rfl⟩ := Intent.ofValue_object_eq_ok_iff.1 h
  rw [ofValue_object_of_ok ho, Strategy.ofIntent]
  refine ⟨?_, fun e he => exists_notPositive_of_ofRequest he⟩
  cases ofRequest o <;> rfl

end Thresholds

/-- **What is read as an intent, and what as thresholds.**  A merged value is read as the intent for
which it stands, and any other one is refused with one message.  As thresholds `null` gives the
defaults; an object is malformed exactly where it is as an intent, whether its thresholds are
positive or not, and elsewhere gives the thresholds of that intent, or the refusal of one that is
not positive; and every other value is malformed.  Of the numerals only those of integers in
range, written without fraction and exponent, are integers; `-0` is none. -/
theorem values_of_strategies {v : Value} (hv : v.IsMerged) :
    (∀ x, Intent.ofValue v = .ok x ↔ Intent.Denoted v x) ∧
    (∀ e, Intent.ofValue v = .error e ↔
      e = .mismatch (.noAlternative Intent.typeName) ∧ ∀ x, ¬Intent.Denoted v x) ∧
    (v = .null → Thresholds.ofValue v = .ok .standard) ∧
    (∀ members, v = .object members →
      ((∃ cause, Thresholds.ofValue v = .error (.malformed cause)) ↔
        ∃ e, Intent.ofValue v = .error e) ∧
      ∀ x, Intent.ofValue v = .ok x →
        (Thresholds.ofValue v).map .active = Strategy.ofIntent x ∧
        ∀ e, Thresholds.ofValue v = .error e → ∃ field n, e = .notPositive field n) ∧
    (v ≠ .null → (∀ members, v ≠ .object members) →
      Thresholds.ofValue v = .error (.malformed (.notObject v.text))) ∧
    ∀ (x : Numeral) (i : Int), x.number? = some (.integer i) ↔
      x.fraction = none ∧ x.exponent = none ∧
        let n := Nat.ofDigitChars 10 x.whole 0
        if x.negative then 0 < n ∧ n ≤ 0x8000000000000000 ∧ i = -n
        else n < 0x10000000000000000 ∧ i = n := by
  refine ⟨fun x => Intent.ofValue_eq_ok_iff hv, fun e => Intent.ofValue_eq_error_iff hv, ?null,
    ?object, ?other, fun x i => Numeral.number?_eq_integer_iff⟩
  case null =>
    rintro rfl
    rfl
  case object =>
    rintro members rfl
    exact ⟨Thresholds.malformed_iff, fun x hx => Thresholds.map_active_ofValue hx⟩
  case other =>
    intro hnull hobject
    rcases v with - | b | y | s | items | members
    · exact absurd rfl hnull
    · rfl
    · rfl
    · rfl
    · rfl
    · exact absurd rfl (hobject members)

/-- A threshold of zero is refused as malformed if the other one is no integer, and as not positive
if that one is `null`. -/
theorem values_of_strategies_of_zero :
    let zero : Value := .number (.integer 0)
    let wrong : Value :=
      .object [("threshold_ms", zero), ("threshold_steps_ms", .number (.float 1))]
    let idle : Value :=
      .object [("hint", .array [zero]), ("threshold_ms", zero), ("threshold_steps_ms", .null)]
    wrong.IsMerged ∧ idle.IsMerged ∧
      (∀ x, ¬Intent.Denoted wrong x) ∧
      (∃ cause, Thresholds.ofValue wrong = .error (.malformed cause)) ∧
      Intent.Denoted idle (some (.thresholds ⟨some 0, none⟩)) ∧
      (Thresholds.ofValue idle).map Strategy.active = .error (.notPositive "threshold_ms" 0) := by
  intro zero wrong idle
  have hwrong : wrong.IsMerged := by decide
  have hidle : idle.IsMerged := by decide
  have hrefused : Intent.ofValue wrong = .error (.mismatch (.noAlternative Intent.typeName)) := rfl
  have hread : Intent.ofValue idle = .ok (some (.thresholds ⟨some 0, none⟩)) := rfl
  obtain ⟨-, herror, -, hobject, -⟩ := values_of_strategies hwrong
  obtain ⟨hdenoted, -, -, hobject', -⟩ := values_of_strategies hidle
  exact ⟨hwrong, hidle, ((herror _).1 hrefused).2, (hobject _ rfl).1.2 ⟨_, hrefused⟩,
    (hdenoted _).1 hread, ((hobject' _ rfl).2 _ hread).1⟩

end Hedging
