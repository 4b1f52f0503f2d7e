import Hedging.Error

/-!
# Thresholds

A race waits `first` milliseconds before the second region is tried and `step`
milliseconds before each later one.  A source may leave either out
(`ThresholdRequest`); what a race runs on is complete and positive (`Thresholds`).
Of two values that are not positive the first one is reported.
-/

namespace Hedging

/-- Thresholds in milliseconds as a source gives them. -/
structure ThresholdRequest where
  first : Option Int64 := none
  step : Option Int64 := none
deriving DecidableEq, Repr, Inhabited

/-- The thresholds of a race, in milliseconds. -/
structure Thresholds where
  first : Nat
  step : Nat
  first_pos : 0 < first := by decide
  step_pos : 0 < step := by decide
  first_lt : first < 0x8000000000000000 := by decide
  step_lt : step < 0x8000000000000000 := by decide
deriving DecidableEq, Repr

namespace ThresholdRequest

/-- The key of the wait before the second region. -/
def firstKey : String := "threshold_ms"

/-- The key of the wait before each later region. -/
def stepKey : String := "threshold_steps_ms"

/-- The compact text of an integer that may be absent. -/
def optionalText : Option Int64 → String
  | none => "null"
  | some n => toString n.toInt

/-- The request as a compact JSON object with both keys. -/
def text (r : ThresholdRequest) : String :=
  Json.bracketed "\x7b" "\x7d"
    [Json.stringText firstKey ++ ":" ++ optionalText r.first,
      Json.stringText stepKey ++ ":" ++ optionalText r.step]

/-- What is expected where a request is read. -/
def expected : String := "a map with optional threshold_ms and threshold_steps_ms"

/-- Takes one member of an object: a threshold is an integer or `null`, other keys are skipped. -/
def addMember (r : ThresholdRequest) (member : Option String × Option Json.Met) :
    Except Json.Refusal ThresholdRequest :=
  match member with
  | (none, _) => .error .notJson
  | (some key, met) =>
    if key = firstKey then do return { r with first := ← Json.readOptionalInt64 met }
    else if key = stepKey then do return { r with step := ← Json.readOptionalInt64 met }
    else .ok r

/-- Reads the members of an object in turn; the last one of each key stays. -/
def ofMembers (members : List (Option String × Option Json.Met)) :
    Except Json.Refusal ThresholdRequest :=
  members.foldlM addMember {}

/-- Reads a request from an object as it is written. -/
def ofDocument : Json.Document → Except Json.Refusal ThresholdRequest
  | .object members => ofMembers (members.map fun m => (m.1, m.2.met?))
  | d => Json.refuse d.met? expected

/-- Reads a request from the members of a value. -/
def ofValueMembers (members : List (String × Json.Value)) : Except Json.Refusal ThresholdRequest :=
  ofMembers (members.map fun m => (some m.1, some m.2.met))

/-- Reads a request from a text. -/
def ofText (s : String) : Except Json.Refusal ThresholdRequest := Json.readText ofDocument s

end ThresholdRequest

namespace Thresholds

/-- The wait before the second region where a source gives none. -/
def defaultFirst : Int64 := 500

/-- The wait before each later region where a source gives none. -/
def defaultStep : Int64 := 100

/-- The thresholds where a source gives neither. -/
def standard : Thresholds where
  first := 500
  step := 100

instance : Inhabited Thresholds := ⟨standard⟩

/-- A number of milliseconds that is positive, below `2 ^ 63`. -/
def positive (field : String) (n : Int64) :
    Except ConfigError { m : Nat // 0 < m ∧ m < 0x8000000000000000 } :=
  if h : 0 < n.toInt then
    .ok ⟨n.toInt.toNat, by have := n.toInt_lt; omega⟩
  else .error (.notPositive field n)

/-- The thresholds with the given waits. -/
def ofMillis (first step : Int64) : Except ConfigError Thresholds := do
  let first ← positive ThresholdRequest.firstKey first
  let step ← positive ThresholdRequest.stepKey step
  return ⟨first.val, step.val, first.property.1, step.property.1, first.property.2,
    step.property.2⟩

/-- The thresholds that a request asks for, each missing one defaulted. -/
def ofRequest (r : ThresholdRequest) : Except ConfigError Thresholds :=
  ofMillis (r.first.getD defaultFirst) (r.step.getD defaultStep)

/-- The thresholds that a value asks for; `null` asks for the defaults. -/
def ofValue : Json.Value → Except ConfigError Thresholds
  | .null => .ok standard
  | .object members =>
    match ThresholdRequest.ofValueMembers members with
    | .ok r => ofRequest r
    | .error e => .error (.malformed (.refused e))
  | v => .error (.malformed (.notObject v.text))

theorem positive_eq_ok_iff {field : String} {n : Int64}
    {m : { m : Nat // 0 < m ∧ m < 0x8000000000000000 }} :
    positive field n = .ok m ↔ n.toInt = m.val := by
  unfold positive
  split
  · rename_i hn
    rw [Except.ok.injEq, Subtype.ext_iff]
    simp only
    omega
  · have := m.property.1
    simp only [reduceCtorEq, false_iff]
    omega

theorem ofMillis_eq_ok_iff {first step : Int64} {t : Thresholds} :
    ofMillis first step = .ok t ↔ first.toInt = t.first ∧ step.toInt = t.step := by
  simp only [ofMillis, Json.bind_eq_ok_iff, positive_eq_ok_iff]
  constructor
  · rintro ⟨m, hfirst, n, hstep, ht⟩
    obtain rfl := Except.ok.inj ht
    exact ⟨hfirst, hstep⟩
  · rintro ⟨hfirst, hstep⟩
    exact ⟨⟨t.first, t.first_pos, t.first_lt⟩, hfirst, ⟨t.step, t.step_pos, t.step_lt⟩, hstep, rfl⟩

/-- The thresholds of a request are those that it gives, and the usual ones for the others. -/
theorem ofRequest_eq_ok_iff {o : ThresholdRequest} {t : Thresholds} :
    ofRequest o = .ok t ↔
      (o.first.getD defaultFirst).toInt = t.first ∧ (o.step.getD defaultStep).toInt = t.step :=
  ofMillis_eq_ok_iff

theorem ofRequest_empty : ofRequest {} = .ok standard := rfl

end Thresholds
end Hedging
