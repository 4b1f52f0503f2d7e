import Hedging.Proofs.Grammar
import Hedging.Proofs.Offsets
import Hedging.Proofs.Scopes

/-!
# Thresholds are what was asked for

There are many ways to a strategy: numbers of milliseconds, requests, values, intents, nested
scopes, and clients with their operations (`Strategy.Way`).  Each of them follows one intent, and
gives what this intent alone gives, refusals included (`Strategy.Way.eq_ofIntent`).  So all that
holds of the thresholds that a request gives holds of all thresholds there are: they are positive
numbers of milliseconds, those of the request or the defaults (`Strategy.thresholds_as_asked`).

An intent with its defaults filled in is a normal form of what it gives (`Intent.ofIntent_filled`,
`Strategy.map_filled_of_ok`).
-/

namespace Hedging

/-! ### Requests -/

namespace ThresholdRequest

/-- The request with the defaults in the place of what it leaves open. -/
def filled (o : ThresholdRequest) : ThresholdRequest :=
  ⟨some (o.first.getD Thresholds.defaultFirst), some (o.step.getD Thresholds.defaultStep)⟩

/-- The first threshold of a request that is not positive is this one of this field. -/
def Offends (o : ThresholdRequest) (field : String) (n : Int64) : Prop :=
  let first := o.first.getD 500
  let step := o.step.getD 100
  first.toInt ≤ 0 ∧ field = "threshold_ms" ∧ n = first ∨
    0 < first.toInt ∧ step.toInt ≤ 0 ∧ field = "threshold_steps_ms" ∧ n = step

/-- The requests that values make: `null` leaves both thresholds open, and so does an object whose
entry for a threshold is missing or `null`. -/
inductive Made : Json.Value → ThresholdRequest → Prop
  | null : Made .null {}
  | object {members : List (String × Json.Value)} {o : ThresholdRequest}
    (first : Entry members firstKey o.first) (step : Entry members stepKey o.step) :
    Made (.object members) o

variable {o : ThresholdRequest}

theorem ofRequest_filled (o : ThresholdRequest) :
    Thresholds.ofRequest o.filled = Thresholds.ofRequest o := rfl

/-- **A request is refused for its first threshold that is not positive**, and for nothing else. -/
theorem ofRequest_eq_error_iff {e : ConfigError} :
    Thresholds.ofRequest o = .error e ↔
      ∃ field n, o.Offends field n ∧ e = .notPositive field n := by
  rw [Thresholds.ofRequest, Thresholds.ofMillis_eq_error_iff]
  constructor
  · rintro (⟨hfirst, rfl⟩ | ⟨hfirst, hstep, rfl⟩)
    · exact ⟨_, _, .inl ⟨hfirst, rfl, rfl⟩, rfl⟩
    · exact ⟨_, _, .inr ⟨hfirst, hstep, rfl, rfl⟩, rfl⟩
  · rintro ⟨field, n, ⟨hfirst, rfl, rfl⟩ | ⟨hfirst, hstep, rfl, rfl⟩, rfl⟩
    · exact .inl ⟨hfirst, rfl⟩
    · exact .inr ⟨hfirst, hstep, rfl⟩

/-- A value that makes a request gives the thresholds of this request. -/
theorem ofValue_of_made {v : Json.Value} (hv : v.IsMerged) (h : Made v o) :
    Thresholds.ofValue v = Thresholds.ofRequest o := by
  cases h with
  | null => exact Thresholds.ofRequest_empty.symm
  | object first step =>
    exact Thresholds.ofValue_object_of_ok ((ofValueMembers_eq_ok_iff_entries hv).2 ⟨first, step⟩)

/-- A value that makes no request is malformed. -/
theorem exists_malformed_of_not_made {v : Json.Value} (hv : v.IsMerged) (h : ∀ o, ¬Made v o) :
    ∃ cause, Thresholds.ofValue v = .error (.malformed cause) := by
  rcases v with - | b | y | s | items | members
  · exact absurd .null (h {})
  · exact ⟨_, rfl⟩
  · exact ⟨_, rfl⟩
  · exact ⟨_, rfl⟩
  · exact ⟨_, rfl⟩
  · cases hmembers : ofValueMembers members with
    | error e => exact ⟨_, Thresholds.ofValue_object_of_error hmembers⟩
    | ok o =>
      obtain ⟨first, step⟩ := (ofValueMembers_eq_ok_iff_entries hv).1 hmembers
      exact absurd (.object first step) (h o)

end ThresholdRequest

/-! ### Intents -/

namespace Intent

/-- The request of an intent for hedging; `true` leaves both thresholds open. -/
def request? : Intent → Option ThresholdRequest
  | enabled true => some {}
  | enabled false => none
  | thresholds o => some o

/-- The intent with its defaults filled in; `true` counts as a request that leaves both thresholds
open. -/
def filled : Intent → Intent
  | enabled true => thresholds (ThresholdRequest.filled {})
  | enabled false => enabled false
  | thresholds o => thresholds o.filled

end Intent

namespace Strategy

variable {raw raw' : Option Intent} {o : ThresholdRequest} {s : Strategy}
  {result : Except ConfigError Strategy}

/-- An intent for hedging gives the thresholds that it asks for. -/
theorem ofIntent_of_request (h : raw.bind Intent.request? = some o) :
    ofIntent raw = (Thresholds.ofRequest o).map active := by
  rcases raw with - | (- | -) | o'
  · cases h
  · cases h
  · obtain rfl := Option.some.inj h
    rfl
  · obtain rfl := Option.some.inj h
    rw [ofIntent]
    cases Thresholds.ofRequest o' <;> rfl

/-- No other intent is refused, or gives thresholds. -/
theorem ofIntent_of_no_request (h : raw.bind Intent.request? = none) :
    ∃ s, ofIntent raw = .ok s ∧ ∀ t, s ≠ active t := by
  rcases raw with - | (- | -) | o'
  · exact ⟨unset, rfl, nofun⟩
  · exact ⟨disabled, rfl, nofun⟩
  · cases h
  · cases h

/-- **Thresholds are those of a request**, the missing ones defaulted. -/
theorem ofIntent_eq_active_iff {t : Thresholds} :
    ofIntent raw = .ok (active t) ↔
      ∃ o, raw.bind Intent.request? = some o ∧ Thresholds.ofRequest o = .ok t := by
  cases hraw : raw.bind Intent.request? with
  | none =>
    obtain ⟨s, hs, hnot⟩ := ofIntent_of_no_request hraw
    simp [hs, hnot t]
  | some o =>
    rw [ofIntent_of_request hraw]
    simp only [Option.some.injEq, exists_eq_left']
    cases Thresholds.ofRequest o <;> simp [Except.map]

/-- **A refusal is that of a request**, for its first threshold that is not positive. -/
theorem ofIntent_eq_error_iff {e : ConfigError} :
    ofIntent raw = .error e ↔ ∃ o field n, raw.bind Intent.request? = some o ∧
      o.Offends field n ∧ e = .notPositive field n := by
  cases hraw : raw.bind Intent.request? with
  | none =>
    obtain ⟨s, hs, -⟩ := ofIntent_of_no_request hraw
    simp [hs]
  | some o =>
    have herror : ofIntent raw = .error e ↔ Thresholds.ofRequest o = .error e := by
      rw [ofIntent_of_request hraw]
      cases Thresholds.ofRequest o <;> simp [Except.map]
    rw [herror, ThresholdRequest.ofRequest_eq_error_iff]
    simp

/-! ### The normal form of an intent -/

/-- The intent that asks for a strategy in so many words. -/
def toIntent : Strategy → Option Intent
  | unset => none
  | disabled => some (.enabled false)
  | active t => some (.thresholds ⟨some (.ofInt t.first), some (.ofInt t.step)⟩)

/-- **There is an intent for every strategy.** -/
theorem ofIntent_toIntent (s : Strategy) : ofIntent s.toIntent = .ok s := by
  rcases s with - | - | t
  · rfl
  · rfl
  · refine ofIntent_thresholds_eq_ok_iff.2 ⟨t, Thresholds.ofRequest_eq_ok_iff.2 ?_, rfl⟩
    exact ⟨Thresholds.toInt_ofInt t.first_lt, Thresholds.toInt_ofInt t.step_lt⟩

/-- Defaults may be filled in. -/
theorem ofIntent_filled (raw : Option Intent) :
    ofIntent (raw.map Intent.filled) = ofIntent raw := by
  rcases raw with - | (- | -) | o
  · rfl
  · rfl
  · rfl
  · rw [Option.map_some, Intent.filled, ofIntent, ThresholdRequest.ofRequest_filled, ofIntent]

/-- **An intent with its defaults filled in is known from its strategy.** -/
theorem map_filled_of_ok (h : ofIntent raw = .ok s) : raw.map Intent.filled = s.toIntent := by
  have hfilled : ∀ {o t}, Thresholds.ofRequest o = .ok t →
      some (Intent.thresholds o.filled) = (active t).toIntent := by
    intro o t ht
    obtain ⟨hfirst, hstep⟩ := Thresholds.ofRequest_eq_ok_iff.1 ht
    rw [← Thresholds.toInt_ofInt t.first_lt, Int64.toInt_inj] at hfirst
    rw [← Thresholds.toInt_ofInt t.step_lt, Int64.toInt_inj] at hstep
    rw [ThresholdRequest.filled, hfirst, hstep]
    rfl
  rcases raw with - | (- | -) | o
  · obtain rfl := Except.ok.inj h
    rfl
  · obtain rfl := Except.ok.inj h
    rfl
  · obtain rfl := Except.ok.inj h
    exact hfilled Thresholds.ofRequest_empty
  · obtain ⟨t, ht, rfl⟩ := ofIntent_thresholds_eq_ok_iff.1 h
    exact hfilled ht

/-- **When two intents give the same**: they are one with their defaults filled in, or refused for
the same value of the same field. -/
theorem ofIntent_eq_iff :
    ofIntent raw = ofIntent raw' ↔ raw.map Intent.filled = raw'.map Intent.filled ∨
      ∃ o o' field n, raw.bind Intent.request? = some o ∧ raw'.bind Intent.request? = some o' ∧
        o.Offends field n ∧ o'.Offends field n := by
  constructor
  · intro heq
    cases hraw : ofIntent raw with
    | ok s =>
      rw [map_filled_of_ok hraw, map_filled_of_ok (heq ▸ hraw)]
      exact .inl rfl
    | error e =>
      obtain ⟨o, field, n, ho, hoffends, rfl⟩ := ofIntent_eq_error_iff.1 hraw
      obtain ⟨o', _, _, ho', hoffends', hsame⟩ := ofIntent_eq_error_iff.1 (heq ▸ hraw)
      obtain ⟨rfl, rfl⟩ := ConfigError.notPositive.inj hsame
      exact .inr ⟨o, o', field, n, ho, ho', hoffends, hoffends'⟩
  · rintro (hfilled | ⟨o, o', field, n, ho, ho', hoffends, hoffends'⟩)
    · rw [← ofIntent_filled raw, hfilled, ofIntent_filled]
    · rw [ofIntent_eq_error_iff.2 ⟨o, field, n, ho, hoffends, rfl⟩,
        ofIntent_eq_error_iff.2 ⟨o', field, n, ho', hoffends', rfl⟩]

/-! ### All ways to a strategy -/

/-- The ways to a strategy: the intent that each of them follows, and what it gives. -/
inductive Way : Option Intent → Except ConfigError Strategy → Prop
  | unset : Way none (.ok unset)
  | disabled : Way (some (.enabled false)) (.ok disabled)
  | standard : Way (some (.enabled true)) (.ok (active .standard))
  | millis (first step : Int64) :
    Way (some (.thresholds ⟨some first, some step⟩)) ((Thresholds.ofMillis first step).map active)
  | request (o : ThresholdRequest) :
    Way (some (.thresholds o)) ((Thresholds.ofRequest o).map active)
  | value {v : Json.Value} {o : ThresholdRequest} (hv : v.IsMerged)
    (made : ThresholdRequest.Made v o) :
    Way (some (.thresholds o)) ((Thresholds.ofValue v).map active)
  | intent (raw : Option Intent) : Way raw (ofIntent raw)
  /-- An operation with its intent, under a default. -/
  | override {raw : Option Intent} {default : Strategy} (h : Way raw (.ok default))
    (inner : Option Intent) : Way (inner.or raw) (default.withOverride inner)
  /-- Nested scopes, the outermost first, each with the intent that it follows. -/
  | scopes {scopes : List (Option Intent × Strategy)} (h : ∀ x ∈ scopes, Way x.1 (.ok x.2)) :
    Way (scopes.filterMap (·.1)).getLast? (.ok (resolve (scopes.map (·.2))))
  | client {settings : Settings} (h : settings.regions ≠ []) :
    Way settings.intent ((Client.ofSettings settings).map (·.strategy))
  | operation {settings : Settings} {c : Client} (h : Client.ofSettings settings = .ok c)
    (inner : Override) : Way (inner.or settings.intent) (c.effective inner)

/-- Of nested scopes the innermost one with an intent decides. -/
theorem ofIntent_getLast? {scopes : List (Option Intent × Strategy)}
    (h : ∀ x ∈ scopes, ofIntent x.1 = .ok x.2) :
    ofIntent (scopes.filterMap (·.1)).getLast? = .ok (resolve (scopes.map (·.2))) := by
  induction scopes with
  | nil => rfl
  | cons x scopes ih =>
    obtain ⟨hx, hscopes⟩ := List.forall_mem_cons.1 h
    have hrest := ih hscopes
    rw [List.map_cons, resolve_cons]
    obtain ⟨- | i, s⟩ := x
    · obtain rfl := Except.ok.inj hx
      rw [List.filterMap_cons_none rfl, hrest, ← one_eq, one_mul]
    · have hcons : ((some i, s) :: scopes).filterMap (·.1) = i :: scopes.filterMap (·.1) := rfl
      rw [hcons, List.getLast?_cons]
      cases hlast : (scopes.filterMap (·.1)).getLast? with
      | none =>
        rw [hlast] at hrest
        rw [← Except.ok.inj hrest, ← one_eq, mul_one]
        exact hx
      | some j =>
        rw [hlast] at hrest
        rw [mul_of_ne_unset s (ne_unset_of_ofIntent hrest)]
        exact hrest

/-- **Every way to a strategy gives what its intent gives**, refusals included. -/
theorem Way.eq_ofIntent (h : Way raw result) : result = ofIntent raw := by
  induction h with
  | unset => rfl
  | disabled => rfl
  | standard => rfl
  | millis first step =>
    show (Thresholds.ofRequest ⟨some first, some step⟩).map active = _
    exact (ofIntent_of_request rfl).symm
  | request o => exact (ofIntent_of_request rfl).symm
  | value hv made =>
    rw [ThresholdRequest.ofValue_of_made hv made]
    exact (ofIntent_of_request rfl).symm
  | intent raw => rfl
  | override _ inner ih => exact withOverride_eq_ofIntent ih.symm inner
  | scopes _ ih => exact (ofIntent_getLast? fun x hx => (ih x hx).symm).symm
  | @client settings hregions =>
    cases hclient : Client.ofSettings settings with
    | error e =>
      rcases Client.ofSettings_eq_error_iff.1 hclient with ⟨hnil, -⟩ | ⟨-, herror⟩
      · exact absurd hnil hregions
      · exact herror.symm
    | ok c => exact (Client.strategy_of_settings hclient).symm
  | operation hclient inner => exact Client.effective_eq_ofIntent hclient inner

/-- **All thresholds are positive numbers of milliseconds, and those that were asked for.**  However
one comes by a strategy, if it is active, then there is a request in the intent that it follows,
both thresholds are whole milliseconds, at least one and fewer than `2 ^ 63`, and each is that of
the request or its default.  It is refused exactly for a threshold of such a request that is not
positive, the wait before the second region if that is one, and the wait before later regions
only if it is not; values that make no request are malformed, and a client without regions is
refused for that.  Two intents give the same if and only if they are the same with their defaults
filled in, or are refused for the same value of the same field. -/
theorem thresholds_as_asked :
    (∀ raw result, Way raw result →
      (∀ t, result = .ok (active t) → ∃ o, raw.bind Intent.request? = some o ∧
        (o.first.getD 500).toInt = t.first ∧ (o.step.getD 100).toInt = t.step ∧
        1 ≤ t.first ∧ t.first ≤ 2 ^ 63 - 1 ∧ 1 ≤ t.step ∧ t.step ≤ 2 ^ 63 - 1 ∧
        t.firstWait.toNanos = t.first * 1000000 ∧ t.stepWait.toNanos = t.step * 1000000) ∧
      ∀ e, result = .error e ↔ ∃ o field n, raw.bind Intent.request? = some o ∧
        o.Offends field n ∧ e = .notPositive field n) ∧
    (∀ v : Json.Value, v.IsMerged → (∀ o, ¬ThresholdRequest.Made v o) →
      ∃ cause, Thresholds.ofValue v = .error (.malformed cause)) ∧
    (∀ intent, Client.ofSettings ⟨[], intent⟩ = .error .noRegions) ∧
    ∀ raw raw', ofIntent raw = ofIntent raw' ↔ raw.map Intent.filled = raw'.map Intent.filled ∨
      ∃ o o' field n, raw.bind Intent.request? = some o ∧ raw'.bind Intent.request? = some o' ∧
        o.Offends field n ∧ o'.Offends field n := by
  refine ⟨fun raw result way => ⟨fun t hactive => ?_, fun e => ?_⟩, ?_, fun _ => rfl, ?_⟩
  · rw [way.eq_ofIntent] at hactive
    obtain ⟨o, ho, ht⟩ := ofIntent_eq_active_iff.1 hactive
    obtain ⟨hfirst, hstep⟩ := Thresholds.ofRequest_eq_ok_iff.1 ht
    exact ⟨o, ho, hfirst, hstep, t.first_pos, Nat.le_pred_of_lt t.first_lt, t.step_pos,
      Nat.le_pred_of_lt t.step_lt, Duration.toNanos_ofMillis _, Duration.toNanos_ofMillis _⟩
  · rw [way.eq_ofIntent]
    exact ofIntent_eq_error_iff
  · exact fun v hv h => ThresholdRequest.exists_malformed_of_not_made hv h
  · exact fun raw raw' => ofIntent_eq_iff

/-- Scopes around an operation on a client whose own threshold is open; a value with two thresholds
that are not positive, and one that is an array; and `true` beside a request for the defaults. -/
theorem thresholds_as_asked_of_scopes :
    let o : ThresholdRequest := ⟨some 200, none⟩
    let t : Thresholds := { first := 200, step := 100 }
    let settings : Settings := ⟨[⟨"a"⟩, ⟨"b"⟩], some (.thresholds o)⟩
    let c : Client := ⟨⟨"a"⟩, [⟨"b"⟩], .active t⟩
    let scopes : List (Option Intent × Strategy) :=
      [(some (.enabled true), active .standard), (some (.thresholds o), active t), (none, unset)]
    let idle : Json.Value := .object
      [("threshold_ms", .number (.integer 0)), ("threshold_steps_ms", .number (.integer (-1)))]
    Client.ofSettings settings = .ok c ∧ c.effective none = .ok (active t) ∧
      resolve (scopes.map (·.2)) = active t ∧
      (∃ o', some o = some o' ∧ (o'.first.getD 500).toInt = 200 ∧ (o'.step.getD 100).toInt = 100) ∧
      (Thresholds.ofValue idle).map active = .error (.notPositive "threshold_ms" 0) ∧
      (∃ cause, Thresholds.ofValue (.array []) = .error (.malformed cause)) ∧
      ofIntent (some (.enabled true)) = ofIntent (some (.thresholds ⟨some 500, none⟩)) := by
  intro o t settings c scopes idle
  have hc : Client.ofSettings settings = .ok c := rfl
  have heffective : c.effective none = .ok (active t) := rfl
  have hscopes : ∀ x ∈ scopes, Way x.1 (.ok x.2) :=
    List.forall_mem_cons.2 ⟨.standard, List.forall_mem_cons.2
      ⟨heffective ▸ .operation hc none, List.forall_mem_cons.2 ⟨.unset, by simp⟩⟩⟩
  have hresolve : resolve (scopes.map (·.2)) = active t := rfl
  have hidle :
      Way (some (.thresholds ⟨some 0, some (-1)⟩)) ((Thresholds.ofValue idle).map active) :=
    .value (by decide) (.object (.integer (.head _)) (.integer (.tail _ (.head _))))
  obtain ⟨hways, hmalformed, -, hsame⟩ := thresholds_as_asked
  obtain ⟨o', ho', hfirst, hstep, -⟩ := (hways _ _ (.scopes hscopes)).1 t (congrArg _ hresolve)
  refine ⟨hc, heffective, hresolve, ⟨o', ho', hfirst, hstep⟩, ?_, ?_, ?_⟩
  · exact ((hways _ _ hidle).2 _).2 ⟨_, _, _, rfl, .inl ⟨by decide, rfl, rfl⟩, rfl⟩
  · exact hmalformed (.array []) trivial (by rintro _ ⟨⟩)
  · exact (hsame _ _).2 (.inl rfl)

end Strategy
end Hedging
