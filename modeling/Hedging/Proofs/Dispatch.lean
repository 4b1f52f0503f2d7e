import Hedging.Proofs.Extension
import Hedging.Proofs.Refusal

/-!
# Hedging happens only on request

Of the intents of an operation and of its client the innermost one decides, and it decides
alone: an operation runs under the strategy of its own intent if it has one, and of the client's
intent otherwise (`Client.effective_eq_ofIntent`).  So an operation is hedged only where this
intent asks for it, with the thresholds that it gives, and is one attempt to the primary
everywhere else (`hedged_only_on_request`).
-/

namespace Hedging

variable {α : Type}

/-! ### The innermost intent -/

namespace Strategy

/-- The strategy of an intent that asks for thresholds. -/
theorem ofIntent_thresholds_eq_ok_iff {o : ThresholdRequest} {s : Strategy} :
    ofIntent (some (.thresholds o)) = .ok s ↔
      ∃ t, Thresholds.ofRequest o = .ok t ∧ active t = s := by
  simp only [ofIntent, Json.bind_eq_ok_iff, pure, Except.pure, Except.ok.injEq]

/-- An intent never leaves hedging open. -/
theorem ne_unset_of_ofIntent {i : Intent} {s : Strategy} (h : ofIntent (some i) = .ok s) :
    s ≠ unset := by
  rcases i with (- | -) | o
  · cases h
    nofun
  · cases h
    nofun
  · obtain ⟨t, -, rfl⟩ := ofIntent_thresholds_eq_ok_iff.1 h
    nofun

/-- The strategy of an intent that asks for hedging; `true` leaves both thresholds open. -/
theorem exists_active_of_ofIntent {raw : Option Intent} {o : ThresholdRequest} {s : Strategy}
    (hraw : raw = some (.enabled true) ∧ o = {} ∨ raw = some (.thresholds o))
    (h : ofIntent raw = .ok s) : ∃ t, Thresholds.ofRequest o = .ok t ∧ active t = s := by
  rcases hraw with ⟨rfl, rfl⟩ | rfl
  · exact ⟨_, Thresholds.ofRequest_empty, Except.ok.inj h⟩
  · exact ofIntent_thresholds_eq_ok_iff.1 h

/-- **The innermost intent decides**, be it valid or not. -/
theorem withOverride_eq_ofIntent {outer : Option Intent} {default : Strategy}
    (h : ofIntent outer = .ok default) (inner : Option Intent) :
    default.withOverride inner = ofIntent (inner.or outer) := by
  rcases inner with - | i
  · rw [Option.none_or, h]
    show Except.ok ((unset.overriddenBy default).overriddenBy unset) = _
    rw [overriddenBy_unset, unset_overriddenBy]
  · rw [Option.some_or, withOverride]
    cases hown : ofIntent (some i) with
    | error e => rfl
    | ok own =>
      show Except.ok ((unset.overriddenBy default).overriddenBy own) = _
      rw [overriddenBy_of_ne_unset (ne_unset_of_ofIntent hown)]

end Strategy

namespace Client

theorem strategy_of_settings {settings : Settings} {c : Client}
    (h : Client.ofSettings settings = .ok c) :
    Strategy.ofIntent settings.intent = .ok c.strategy := by
  unfold Client.ofSettings at h
  split at h
  · cases h
  · obtain ⟨own, hown, hc⟩ := Json.bind_eq_ok_iff.1 h
    obtain rfl := Except.ok.inj hc
    exact hown

/-- **An operation runs under the strategy of the innermost intent**, valid or not. -/
theorem effective_eq_ofIntent {settings : Settings} {c : Client}
    (h : Client.ofSettings settings = .ok c) (intent : Override) :
    c.effective intent = Strategy.ofIntent (intent.or settings.intent) :=
  Strategy.withOverride_eq_ofIntent (strategy_of_settings h) intent

/-- **What an operation does under its innermost intent.** -/
theorem exists_execute_eq {settings : Settings} {c : Client}
    (h : Client.ofSettings settings = .ok c) {intent : Override} {own : Strategy}
    (hown : Strategy.ofIntent intent = .ok own) (script : Script α) (deadline : Option Nat) :
    ∃ strategy, Strategy.ofIntent (intent.or settings.intent) = .ok strategy ∧
      c.execute intent script deadline = (c.attempt strategy script deadline).after
        (0, .operation strategy.text settings.regions.length) := by
  have heffective := effective_of_ok hown c
  refine ⟨_, (effective_eq_ofIntent h intent).symm.trans heffective, ?_⟩
  rw [execute_of_ok heffective, ← regions_of_settings h, attempt_eq_run]

/-- Without a request for hedging the operation is one attempt to the primary. -/
theorem execute_of_no_request {settings : Settings} {c : Client}
    (h : Client.ofSettings settings = .ok c) {intent : Override} {own : Strategy}
    (hown : Strategy.ofIntent intent = .ok own)
    (hraw : intent.or settings.intent = none ∨ intent.or settings.intent = some (.enabled false))
    (script : Script α) (deadline : Option Nat) :
    ∃ text, c.execute intent script deadline =
      (Race.alone deadline c.primary (script c.primary 0)).after
        (0, .operation text settings.regions.length) := by
  obtain ⟨strategy, hstrategy, hreport⟩ := exists_execute_eq h hown script deadline
  refine ⟨strategy.text, hreport.trans ?_⟩
  rcases hraw with hraw | hraw
  · rw [hraw] at hstrategy
    obtain rfl := Except.ok.inj hstrategy
    rfl
  · rw [hraw] at hstrategy
    obtain rfl := Except.ok.inj hstrategy
    rfl

/-- What an operation does depends on its strategy and on the regions. -/
theorem execute_congr {c c' : Client} {intent intent' : Override} (regions : c'.regions = c.regions)
    (strategy : c'.effective intent' = c.effective intent) (script : Script α)
    (deadline : Option Nat) :
    c'.execute intent' script deadline = c.execute intent script deadline := by
  rcases c with ⟨r, rs, own⟩
  rcases c' with ⟨r', rs', own'⟩
  obtain ⟨rfl, rfl⟩ := List.cons.inj regions
  unfold execute
  rw [strategy]
  cases effective ⟨r', rs', own⟩ intent <;> rfl

end Client

namespace Race.Single

variable {deadline : Option Nat} {region : Region} {o : Outcome α} {report : Report α}

theorem events_eq_nil (h : Single deadline region o report) : report.events = [] := by
  cases h <;> rfl

/-- A single attempt is the only call, unless it never ends and is never given up. -/
theorem calls_eq (h : Single deadline region o report) :
    (∃ stop ending, report.calls = [⟨0, region, 0, stop, ending⟩]) ∨
      deadline = none ∧ o = .hang ∧ report.verdict = .unfinished ∧ report.calls = [] := by
  cases h with
  | won ho inTime => exact .inl ⟨_, _, rfl⟩
  | failed ho inTime => exact .inl ⟨_, _, rfl⟩
  | dropped hlimit late => exact .inl ⟨_, _, rfl⟩
  | unfinished noLimit ho => exact .inr ⟨noLimit, ho, rfl, rfl⟩

theorem index_eq_zero (h : Single deadline region o report) {call : Call}
    (hcall : call ∈ report.calls) : call.index = 0 := by
  rcases h.calls_eq with ⟨stop, ending, hcalls⟩ | ⟨-, -, -, hcalls⟩
  · rw [hcalls] at hcall
    rw [List.mem_singleton.1 hcall]
  · rw [hcalls] at hcall
    cases hcall

/-- A single attempt announces no race and tries nobody else. -/
theorem not_hedged (h : Single deadline region o report) (text : String) (n : Nat) :
    ¬((∃ call ∈ (report.after (0, .operation text n)).calls, call.index ≠ 0) ∨
      ∃ time region attempt offset, (time, Event.started region attempt offset) ∈
        (report.after (0, .operation text n)).events) := by
  rintro (⟨call, hcall, hindex⟩ | ⟨time, region, attempt, offset, hevent⟩)
  · exact hindex (h.index_eq_zero hcall)
  · rw [Report.after, h.events_eq_nil] at hevent
    cases List.mem_singleton.1 hevent

end Race.Single

/-- **Hedging happens only on request, and the innermost intent alone decides.**  Let `raw` be the
intent of an operation, or where it has none that of its client.  If there is none, or it is
`false`, the operation is one attempt to the primary at once, without events of a race: its
report is that of `Race.alone`, which sees the outcome of this attempt and no other, and no
region.  Only if it is `true` or asks for thresholds is another region tried, or a start of a
race announced, and then there is a race with these thresholds, the missing ones defaulted.  And
where an operation has an intent, all clients with the same regions do the same. -/
theorem hedged_only_on_request {settings : Settings} {c : Client}
    (h : Client.ofSettings settings = .ok c) (intent : Override) (script : Script α)
    (deadline : Option Nat) :
    let raw := intent.or settings.intent
    let report := c.execute intent script deadline
    let single := Race.alone deadline c.primary (script c.primary 0)
    (∀ own, Strategy.ofIntent intent = .ok own →
      (raw = none ∨ raw = some (.enabled false) →
        (∃ text, report = single.after (0, .operation text settings.regions.length)) ∧
        Race.Single deadline c.primary (script c.primary 0) single ∧
        settings.regions.head? = some c.primary ∧ single.events = [] ∧
        ((∃ stop ending, single.calls = [⟨0, c.primary, 0, stop, ending⟩]) ∨
          deadline = none ∧ script c.primary 0 = .hang ∧ single.verdict = .unfinished ∧
            single.calls = [])) ∧
      ((∃ call ∈ report.calls, call.index ≠ 0) ∨
          (∃ time region attempt offset,
            (time, Event.started region attempt offset) ∈ report.events) →
        raw = some (.enabled true) ∨ ∃ o, raw = some (.thresholds o)) ∧
      (∀ o, raw = some (.enabled true) ∧ o = {} ∨ raw = some (.thresholds o) →
        ∃ t : Thresholds, (o.first.getD 500).toInt = t.first ∧ (o.step.getD 100).toInt = t.step ∧
          report = (Race.run t settings.regions script deadline).after
            (0, .operation (Strategy.active t).text settings.regions.length))) ∧
    (intent ≠ none → ∀ settings' c', Client.ofSettings settings' = .ok c' →
      settings'.regions = settings.regions → c'.execute intent script deadline = report) := by
  intro raw report single
  have hregions : c.regions = settings.regions := Client.regions_of_settings h
  have hsingle : Race.Single deadline c.primary (script c.primary 0) single :=
    Race.alone_ending deadline c.primary (script c.primary 0)
  constructor
  · intro own hown
    refine ⟨?alone, ?hedged, ?thresholds⟩
    case alone =>
      intro hraw
      have hprimary : settings.regions.head? = some c.primary := by
        rw [← hregions]
        rfl
      exact ⟨Client.execute_of_no_request h hown hraw script deadline, hsingle, hprimary,
        hsingle.events_eq_nil, hsingle.calls_eq⟩
    case hedged =>
      intro hother
      have hnot : ¬(raw = none ∨ raw = some (.enabled false)) := by
        intro hraw
        obtain ⟨text, hreport⟩ := Client.execute_of_no_request h hown hraw script deadline
        rw [show report = _ from hreport] at hother
        exact hsingle.not_hedged text _ hother
      clear_value raw
      rcases raw with - | (- | -) | o
      · exact absurd (.inl rfl) hnot
      · exact absurd (.inr rfl) hnot
      · exact .inl rfl
      · exact .inr ⟨o, rfl⟩
    case thresholds =>
      intro o ho
      obtain ⟨strategy, hstrategy, hreport⟩ := Client.exists_execute_eq h hown script deadline
      obtain ⟨t, ht, rfl⟩ := Strategy.exists_active_of_ofIntent ho hstrategy
      obtain ⟨hfirst, hstep⟩ := Thresholds.ofRequest_eq_ok_iff.1 ht
      refine ⟨t, hfirst, hstep, hreport.trans ?_⟩
      rw [← hregions]
      rfl
  · intro hintent settings' c' h' hregions'
    have hsame : c'.regions = c.regions := by
      rw [hregions, ← hregions']
      exact Client.regions_of_settings h'
    refine Client.execute_congr hsame ?_ script deadline
    rw [Client.effective_eq_ofIntent h', Client.effective_eq_ofIntent h,
      Option.or_of_isSome (Option.isSome_iff_ne_none.2 hintent),
      Option.or_of_isSome (Option.isSome_iff_ne_none.2 hintent)]

/-- A client that hedges after 50 milliseconds is called without hedging, and with its own intent,
when the second region is tried and wins; and it does what a client that forbids hedging does
when it is called with `true`. -/
theorem hedged_only_on_request_of_three :
    let regions : List Region := [⟨"a"⟩, ⟨"b"⟩, ⟨"c"⟩]
    let settings : Settings := ⟨regions, some (.thresholds ⟨some 50, none⟩)⟩
    let forbidding : Settings := ⟨regions, some (.enabled false)⟩
    let c : Client := ⟨⟨"a"⟩, [⟨"b"⟩, ⟨"c"⟩], .active { first := 50, step := 100 }⟩
    let c' : Client := ⟨⟨"a"⟩, [⟨"b"⟩, ⟨"c"⟩], .disabled⟩
    let script : Script Nat :=
      .ofTable [(⟨"a"⟩, [.failure 200 "busy"]), (⟨"b"⟩, [.success 10 7])]
    Client.ofSettings settings = .ok c ∧ Client.ofSettings forbidding = .ok c' ∧
      Strategy.ofIntent (some (.enabled false)) = .ok .disabled ∧
      (∃ text, c.execute (some (.enabled false)) script none
        = ⟨.failed (.allFailed [⟨⟨"a"⟩, "busy"⟩]), 200, [⟨0, ⟨"a"⟩, 0, 200, .error⟩],
            [(0, .operation text 3)]⟩) ∧
      (∃ t : Thresholds, t.first = 50 ∧ t.step = 100 ∧ c.execute none script none
        = (Race.run t regions script none).after (0, .operation (Strategy.active t).text 3) ∧
        (Race.run t regions script none).verdict = .won 1 ⟨"b"⟩ 7 ∧
        (Race.run t regions script none).calls
          = [⟨0, ⟨"a"⟩, 0, 60, .cancelled⟩, ⟨1, ⟨"b"⟩, 50, 60, .ok⟩]) ∧
      c'.execute (some (.enabled true)) script none
        = c.execute (some (.enabled true)) script none := by
  intro regions settings forbidding c c' script
  have hc : Client.ofSettings settings = .ok c := rfl
  have hc' : Client.ofSettings forbidding = .ok c' := rfl
  refine ⟨hc, hc', rfl, ?_, ?_, ?_⟩
  · obtain ⟨hcall, -⟩ := hedged_only_on_request hc (some (.enabled false)) script none
    exact ((hcall .disabled rfl).1 (.inr rfl)).1
  · obtain ⟨hcall, -⟩ := hedged_only_on_request hc none script none
    obtain ⟨⟨first, step, _, _, _, _⟩, hfirst, hstep, hreport⟩ :=
      (hcall .unset rfl).2.2 _ (.inr rfl)
    obtain rfl : first = 50 := Int.ofNat_inj.1 hfirst.symm
    obtain rfl : step = 100 := Int.ofNat_inj.1 hstep.symm
    have hverdict : (Race.run { first := 50, step := 100 } regions script none).verdict
        = .won 1 ⟨"b"⟩ 7 := by decide +kernel
    have hcalls : (Race.run { first := 50, step := 100 } regions script none).calls
        = [⟨0, ⟨"a"⟩, 0, 60, .cancelled⟩, ⟨1, ⟨"b"⟩, 50, 60, .ok⟩] := by decide +kernel
    exact ⟨_, rfl, rfl, hreport, hverdict, hcalls⟩
  · obtain ⟨-, hsame⟩ := hedged_only_on_request hc (some (.enabled true)) script none
    exact hsame nofun forbidding c' hc' rfl

end Hedging
