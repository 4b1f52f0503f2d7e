import Hedging.Proofs.Race.Failures
import Hedging.Proofs.Race.Winner
import Hedging.Proofs.Session

/-!
# What is refused

A configuration is refused when a client is built, if it has no regions or its intent is
refused, and when an operation is called whose own intent is refused.  Nothing else is: an
operation that is sent to some regions is won by one of them, fails with the errors of all of
them, or does not end in time (`Race.run_verdict_cases`).  `refusal_is_atomic` says this of
every session that any operations lead to (`Session.Reaches`), and that a refused operation
leaves no trace.
-/

namespace Hedging

variable {α : Type}

namespace Race

/-- **The ways in which an operation on some regions ends.** -/
theorem run_verdict_cases {regions : List Region} (h : regions ≠ []) (t : Thresholds)
    (script : Script α) (deadline : Option Nat) :
    let r := run t regions script deadline
    (∃ (i : Fin regions.length) (v : α), r.verdict = .won i (regions.get i) v) ∨
    (∃ fs, r.verdict = .failed (.allFailed fs) ∧ fs.map (·.region) = regions) ∨
    (r.verdict = .dropped ∧ deadline = some r.elapsed) ∨
    (r.verdict = .unfinished ∧ deadline = none ∧ (∃ i, played regions script i = .hang) ∧
      ∀ i d v, played regions script i ≠ .success d v) := by
  intro r
  have hruns : RunsTo t script deadline regions r := runsTo_run t regions script deadline
  clear_value r
  cases hruns with
  | none => exact absurd rfl h
  | @single region _ hsingle =>
    cases hsingle with
    | won _ _ => exact .inl ⟨(0 : Fin 1), _, rfl⟩
    | failed _ _ => exact .inr (.inl ⟨_, rfl, rfl⟩)
    | dropped hlimit _ => exact .inr (.inr (.inl ⟨rfl, hlimit⟩))
    | unfinished noLimit ho =>
      refine .inr (.inr (.inr ⟨rfl, noLimit, ⟨(0 : Fin 1), ?_⟩, fun i d v hplayed => ?_⟩))
      · rw [played_singleton, ho]
      · rw [played_singleton, ho] at hplayed
        cases hplayed
  | race _ hending =>
    cases hending with
    | won wins _ =>
      obtain ⟨i, rfl, -⟩ := wins.exists_succeedsAt
      exact .inl ⟨i, _, rfl⟩
    | failed ongoing ended =>
      obtain ⟨d, m, failing⟩ := exists_failures ended ongoing.noValue
      refine .inr (.inl ⟨_, rfl, ?_⟩)
      rw [failures_lineup failing, List.map_map]
      exact List.map_get_finRange regions
    | dropped hlimit _ _ => exact .inr (.inr (.inl ⟨rfl, hlimit⟩))
    | unfinished ongoing noLimit _ ended hangs =>
      obtain ⟨e, he, hfinish⟩ := hangs
      obtain ⟨i, rfl⟩ := (mem_lineup t regions script).1 he
      rw [finish?_entrantAt] at hfinish
      refine .inr (.inr (.inr ⟨rfl, noLimit, ⟨i, finishAt?_eq_none_iff.1 hfinish⟩, ?_⟩))
      intro j d v hplayed
      exact not_succeedsAt_of_ended ongoing.noValue ended j _ v ⟨d, hplayed, rfl⟩

end Race

/-! ### Intents -/

namespace Client

/-- **A client is refused for having no regions, and then for its intent.** -/
theorem ofSettings_eq_error_iff {settings : Settings} {e : ConfigError} :
    Client.ofSettings settings = .error e ↔
      settings.regions = [] ∧ e = .noRegions ∨
        settings.regions ≠ [] ∧ Strategy.ofIntent settings.intent = .error e := by
  unfold Client.ofSettings
  cases hregions : settings.regions with
  | nil => simp [eq_comm]
  | cons r rs =>
    cases hintent : Strategy.ofIntent settings.intent with
    | error e' => simp [bind, Except.bind]
    | ok s => simp [bind, Except.bind, pure, Except.pure]

theorem effective_of_ok {intent : Override} {own : Strategy}
    (h : Strategy.ofIntent intent = .ok own) (c : Client) :
    c.effective intent = .ok (c.strategy.overriddenBy own) := by
  unfold effective Strategy.withOverride
  rw [h]
  show Except.ok ((Strategy.unset.overriddenBy c.strategy).overriddenBy own) = _
  rw [Strategy.unset_overriddenBy]

/-- An operation whose own intent is refused does nothing. -/
theorem execute_of_error {intent : Override} {e : ConfigError}
    (h : Strategy.ofIntent intent = .error e) (c : Client) (script : Script α)
    (deadline : Option Nat) : c.execute intent script deadline = .immediate (.config e) := by
  have heffective : c.effective intent = .error e := by
    unfold effective Strategy.withOverride
    rw [h]
    rfl
  unfold execute
  rw [heffective]

end Client

/-! ### Sessions -/

namespace Session

/-- Operations lead from one session to another: one by one, or several at the same time. -/
inductive Reaches (s : Session) : Session → Prop
  | refl : Reaches s s
  | execute {β : Type} {s' : Session} (h : Reaches s s') (op : Operation β) :
      Reaches s (s'.execute op).2
  | executeTogether {β : Type} {s' : Session} (h : Reaches s s') (ops : List (Operation β)) :
      Reaches s (s'.executeTogether ops).2

/-- **No operation changes the client.** -/
theorem Reaches.client_eq {s s' : Session} (h : s.Reaches s') : s'.client = s.client := by
  induction h with
  | refl => rfl
  | execute _ op ih => exact ih
  | executeTogether _ ops ih => exact ih

/-- An operation whose own intent is refused leaves the session as it is. -/
theorem execute_of_error {op : Operation α} {e : ConfigError}
    (h : Strategy.ofIntent op.intent = .error e) (s : Session) :
    s.execute op = (.immediate (.config e), s) := by
  have hreport : s.report op = .immediate (.config e) := s.client.execute_of_error h _ _
  unfold execute
  rw [hreport]
  rfl

end Session

namespace Client

theorem sent_prefix (c : Client) (strategy : Strategy) : c.sent strategy <+: c.regions := by
  cases strategy with
  | active t => exact List.prefix_rfl
  | unset => exact List.prefix_append [c.primary] c.others
  | disabled => exact List.prefix_append [c.primary] c.others

theorem sent_eq (c : Client) (strategy : Strategy) :
    c.sent strategy = if strategy.isActive then c.regions else c.regions.take 1 := by
  cases strategy <;> rfl

/-- How an operation of a client ends that is not refused. -/
theorem execute_verdict_cases {intent : Override} {strategy : Strategy} {c : Client}
    (h : c.effective intent = .ok strategy) (script : Script α) (deadline : Option Nat) :
    let r := c.execute intent script deadline
    (∃ i region v, r.verdict = .won i region v ∧ c.regions[i]? = some region) ∨
    (∃ fs, r.verdict = .failed (.allFailed fs) ∧ fs.map (·.region)
      = if strategy.isActive then c.regions else c.regions.take 1) ∨
    (r.verdict = .dropped ∧ deadline = some r.elapsed) ∨
    (r.verdict = .unfinished ∧ deadline = none ∧
      (∃ i, Race.played (c.sent strategy) script i = .hang) ∧
      ∀ i d v, Race.played (c.sent strategy) script i ≠ .success d v) := by
  intro r
  have hr : r = (Race.run (strategy.thresholds?.getD .standard) (c.sent strategy) script
      deadline).after (0, .operation strategy.text c.regions.length) :=
    execute_of_ok h script deadline
  have hcases := Race.run_verdict_cases (c.sent_ne_nil strategy)
    (strategy.thresholds?.getD .standard) script deadline
  rw [hr, ← sent_eq]
  rcases hcases with ⟨i, v, hwon⟩ | hfailed | hdropped | hunfinished
  · refine .inl ⟨i, _, v, hwon, ?_⟩
    obtain ⟨rest, hrest⟩ := c.sent_prefix strategy
    rw [← hrest, List.getElem?_append_left i.isLt, List.get_eq_getElem, List.getElem?_eq_getElem]
  · exact .inr (.inl hfailed)
  · exact .inr (.inr (.inl hdropped))
  · exact .inr (.inr (.inr hunfinished))

end Client

/-- **A refusal is atomic, and nothing is refused during a race.**  A client is refused for having
no regions or for its intent.  However it was used since, an operation is refused exactly if its
own intent is, whatever the strategy of the client, and then it changes nothing and takes no time.
Any other operation is won by a region of the client, or fails with the errors of all regions or
of the primary alone, unless it is dropped or an attempt without end leaves it waiting. -/
theorem refusal_is_atomic :
    (∀ settings e, Session.ofSettings settings = .error e ↔
      settings.regions = [] ∧ e = .noRegions ∨
        settings.regions ≠ [] ∧ Strategy.ofIntent settings.intent = .error e) ∧
    (∀ settings s₀ s, Session.ofSettings settings = .ok s₀ → s₀.Reaches s → ∀ op : Operation α,
      let r := (s.execute op).1
      (∀ e, r.verdict = .failed (.config e) ↔ Strategy.ofIntent op.intent = .error e) ∧
      (∀ e, Strategy.ofIntent op.intent = .error e →
        s.execute op = (⟨.failed (.config e), 0, [], []⟩, s)) ∧
      r.verdict ≠ .failed .noRegions ∧
      (∀ own, Strategy.ofIntent op.intent = .ok own →
        ∃ strategy, s.client.effective op.intent = .ok strategy ∧
          ((∃ i region v, r.verdict = .won i region v ∧ settings.regions[i]? = some region) ∨
          (∃ fs, r.verdict = .failed (.allFailed fs) ∧ fs.map (·.region)
            = if strategy.isActive then settings.regions else settings.regions.take 1) ∨
          (r.verdict = .dropped ∧ op.deadline = some r.elapsed) ∨
          (r.verdict = .unfinished ∧ op.deadline = none ∧
            (∃ i, Race.played (s.client.sent strategy) op.script i = .hang) ∧
            ∀ i d v, Race.played (s.client.sent strategy) op.script i ≠ .success d v)))) := by
  constructor
  · intro settings e
    rw [← Client.ofSettings_eq_error_iff]
    unfold Session.ofSettings
    cases Client.ofSettings settings <;> simp [bind, Except.bind, pure, Except.pure]
  · intro settings s₀ s hs₀ reaches op r
    have hregions : s.client.regions = settings.regions := by
      rw [reaches.client_eq]
      exact (Session.ofSettings_eq_ok hs₀).1
    cases hown : Strategy.ofIntent op.intent with
    | error e =>
      have hexecute := s.execute_of_error hown
      have hr : r = .immediate (.config e) := congrArg Prod.fst hexecute
      rw [hr]
      refine ⟨fun e' => ?_, fun e' he => ?_, fun h => ?_, fun own h => ?_⟩
      · simp [Report.immediate]
      · rw [hexecute, Except.error.inj he]
        rfl
      · cases h
      · cases h
    | ok own =>
      have heffective := Client.effective_of_ok hown s.client
      have hcases := Client.execute_verdict_cases heffective op.script op.deadline
      rw [hregions] at hcases
      have hfailed : ∀ error, r.verdict = .failed error → ∃ fs, error = .allFailed fs := by
        intro error h
        rcases hcases with ⟨_, _, _, hv, -⟩ | ⟨fs, hv, -⟩ | ⟨hv, -⟩ | ⟨hv, -⟩
        · cases hv.symm.trans h
        · exact ⟨fs, (Verdict.failed.inj (hv.symm.trans h)).symm⟩
        · cases hv.symm.trans h
        · cases hv.symm.trans h
      refine ⟨fun e => ⟨fun h => ?_, fun h => ?_⟩, fun e h => ?_, fun h => ?_, fun own' h => ?_⟩
      · obtain ⟨fs, hfs⟩ := hfailed _ h
        cases hfs
      · cases h
      · cases h
      · obtain ⟨fs, hfs⟩ := hfailed _ h
        cases hfs
      · obtain rfl := Except.ok.inj h
        exact ⟨_, heffective, hcases⟩

/-- A client without regions is refused for that, although its intent is refused too.  A client
that has won an operation is called with a threshold of zero, and then without hedging. -/
theorem refusal_is_atomic_of_zero :
    let bad : Override := some (.thresholds ⟨some 0, some (-1)⟩)
    let refusal : ConfigError := .notPositive "threshold_ms" 0
    let settings : Settings := ⟨[⟨"a"⟩, ⟨"b"⟩], some (.enabled true)⟩
    let s₀ : Session := ⟨⟨⟨"a"⟩, [⟨"b"⟩], .active .standard⟩, .ofRegions settings.regions⟩
    let script : Script Nat := .ofTable [(⟨"a"⟩, [.failure 50 "busy"]), (⟨"b"⟩, [.success 100 7])]
    let s := (s₀.execute (⟨none, script, none⟩ : Operation Nat)).2
    let alone : Operation Nat := ⟨some (.enabled false), script, none⟩
    Session.ofSettings ⟨[], bad⟩ = .error .noRegions ∧
      Session.ofSettings settings = .ok s₀ ∧ s₀.Reaches s ∧
      Strategy.ofIntent bad = .error refusal ∧
      s.execute (⟨bad, script, some 10⟩ : Operation Nat)
        = (⟨.failed (.config refusal), 0, [], []⟩, s) ∧
      (∃ fs, (s.execute alone).1.verdict = .failed (.allFailed fs) ∧
        fs.map (·.region) = [⟨"a"⟩]) := by
  intro bad refusal settings s₀ script s alone
  have hs₀ : Session.ofSettings settings = .ok s₀ := rfl
  have hs : s₀.Reaches s := .execute .refl _
  have hbad : Strategy.ofIntent bad = .error refusal := rfl
  obtain ⟨hnew, hcall⟩ := refusal_is_atomic (α := Nat)
  obtain ⟨-, hatomic, -, -⟩ := hcall settings s₀ s hs₀ hs ⟨bad, script, some 10⟩
  obtain ⟨-, -, -, hends⟩ := hcall settings s₀ s hs₀ hs alone
  obtain ⟨strategy, hstrategy, hcases⟩ := hends .disabled rfl
  obtain rfl : Strategy.disabled = strategy := Except.ok.inj hstrategy
  have hverdict : (s.execute alone).1.verdict = .failed (.allFailed [⟨⟨"a"⟩, "busy"⟩]) := by
    decide +kernel
  refine ⟨(hnew ⟨[], bad⟩ .noRegions).2 (.inl ⟨rfl, rfl⟩), hs₀, hs, hbad, hatomic refusal hbad, ?_⟩
  rcases hcases with ⟨_, _, _, hv, -⟩ | ⟨fs, hv, hregions⟩ | ⟨hv, -⟩ | ⟨hv, -⟩
  · cases hverdict.symm.trans hv
  · exact ⟨fs, hv, hregions⟩
  · cases hverdict.symm.trans hv
  · cases hverdict.symm.trans hv

end Hedging
