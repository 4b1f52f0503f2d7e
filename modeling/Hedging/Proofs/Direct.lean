import Hedging.Proofs.Race.Decided
import Hedging.Proofs.Session

/-!
# A single region without a race

An operation on one region skips the race, and so does one without hedging, which goes to the
primary alone.  Neither can be told from a race of this one region, but by the events
(`alone_eq_contest`).  Here are the events that it leaves out: they follow from the report
(`Ending.events_lone`), so the two ways can be turned into each other (`direct_attempt_is_race`).
-/

namespace Hedging

variable {α : Type}

/-- What a race of one region logs: its start, how the attempt ended, and that all have failed. -/
def Report.loneLog (r : Region) (report : Report α) : List (Nat × Event) :=
  (0, .started r 0 0) :: match report.verdict with
    | .won _ _ _ => [(report.elapsed, .primaryWon r 0)]
    | .failed (.allFailed fs) =>
      fs.map (fun f => (report.elapsed, .failed r 0 f.error))
        ++ [(report.elapsed, .allFailed fs.length)]
    | _ => []

namespace Race

variable {r : Region} {o : Outcome α} {deadline : Option Nat} {report : Report α}

/-! ### The events of a race of one region -/

/-- Its region starts at the first tick, and may fail at the end of its attempt. -/
theorem tickEvents_lone (k : Nat) :
    tickEvents [lone r o] k = (if k = 1 then [(0, .started r 0 0)] else [])
      ++ if (lone r o).endTick? = some k then ((lone r o).failEvent? k).toList else [] := by
  have hstart : ([lone r o].filter (·.startTick = k)).map (·.startEvent)
      = if k = 1 then [(0, .started r 0 0)] else [] := by
    rw [List.filter_cons, List.filter_nil, apply_ite (List.map _)]
    exact if_congr (decide_eq_true_iff.trans eq_comm) rfl rfl
  have hfail : ([lone r o].filter (·.endsAt k)).filterMap (·.failEvent? k)
      = if (lone r o).endTick? = some k then ((lone r o).failEvent? k).toList else [] := by
    rw [List.filter_cons, List.filter_nil, apply_ite (List.filterMap _)]
    refine if_congr Entrant.endsAt_iff ?_ rfl
    cases hfail : (lone r o).failEvent? k <;> simp [hfail]
  rw [tickEvents, hstart, hfail]

/-- As long as its attempt goes on, a race of one region has logged a start. -/
theorem events_lone_of_flying {n : Nat} (hn : 2 ≤ n)
    (flying : ∀ k, (lone r o).endTick? = some k → n ≤ k) :
    (List.range n).flatMap (tickEvents [lone r o]) = [(0, .started r 0 0)] := by
  have htick : ∀ k < n, tickEvents [lone r o] k = if k = 1 then [(0, .started r 0 0)] else [] :=
    fun k hk => by
      have hgoes : (lone r o).endTick? ≠ some k := fun hends =>
        absurd (flying k hends) (Nat.not_le.2 hk)
      rw [tickEvents_lone, if_neg hgoes, List.append_nil]
  rw [Ordered.flatMap_range_of_nil hn fun k hk hkn => (htick k hkn).trans (if_neg (by omega))]
  show tickEvents [lone r o] 0 ++ (tickEvents [lone r o] 1 ++ []) = _
  rw [htick 0 (by omega), htick 1 hn]
  rfl

/-- The end of its attempt is the last thing that a race of one region logs. -/
theorem events_lone_of_ended {c k : Nat} (hk : (lone r o).endTick? = some k) (hkc : k ≤ c) :
    (List.range (c + 1)).flatMap (tickEvents [lone r o])
      = (0, .started r 0 0) :: ((lone r o).failEvent? k).toList := by
  have hstart : 1 < k := Entrant.startTick_lt hk
  have hended : ∀ e ∈ [lone r o], e.hasEnded k = true := fun e he => by
    obtain rfl := List.mem_singleton.1 he
    exact Entrant.hasEnded_iff.2 ⟨k, hk, Nat.le_refl k⟩
  have hflying : ∀ j, (lone r o).endTick? = some j → k ≤ j := fun j hj =>
    (Option.some.inj (hk.symm.trans hj)).le
  rw [events_eq_of_ended hkc hended, List.range_succ, List.flatMap_append,
    events_lone_of_flying hstart hflying, List.flatMap_singleton, tickEvents_lone,
    if_neg hstart.ne', if_pos hk]
  rfl

/-- **The report of a race of one region says what it has logged.** -/
theorem Ending.events_lone (h : Ending [lone r o] deadline report) :
    report.events = report.loneLog r := by
  cases h with
  | @won w v k wins inTime =>
    obtain rfl := List.mem_singleton.1 wins.mem
    have hflying : ∀ j, (lone r o).endTick? = some j → k ≤ j := fun j hj =>
      (Option.some.inj (wins.tick.symm.trans hj)).le
    have hcount : flyingCount [lone r o] k = 0 := by
      have hended := Entrant.hasEnded_iff.2 ⟨k, wins.tick, Nat.le_refl k⟩
      rw [flyingCount, List.filter_cons_of_neg (by simp [Entrant.isFlying, hended])]
      rfl
    have hbatch : failedAt [lone r o] k = [] := by
      rw [failedAt, List.filter_cons_of_pos (Entrant.endsAt_iff.2 wins.tick),
        List.takeWhile_cons_of_neg (by simp [wins.value])]
    rw [wonReport, events_lone_of_flying (Entrant.startTick_lt wins.tick) hflying, hbatch, winEvent,
      hcount]
    rfl
  | @failed c ongoing ended =>
    have hended := ended _ (List.mem_singleton_self _)
    obtain ⟨k, hk, hkc⟩ := Entrant.hasEnded_iff.1 hended
    have hnone := ongoing.noValue _ (List.mem_singleton_self _) hended
    obtain ⟨m, hm⟩ := Option.isSome_iff_exists.1 (Entrant.error?_isSome hended hnone)
    have hclock : k / 3 = c / 3 := by
      obtain ⟨e, he, hfinish⟩ := (ongoing.isGreatest_finish (List.cons_ne_nil _ _) ended).1
      obtain rfl := List.mem_singleton.1 he
      exact Option.some.inj ((Entrant.finish?_of_endTick? hk).1.symm.trans hfinish)
    have hfailure : [lone r o].filterMap (·.failure?) = [⟨r, m⟩] :=
      List.filterMap_cons_some (by rw [Entrant.failure?, hm]; rfl)
    rw [failedReport, events_lone_of_ended hk hkc, Entrant.failEvent?, hm, hfailure, hclock]
    rfl
  | @dropped limit hlimit noValue unended =>
    obtain ⟨e, he, hnot⟩ := unended
    obtain rfl := List.mem_singleton.1 he
    refine events_lone_of_flying (by omega) fun k hk => Nat.not_lt.1 fun hlt => ?_
    rw [Entrant.hasEnded_iff.2 ⟨k, hk, by omega⟩] at hnot
    cases hnot
  | @unfinished c ongoing noLimit started ended hangs =>
    obtain ⟨e, he, hnone⟩ := hangs
    obtain rfl := List.mem_singleton.1 he
    have hlaunched := ongoing.launched
    refine events_lone_of_flying (by omega) fun k hk => ?_
    cases hnone.symm.trans (Entrant.finish?_of_endTick? hk).1

/-- A single attempt is a race of its region without the events. -/
theorem run_singleton (t : Thresholds) (r : Region) (script : Script α) (deadline : Option Nat) :
    run t [r] script deadline = (contest deadline (lineup t [r] script)).silent :=
  run_eq_contest_heard (List.cons_ne_nil _ _) deadline

/-- **A race of one region is its single attempt with the events of a race.** -/
theorem contest_lineup_singleton (t : Thresholds) (r : Region) (script : Script α)
    (deadline : Option Nat) :
    let direct := run t [r] script deadline
    contest deadline (lineup t [r] script) = { direct with events := direct.loneLog r } := by
  intro direct
  rw [show direct = _ from run_singleton t r script deadline, lineup_singleton]
  have hlog := (contest_ending (inOrder_lone r (script r 0)) deadline).events_lone
  generalize contest deadline [lone r (script r 0)] = race at hlog ⊢
  rcases race with ⟨verdict, elapsed, calls, events⟩
  exact congrArg _ hlog

end Race

/-- **A single attempt can be told from a race of one region by its events alone.**  It has the
same verdict, with the value or the one failure, the same duration and the same calls; it has no
events, and what the race logs follows from the report.  Every ledger learns the same from both.
A client that does not hedge, or has no region but its primary, does what a race of its primary
does, whatever the thresholds, but for the events: it only announces itself. -/
theorem direct_attempt_is_race (t : Thresholds) (r : Region) (script : Script α)
    (deadline : Option Nat) :
    let direct := Race.run t [r] script deadline
    let race := Race.contest deadline (Race.lineup t [r] script)
    direct = { race with events := [] } ∧
    race = { direct with events := direct.loneLog r } ∧
    Race.Single deadline r (script r 0) direct ∧
    (∀ ledger : Ledger, ledger.add direct = ledger.add race) ∧
    ∀ (s : Session) (intent : Override) (strategy : Strategy),
      s.client.effective intent = .ok strategy → s.client.primary = r →
      strategy.isActive = false ∨ s.client.others = [] →
      s.execute ⟨intent, script, deadline⟩
        = ({ race with events := [(0, .operation strategy.text s.client.regions.length)] },
            { s with ledger := s.ledger.add race }) := by
  intro direct race
  have hdirect : direct = race.silent := Race.run_singleton t r script deadline
  refine ⟨hdirect, Race.contest_lineup_singleton t r script deadline,
    Race.alone_ending deadline r (script r 0), fun ledger => ?ledger, ?client⟩
  case ledger =>
    rw [hdirect]
    rfl
  case client =>
    rintro s intent strategy hstrategy rfl hsingle
    have hreport : s.report ⟨intent, script, deadline⟩
        = direct.after (0, .operation strategy.text s.client.regions.length) :=
      Client.execute_of_direct hstrategy hsingle t script deadline
    rw [Session.execute, hreport, hdirect]
    rfl

/-- An operation that forbids hedging fails at the instant at which it would have been dropped. -/
theorem direct_attempt_is_race_of_two :
    let s : Session := ⟨⟨⟨"a"⟩, [⟨"b"⟩], .active .standard⟩, .ofRegions [⟨"a"⟩, ⟨"b"⟩]⟩
    let script : Script Nat :=
      .ofTable [(⟨"a"⟩, [.failure 50 "busy"]), (⟨"b"⟩, [.success 10 7])]
    let race := Race.contest (some 50) (Race.lineup .standard [⟨"a"⟩] script)
    race = ⟨.failed (.allFailed [⟨⟨"a"⟩, "busy"⟩]), 50, [⟨0, ⟨"a"⟩, 0, 50, .error⟩],
      [(0, .started ⟨"a"⟩ 0 0), (50, .failed ⟨"a"⟩ 0 "busy"), (50, .allFailed 1)]⟩ ∧
    s.execute ⟨some (.enabled false), script, some 50⟩
      = ({ race with events := [(0, .operation "disabled" 2)] },
          { s with ledger := s.ledger.add race }) := by
  intro s script race
  obtain ⟨-, hrace, -, -, hclient⟩ := direct_attempt_is_race .standard ⟨"a"⟩ script (some 50)
  exact ⟨hrace, hclient s (some (.enabled false)) .disabled rfl rfl (.inl rfl)⟩

end Hedging
