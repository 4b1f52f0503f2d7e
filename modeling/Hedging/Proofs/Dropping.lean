import Hedging.Proofs.Race.Decided
import Hedging.Proofs.Session

/-!
# Dropped operations

An operation that is over by its deadline does not feel it.  Any other is cut off there: what
has happened up to the deadline stays, at its last instant everything except a victory, and
what is in flight is given up (`Race.Ending.truncated`, by ticks).  `CutOff` says in instants
what is left of the attempts, the events and the errors, and `dropping_cuts_off` that every
operation of an executor or of a client is either the same with a deadline or cut off by it.
-/

namespace Hedging

variable {α : Type}

/-- Whether an event is the last one of a race. -/
def Event.isLast : Event → Bool
  | primaryWon .. => true
  | hedgeWon .. => true
  | allFailed .. => true
  | _ => false

/-- The operation has ended by an instant.  One that waits for ever never does. -/
def Report.IsOverBy (limit : Nat) (report : Report α) : Prop :=
  report.verdict ≠ .unfinished ∧ report.elapsed ≤ limit

instance [DecidableEq α] (limit : Nat) (report : Report α) : Decidable (report.IsOverBy limit) :=
  inferInstanceAs (Decidable (_ ∧ _))

theorem Report.isOverBy_heardFrom {regions : List Region} {limit : Nat} {report : Report α} :
    (report.heardFrom regions).IsOverBy limit ↔ report.IsOverBy limit := by
  rw [IsOverBy, IsOverBy, verdict_heardFrom, elapsed_heardFrom]

namespace Race

variable {es : List (Entrant α)} {limit : Nat}

/-! ### Events up to an instant -/

theorem isLast_of_mem_tickEvents {k : Nat} {x : Nat × Event} (h : x ∈ tickEvents es k) :
    x.2.isLast = false := by
  rcases List.mem_append.1 h with hstart | hfail
  · obtain ⟨e, -, rfl⟩ := List.mem_map.1 hstart
    rfl
  · obtain ⟨e, -, he⟩ := List.mem_filterMap.1 hfail
    obtain ⟨m, -, rfl⟩ := Option.map_eq_some_iff.1 he
    rfl

/-- The events up to an instant are those of its ticks and all before. -/
theorem filter_events_le (es : List (Entrant α)) (n limit : Nat) :
    ((List.range n).flatMap (tickEvents es)).filter (·.1 ≤ limit)
      = (List.range (min n (3 * limit + 3))).flatMap (tickEvents es) := by
  induction n with
  | zero => simp
  | succ n ih =>
    rw [List.range_succ, List.flatMap_append, List.flatMap_singleton, List.filter_append, ih]
    by_cases hn : n < 3 * limit + 3
    · have hall : (tickEvents es n).filter (·.1 ≤ limit) = tickEvents es n :=
        List.filter_eq_self.2 fun x hx => decide_eq_true (by
          rw [time_of_mem_tickEvents hx]
          omega)
      have hmin : min (n + 1) (3 * limit + 3) = min n (3 * limit + 3) + 1 := by omega
      have hmin' : min n (3 * limit + 3) = n := by omega
      rw [hall, hmin, hmin', List.range_succ, List.flatMap_append, List.flatMap_singleton]
    · have hnone : (tickEvents es n).filter (·.1 ≤ limit) = [] :=
        List.filter_eq_nil_iff.2 fun x hx hle => by
          have hle := of_decide_eq_true hle
          rw [time_of_mem_tickEvents hx] at hle
          omega
      have hmin : min (n + 1) (3 * limit + 3) = min n (3 * limit + 3) := by omega
      rw [hnone, hmin, List.append_nil]

/-- Events of a later instant are not among those up to an instant. -/
theorem filter_le_eq_nil {xs : List (Nat × Event)} {time : Nat} (hlate : limit < time)
    (h : ∀ x ∈ xs, x.1 = time) : xs.filter (·.1 ≤ limit) = [] :=
  List.filter_eq_nil_iff.2 fun x hx hle => by
    have hle := of_decide_eq_true hle
    rw [h x hx] at hle
    omega

/-- After a deadline at which a victory is still to come, its events are those of the drop. -/
theorem events_wonReport_le {w : Entrant α} {v : α} {k : Nat} (hlate : limit < k / 3) :
    (wonReport es w v k).events.filter (·.1 ≤ limit) = (droppedReport es limit).events := by
  have hfailed : ((failedAt es k).filterMap (·.failEvent? k)).filter (·.1 ≤ limit) = [] := by
    refine filter_le_eq_nil hlate fun x hx => ?_
    obtain ⟨e, -, he⟩ := List.mem_filterMap.1 hx
    obtain ⟨m, -, rfl⟩ := Option.map_eq_some_iff.1 he
    rfl
  have hwin : [(k / 3, winEvent es w k)].filter (·.1 ≤ limit) = [] :=
    filter_le_eq_nil hlate fun x hx => by rw [List.mem_singleton.1 hx]
  have hmin : min k (3 * limit + 3) = 3 * limit + 3 := by omega
  rw [wonReport, List.filter_append, List.filter_append, filter_events_le, hfailed, hwin, hmin,
    List.append_nil, List.append_nil]
  rfl

theorem events_failedReport_le {c : Nat} (hlate : limit < c / 3) :
    (failedReport es c).events.filter (·.1 ≤ limit) = (droppedReport es limit).events := by
  have hlast : [(c / 3, Event.allFailed es.length)].filter (·.1 ≤ limit) = [] :=
    filter_le_eq_nil hlate fun x hx => by rw [List.mem_singleton.1 hx]
  have hmin : min (c + 1) (3 * limit + 3) = 3 * limit + 3 := by omega
  rw [failedReport, List.filter_append, filter_events_le, hlast, hmin, List.append_nil]
  rfl

/-- Nothing happens after the last tick of a race that waits for ever. -/
theorem events_unfinishedReport_le {c : Nat} (started : ∀ e ∈ es, e.startTick ≤ c)
    (ended : ∀ e ∈ es, ∀ k, e.endTick? = some k → k ≤ c) :
    (unfinishedReport es c).events.filter (·.1 ≤ limit) = (droppedReport es limit).events := by
  rw [unfinishedReport, filter_events_le, droppedReport]
  have hquiet : Quiet es c (3 * limit + 2) := fun e he =>
    ⟨fun _ => started e he, fun j hj _ => ended e he j hj⟩
  refine (Ordered.flatMap_range_of_nil (by omega) fun j hmin hj => ?_).symm
  exact hquiet.tickEvents_eq_nil (by omega) (by omega)

/-! ### By ticks -/

/-- **A race with a deadline is the race without it, if that is over by then, and else what has
happened by then.** -/
theorem Ending.truncated (hes : InOrder es) (hne : es ≠ []) {whole cut : Report α}
    (h : Ending es none whole) (hcut : Ending es (some limit) cut) :
    whole.IsOverBy limit ∧ cut = whole ∨
      ¬ whole.IsOverBy limit ∧ cut = droppedReport es limit ∧
        (droppedReport es limit).events = whole.events.filter (·.1 ≤ limit) ∧
        ∀ e ∈ es, e.hasEnded (3 * limit + 2) = true → e.value? = none := by
  cases hcut with
  | won wins inTime =>
    rw [h.eq_wonReport hes wins (inTime_none _)]
    exact .inl ⟨⟨nofun, inTime_some.1 inTime⟩, rfl⟩
  | failed ongoing ended =>
    rw [h.eq_failedReport hne ongoing ended (inTime_none _)]
    exact .inl ⟨⟨nofun, inTime_some.1 ongoing.inTime⟩, rfl⟩
  | dropped hlimit noValue unended =>
    obtain rfl := Option.some.inj hlimit
    refine .inr ?_
    cases h with
    | @won w v k wins _ =>
      have hlate : limit < k / 3 := by
        refine Nat.not_le.1 fun hle => ?_
        have hnone := noValue w wins.mem (Entrant.hasEnded_iff.2 ⟨k, wins.tick, by omega⟩)
        rw [wins.value] at hnone
        cases hnone
      exact ⟨fun hover => Nat.not_le.2 hlate hover.2, rfl, (events_wonReport_le hlate).symm,
        noValue⟩
    | @failed c ongoing ended =>
      have hlate : limit < c / 3 := by
        refine Nat.not_le.1 fun hle => ?_
        obtain ⟨e, he, hnot⟩ := unended
        obtain ⟨k, hk, hkc⟩ := Entrant.hasEnded_iff.1 (ended e he)
        rw [Entrant.hasEnded_iff.2 ⟨k, hk, by omega⟩] at hnot
        cases hnot
      exact ⟨fun hover => Nat.not_le.2 hlate hover.2, rfl, (events_failedReport_le hlate).symm,
        noValue⟩
    | dropped hnone _ _ => cases hnone
    | unfinished _ _ started ended _ =>
      exact ⟨fun hover => hover.1 rfl, rfl, (events_unfinishedReport_le started ended).symm,
        noValue⟩
  | unfinished _ hnone _ _ _ => cases hnone

/-! ### By instants -/

section
variable (t : Thresholds) (regions : List Region) (script : Script α) (limit : Nat)

/-- The places whose attempts have started by an instant. -/
def dueBy : List (Fin regions.length) :=
  (List.finRange regions.length).filter fun i => dueAt t regions i ≤ limit

/-- Whether the attempt at a place fails by an instant. -/
def failsBy (i : Fin regions.length) : Bool :=
  match played regions script i with
  | .failure d _ => dueAt t regions i + d ≤ limit
  | _ => false

/-- How many attempts to a region fail by an instant. -/
def failuresBy (r : Region) : Nat :=
  (List.finRange regions.length).countP fun i =>
    regions.get i = r && failsBy t regions script limit i

/-- What an operation with the report `whole` leaves behind when it is cut off at an instant. -/
structure CutOff (whole cut : Report α) : Prop where
  verdict : cut.verdict = .dropped
  elapsed : cut.elapsed = limit
  /-- The attempts that are due have been made; each has ended by itself or is given up. -/
  calls : cut.calls = (dueBy t regions limit).map (callAt t regions script limit)
  noneOk : ∀ call ∈ cut.calls, call.ending ≠ .ok
  events : cut.events = whole.events.filter (·.1 ≤ limit)
  noneLast : ∀ event ∈ cut.events, event.2.isLast = false
  errors : ∀ r, cut.errors r = failuresBy t regions script limit r

variable {t regions script limit}

/-- What is said first is kept. -/
theorem CutOff.after {whole cut : Report α} (h : CutOff t regions script limit whole cut)
    {event : Nat × Event} (hle : event.1 ≤ limit) (hlast : event.2.isLast = false) :
    CutOff t regions script limit (whole.after event) (cut.after event) := by
  refine ⟨h.verdict, h.elapsed, h.calls, h.noneOk, ?_, ?_, h.errors⟩
  · have hevents : (whole.after event).events.filter (·.1 ≤ limit)
        = event :: whole.events.filter (·.1 ≤ limit) :=
      List.filter_cons_of_pos (decide_eq_true hle)
    rw [hevents, ← h.events]
    rfl
  · exact List.forall_mem_cons.2 ⟨hlast, h.noneLast⟩

theorem calls_droppedReport :
    (droppedReport (lineup t regions script) limit).calls
      = (dueBy t regions limit).map (callAt t regions script limit) := by
  have hclock : (3 * limit + 2) / 3 = limit := by omega
  have hstarted : ∀ i, (entrantAt t regions script i).hasStarted (3 * limit + 2)
      = decide (dueAt t regions i ≤ limit) := fun i => by
    rw [Bool.eq_iff_iff, Entrant.hasStarted_iff, decide_eq_true_iff]
    show 3 * dueAt t regions i + 1 ≤ 3 * limit + 2 ↔ dueAt t regions i ≤ limit
    omega
  refine map_filter_lineup t regions script hstarted fun i hi => ?_
  rw [← hstarted] at hi
  rw [record_eq_callAt (by omega) hi, hclock]

/-- An attempt without a value does not end well. -/
theorem ending_record_ne_ok {e : Entrant α} {c : Nat}
    (hv : e.hasEnded c = true → e.value? = none) : (e.record c).ending ≠ .ok := by
  intro hok
  cases hended : e.hasEnded c with
  | true =>
    have herror := Entrant.error?_isSome hended (hv hended)
    rw [ending_record_eq_error_iff.2 ⟨hended, herror⟩] at hok
    cases hok
  | false =>
    rw [ending_record_eq_cancelled_iff.2 hended] at hok
    cases hok

/-- The errors of an operation that was dropped are the attempts that fail by its end. -/
theorem failuresIn_of_dropped {report : Report α} (h : report.verdict = .dropped) (r : Region) :
    failuresIn t regions script report r = failuresBy t regions script report.elapsed r := by
  refine List.countP_congr fun i _ => ?_
  have hfails : failsIn t regions script report i
      = failsBy t regions script report.elapsed i := by
    unfold failsIn failsBy
    cases played regions script i with
    | success _ _ => rfl
    | failure d m => simp only [h]
    | hang => rfl
  rw [hfails]

/-- What is heard of a race that was dropped. -/
theorem cutOff_heardFrom {whole : Report α}
    (noValue : ∀ e ∈ lineup t regions script, e.hasEnded (3 * limit + 2) = true → e.value? = none)
    (events : (droppedReport (lineup t regions script) limit).events
      = whole.events.filter (·.1 ≤ limit))
    (errors : ∀ r, (droppedReport (lineup t regions script) limit).errors r
      = failuresBy t regions script limit r) :
    CutOff t regions script limit (whole.heardFrom regions)
      ((droppedReport (lineup t regions script) limit).heardFrom regions) := by
  refine ⟨?_, ?_, ?_, ?_, ?_, ?_, ?_⟩
  · rw [Report.verdict_heardFrom]
    rfl
  · rw [Report.elapsed_heardFrom]
    rfl
  · rw [Report.calls_heardFrom, calls_droppedReport]
  · intro call hcall
    rw [Report.calls_heardFrom] at hcall
    obtain ⟨e, he, rfl⟩ := List.mem_map.1 hcall
    exact ending_record_ne_ok (noValue e (List.mem_filter.1 he).1)
  · unfold Report.heardFrom
    split
    · rfl
    · exact events
  · intro event hevent
    unfold Report.heardFrom at hevent
    split at hevent
    · exact absurd hevent List.not_mem_nil
    · obtain ⟨k, -, hk⟩ := List.mem_flatMap.1 hevent
      exact isLast_of_mem_tickEvents hk
  · intro r
    rw [← errors r, Report.errors, Report.errors, Report.calls_heardFrom]

/-- **An operation of an executor with a deadline** is the one without it, or it is cut off. -/
theorem run_truncated (t : Thresholds) (script : Script α) (hne : regions ≠ []) (limit : Nat) :
    let whole := run t regions script none
    let cut := run t regions script (some limit)
    whole.IsOverBy limit ∧ cut = whole ∨
      ¬ whole.IsOverBy limit ∧ CutOff t regions script limit whole cut := by
  intro whole cut
  have hes := lineup_inOrder t regions script
  have hlineup : lineup t regions script ≠ [] := by
    rw [← List.length_pos_iff, length_lineup]
    exact List.length_pos_iff.2 hne
  have hwhole : whole = (contest none (lineup t regions script)).heardFrom regions :=
    run_eq_contest_heard hne none
  have hcut : cut = (contest (some limit) (lineup t regions script)).heardFrom regions :=
    run_eq_contest_heard hne (some limit)
  have hending := contest_ending hes (some limit)
  rcases (contest_ending hes none).truncated hes hlineup hending with
    ⟨hover, heq⟩ | ⟨hover, heq, hevents, noValue⟩
  · rw [hwhole, hcut, Report.isOverBy_heardFrom, heq]
    exact .inl ⟨hover, rfl⟩
  · rw [heq] at hending
    rw [hwhole, hcut, Report.isOverBy_heardFrom, heq]
    refine .inr ⟨hover, cutOff_heardFrom noValue hevents fun r => ?_⟩
    rw [hending.errors r, failuresIn_of_dropped rfl]
    rfl

end
end Race

/-! ### Operations of a client -/

/-- **An operation of a client with a deadline** is the one without it, or it is cut off. -/
theorem Client.execute_truncated (c : Client) (intent : Override) (script : Script α)
    (limit : Nat) :
    let whole := c.execute intent script none
    let cut := c.execute intent script (some limit)
    whole.IsOverBy limit ∧ cut = whole ∨
      ¬ whole.IsOverBy limit ∧ ∃ s, c.effective intent = .ok s ∧
        Race.CutOff (s.thresholds?.getD .standard) (c.sent s) script limit whole cut := by
  intro whole cut
  cases hs : c.effective intent with
  | error e =>
    have hrefused : ∀ deadline, c.execute intent script deadline = .immediate (.config e) :=
      fun deadline => by rw [execute, hs]
    refine .inl ⟨?_, (hrefused _).trans (hrefused _).symm⟩
    rw [show whole = .immediate (.config e) from hrefused none]
    exact ⟨nofun, Nat.zero_le limit⟩
  | ok s =>
    rw [show whole = _ from execute_of_ok hs script none,
      show cut = _ from execute_of_ok hs script (some limit)]
    rcases Race.run_truncated (s.thresholds?.getD .standard) script (c.sent_ne_nil s) limit with
      ⟨hover, heq⟩ | ⟨hover, hcut⟩
    · rw [heq]
      exact .inl ⟨hover, rfl⟩
    · exact .inr ⟨hover, s, rfl, hcut.after (Nat.zero_le limit) rfl⟩

/-- A report without a winner adds to each row its errors. -/
theorem Ledger.rows_add_of_dropped (l : Ledger) {report : Report α}
    (h : report.verdict = .dropped) :
    (l.add report).rows = l.rows.map fun row =>
      (row.1, { row.2 with
        errorCounter := row.2.errorCounter + .ofNat (report.errors row.1) }) := by
  rw [rows_add]
  refine List.map_congr_left fun row _ => ?_
  have hwinner : report.isWonBy row.1 = false := by
    unfold Report.isWonBy
    rw [h]
    rfl
  rw [Tally.enter, hwinner]
  rfl

/-- **A deadline changes nothing of an operation that is over by then, and cuts off any other.**
Then the attempts that were due have been made, each has failed by itself or is given up; of the
events those up to the deadline remain, and of the ledger each row has as many more errors as
attempts to its region have failed.  This holds of an executor and of a client; an operation
of a client without hedging is one on the primary alone. -/
theorem dropping_cuts_off (t : Thresholds) (regions : List Region) (s : Session)
    (intent : Override) (script : Script α) (limit : Nat) :
    (let whole := Race.run t regions script none
      let cut := Race.run t regions script (some limit)
      (whole.IsOverBy limit → cut = whole) ∧
      (¬ whole.IsOverBy limit → Race.CutOff t regions script limit whole cut)) ∧
    (let whole := s.execute ⟨intent, script, none⟩
      let cut := s.execute ⟨intent, script, some limit⟩
      (whole.1.IsOverBy limit → cut = whole) ∧
      (¬ whole.1.IsOverBy limit → ∃ strategy, s.client.effective intent = .ok strategy ∧
        let t := strategy.thresholds?.getD .standard
        let regions := s.client.sent strategy
        Race.CutOff t regions script limit whole.1 cut.1 ∧ cut.2.client = s.client ∧
          cut.2.ledger.rows = s.ledger.rows.map fun row =>
            (row.1, { row.2 with
              errorCounter := row.2.errorCounter
                + .ofNat (Race.failuresBy t regions script limit row.1) }))) := by
  constructor
  · intro whole cut
    by_cases hne : regions = []
    · subst hne
      exact ⟨fun _ => rfl, fun hover => absurd ⟨nofun, Nat.zero_le limit⟩ hover⟩
    · rcases Race.run_truncated t script hne limit with ⟨hover, heq⟩ | ⟨hover, hcut⟩
      · exact ⟨fun _ => heq, fun hnot => absurd hover hnot⟩
      · exact ⟨fun hover' => absurd hover' hover, fun _ => hcut⟩
  · intro whole cut
    rcases s.client.execute_truncated intent script limit with
      ⟨hover, heq⟩ | ⟨hover, strategy, hstrategy, hcut⟩
    · refine ⟨fun _ => ?_, fun hnot => absurd hover hnot⟩
      show Session.execute s ⟨intent, script, some limit⟩ = Session.execute s ⟨intent, script, none⟩
      rw [Session.execute, Session.execute, Session.report, Session.report, heq]
    · refine ⟨fun hover' => absurd hover' hover, fun _ => ⟨strategy, hstrategy, hcut, rfl, ?_⟩⟩
      refine (s.ledger.rows_add_of_dropped hcut.verdict).trans (List.map_congr_left fun row _ => ?_)
      have herrors := hcut.errors row.1
      simp only [herrors]

/-- A race that is won at its deadline, and one whose deadline comes between the failure of the
first attempt and the answer of the second. -/
theorem dropping_cuts_off_of_three :
    let regions : List Region := [⟨"a"⟩, ⟨"b"⟩, ⟨"c"⟩]
    let s : Session := ⟨⟨⟨"a"⟩, [⟨"b"⟩, ⟨"c"⟩], .active .standard⟩, .ofRegions regions⟩
    let script : Script Nat := .ofTable [(⟨"a"⟩, [.failure 50 "busy"]), (⟨"b"⟩, [.success 100 7])]
    Race.run .standard regions script (some 600) = Race.run .standard regions script none ∧
      (Race.run .standard regions script none).IsOverBy 600 ∧
      ¬ (s.execute ⟨none, script, none⟩).1.IsOverBy 599 ∧
      (s.execute ⟨none, script, some 599⟩).1.calls
        = [⟨0, ⟨"a"⟩, 0, 50, .error⟩, ⟨1, ⟨"b"⟩, 500, 599, .cancelled⟩] ∧
      ∀ row ∈ (s.execute ⟨none, script, some 599⟩).2.ledger.rows,
        row.1 = ⟨"a"⟩ → row.2.errors = 1 := by
  intro regions s script
  have hover : (Race.run .standard regions script none).IsOverBy 600 := by decide +kernel
  have hgoes : ¬ (s.execute ⟨none, script, none⟩).1.IsOverBy 599 := by decide +kernel
  obtain ⟨hwhole, -⟩ := (dropping_cuts_off .standard regions s none script 600).1
  obtain ⟨-, hcut⟩ := (dropping_cuts_off .standard regions s none script 599).2
  obtain ⟨strategy, hstrategy, hcut, -, hrows⟩ := hcut hgoes
  obtain rfl : .active .standard = strategy := Except.ok.inj hstrategy
  refine ⟨hwhole hover, hover, hgoes, ?_, ?_⟩
  · rw [hcut.calls]
    decide +kernel
  · intro row hrow hr
    rw [hrows] at hrow
    obtain ⟨row', hrow', rfl⟩ := List.mem_map.1 hrow
    have hzero : ∀ row ∈ s.ledger.rows, row.2.errorCounter = 0 := by decide +kernel
    have hone : Race.failuresBy .standard regions script 599 ⟨"a"⟩ = 1 := by decide +kernel
    show (row'.2.errorCounter
      + .ofNat (Race.failuresBy .standard regions script 599 row'.1)).toNat = 1
    rw [hzero row' hrow', show row'.1 = ⟨"a"⟩ from hr, hone]
    rfl

end Hedging
