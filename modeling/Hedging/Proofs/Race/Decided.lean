import Hedging.Proofs.Race.Alone
import Hedging.Proofs.Race.Winner

/-!
# What decides a race

The entrants and the deadline of a race decide its report.  There is one winner at most
(`Wins.unique`), and somebody wins if anybody has a value in time (`Ending.exists_wins`).  So
the winner decides the report of a race that is won (`Ending.eq_wonReport`), and one in which
all fail in time has one report too (`Ending.eq_failedReport`).

A single attempt is a race of one entrant without its events (`alone_eq_contest`).  So every
operation on at least one region reports what a race of its entrants reports, and keeps
the events if there are two or more of them (`run_eq_contest_heard`).
-/

namespace Hedging

variable {α : Type}

namespace Report

/-- The report without its events. -/
def silent (report : Report α) : Report α := { report with events := [] }

/-- What an operation on the regions lets out of its race: a single region has no events. -/
def heardFrom (regions : List Region) (report : Report α) : Report α :=
  if regions.length = 1 then report.silent else report

variable (regions : List Region) (report : Report α)

@[simp]
theorem verdict_heardFrom : (report.heardFrom regions).verdict = report.verdict := by
  unfold heardFrom
  split <;> rfl

@[simp]
theorem elapsed_heardFrom : (report.heardFrom regions).elapsed = report.elapsed := by
  unfold heardFrom
  split <;> rfl

@[simp]
theorem calls_heardFrom : (report.heardFrom regions).calls = report.calls := by
  unfold heardFrom
  split <;> rfl

end Report

namespace Race

variable {es : List (Entrant α)} {deadline : Option Nat} {report : Report α}

theorem inTime_none (time : Nat) : InTime none time := fun _ h => nomatch h

theorem inTime_some {limit time : Nat} : InTime (some limit) time ↔ time ≤ limit :=
  ⟨fun h => h limit rfl, fun h _ hl => Option.some.inj hl ▸ h⟩

/-! ### The winner -/

theorem Wins.isSome_value? {w : Entrant α} {v : α} {k : Nat} (h : Wins es w v k) :
    w.value?.isSome = true := by
  rw [h.value]
  rfl

/-- **There is one winner at most.** -/
theorem Wins.unique (hes : InOrder es) {w w' : Entrant α} {v v' : α} {k k' : Nat}
    (h : Wins es w v k) (h' : Wins es w' v' k') : w = w' ∧ v = v' ∧ k = k' := by
  have hle := h.least w' h'.mem h'.isSome_value? k' h'.tick
  have hle' := h'.least w h.mem h.isSome_value? k h.tick
  obtain rfl : w = w' := hes.eq_of_index_eq h.mem h'.mem (by omega)
  exact ⟨rfl, Option.some.inj (h.value.symm.trans h'.value),
    Option.some.inj (h.tick.symm.trans h'.tick)⟩

/-- **Somebody wins if anybody has a value in time.** -/
theorem Ending.exists_wins (h : Ending es deadline report) {e : Entrant α} {j : Nat} (he : e ∈ es)
    (hv : e.value?.isSome = true) (hj : e.endTick? = some j) (inTime : InTime deadline (j / 3)) :
    ∃ w v k, Wins es w v k ∧ InTime deadline (k / 3) ∧ report = wonReport es w v k := by
  cases h with
  | won wins inTime => exact ⟨_, _, _, wins, inTime, rfl⟩
  | failed ongoing ended =>
    rw [ongoing.noValue e he (ended e he)] at hv
    cases hv
  | dropped hlimit noValue _ =>
    have hle := inTime _ hlimit
    rw [noValue e he (Entrant.hasEnded_iff.2 ⟨j, hj, by omega⟩)] at hv
    cases hv
  | unfinished ongoing _ _ ended _ =>
    rw [ongoing.noValue e he (Entrant.hasEnded_iff.2 ⟨j, hj, ended e he j hj⟩)] at hv
    cases hv

/-- **Who wins decides the report.** -/
theorem Ending.eq_wonReport (hes : InOrder es) (h : Ending es deadline report) {w : Entrant α}
    {v : α} {k : Nat} (wins : Wins es w v k) (inTime : InTime deadline (k / 3)) :
    report = wonReport es w v k := by
  obtain ⟨w', v', k', wins', -, rfl⟩ :=
    h.exists_wins wins.mem wins.isSome_value? wins.tick inTime
  obtain ⟨rfl, rfl, rfl⟩ := wins.unique hes wins'
  rfl

/-! ### The failure of all -/

/-- An attempt that has ended by some tick has the same record at every later one. -/
theorem record_eq_of_hasEnded {e : Entrant α} {c c' : Nat} (h : e.hasEnded c = true)
    (h' : e.hasEnded c' = true) : e.record c = e.record c' := by
  obtain ⟨k, hk, hkc⟩ := Entrant.hasEnded_iff.1 h
  rw [record_of_endTick? hk hkc, record_of_endTick? hk (Entrant.endTick?_le_of_hasEnded h' hk)]

/-- When all attempts have ended, nothing happens any more. -/
theorem events_eq_of_ended {c c' : Nat} (hle : c ≤ c') (ended : ∀ e ∈ es, e.hasEnded c = true) :
    (List.range (c' + 1)).flatMap (tickEvents es)
      = (List.range (c + 1)).flatMap (tickEvents es) := by
  have hquiet : Quiet es c c' := fun e he =>
    ⟨fun _ => Entrant.hasStarted_iff.1 (Entrant.hasStarted_of_hasEnded (ended e he)),
      fun _ hj _ => Entrant.endTick?_le_of_hasEnded (ended e he) hj⟩
  exact Ordered.flatMap_range_of_nil (Nat.succ_le_succ hle) fun j hcj hj =>
    hquiet.tickEvents_eq_nil hcj (Nat.lt_succ_iff.1 hj)

/-- The report of a race in which all have failed does not depend on the tick at which one looks. -/
theorem failedReport_eq (hne : es ≠ []) {deadline' : Option Nat} {c c' : Nat}
    (h : Ongoing es deadline c) (h' : Ongoing es deadline' c')
    (ended : ∀ e ∈ es, e.hasEnded c = true) (ended' : ∀ e ∈ es, e.hasEnded c' = true) :
    failedReport es c = failedReport es c' := by
  have hclock : c / 3 = c' / 3 :=
    (h.isGreatest_finish hne ended).unique (h'.isGreatest_finish hne ended')
  have hcalls : es.map (·.record c) = es.map (·.record c') :=
    List.map_congr_left fun e he => record_eq_of_hasEnded (ended e he) (ended' e he)
  have hevents : (List.range (c + 1)).flatMap (tickEvents es)
      = (List.range (c' + 1)).flatMap (tickEvents es) := by
    rcases Nat.le_total c c' with hle | hle
    · exact (events_eq_of_ended hle ended).symm
    · exact events_eq_of_ended hle ended'
  rw [failedReport, failedReport, hclock, hcalls, hevents]

/-- **That all have failed in time decides the report.** -/
theorem Ending.eq_failedReport (hne : es ≠ []) (h : Ending es deadline report)
    {deadline' : Option Nat} {c : Nat} (ongoing : Ongoing es deadline' c)
    (ended : ∀ e ∈ es, e.hasEnded c = true) (inTime : InTime deadline (c / 3)) :
    report = failedReport es c := by
  cases h with
  | won wins _ =>
    have hnone := ongoing.noValue _ wins.mem (ended _ wins.mem)
    rw [wins.value] at hnone
    cases hnone
  | failed ongoing' ended' => exact failedReport_eq hne ongoing' ongoing ended' ended
  | dropped hlimit _ unended =>
    obtain ⟨e, he, hnot⟩ := unended
    obtain ⟨k, hk, hkc⟩ := Entrant.hasEnded_iff.1 (ended e he)
    have hle := inTime _ hlimit
    rw [Entrant.hasEnded_iff.2 ⟨k, hk, by omega⟩] at hnot
    cases hnot
  | unfinished _ _ _ _ hangs =>
    obtain ⟨e, he, hnone⟩ := hangs
    obtain ⟨k, hk, -⟩ := Entrant.hasEnded_iff.1 (ended e he)
    rw [(Entrant.finish?_of_endTick? hk).1] at hnone
    cases hnone

/-! ### A single attempt as a race -/

/-- The only entrant of a race. -/
def lone (r : Region) (o : Outcome α) : Entrant α := ⟨0, r, 0, o⟩

theorem inOrder_lone (r : Region) (o : Outcome α) : InOrder [lone r o] :=
  ⟨rfl, List.pairwise_singleton _ _⟩

section
variable {r : Region} {o : Outcome α}

theorem finish?_lone : (lone r o).finish? = o.delay? := by
  unfold Entrant.finish? lone
  cases o.delay? <;> simp

/-- The only attempt has started by every tick after the first, and its record is the only one. -/
theorem map_record_lone {k : Nat} (hk : 1 ≤ k) :
    ([lone r o].filter (·.hasStarted k)).map (·.record k) = [(lone r o).record k] := by
  rw [List.filter_cons_of_pos (Entrant.hasStarted_iff.2 hk)]
  rfl

theorem Ending.lone_won {d : Nat} {v : α} (h : Ending [lone r (.success d v)] deadline report)
    (inTime : InTime deadline d) :
    report.silent = ⟨.won 0 r v, d, [⟨0, r, 0, d, .ok⟩], []⟩ := by
  obtain ⟨j, hj, hjd⟩ := Entrant.exists_endTick? (finish?_lone (r := r) (o := .success d v))
  obtain ⟨w, u, k, wins, -, rfl⟩ := h.exists_wins (List.mem_singleton_self _) rfl hj (hjd ▸ inTime)
  obtain rfl := List.mem_singleton.1 wins.mem
  obtain rfl : v = u := Option.some.inj wins.value
  obtain rfl : j = k := Option.some.inj (hj.symm.trans wins.tick)
  have hstart := Entrant.startTick_lt wins.tick
  have hrecord := map_record_lone (r := r) (o := .success d v) (Nat.le_of_lt hstart)
  rw [Report.silent, wonReport, hrecord, record_of_endTick? wins.tick (Nat.le_refl j), hjd]
  rfl

theorem Ending.lone_failed {d : Nat} {m : String}
    (h : Ending [lone r (.failure d m)] deadline report) (inTime : InTime deadline d) :
    report.silent = ⟨.failed (.allFailed [⟨r, m⟩]), d, [⟨0, r, 0, d, .error⟩], []⟩ := by
  have hlast : (lone (α := α) r (.failure d m)).finish? = some d := finish?_lone
  obtain ⟨j, hj, hjd⟩ := Entrant.exists_endTick? hlast
  cases h with
  | won wins _ =>
    obtain rfl := List.mem_singleton.1 wins.mem
    cases wins.value
  | @failed c ongoing ended =>
    obtain ⟨e, he, hfinish⟩ := (ongoing.isGreatest_finish (List.cons_ne_nil _ _) ended).1
    obtain rfl := List.mem_singleton.1 he
    obtain rfl : d = c / 3 := Option.some.inj (hlast.symm.trans hfinish)
    have hjc := Entrant.endTick?_le_of_hasEnded (ended _ he) hj
    rw [Report.silent, failedReport, List.map_singleton, record_of_endTick? hj hjc, hjd]
    rfl
  | dropped hlimit _ unended =>
    obtain ⟨e, he, hnot⟩ := unended
    obtain rfl := List.mem_singleton.1 he
    have hle := inTime _ hlimit
    rw [Entrant.hasEnded_iff.2 ⟨j, hj, by omega⟩] at hnot
    cases hnot
  | unfinished _ _ _ _ hangs =>
    obtain ⟨e, he, hnone⟩ := hangs
    obtain rfl := List.mem_singleton.1 he
    cases hlast.symm.trans hnone

/-- An attempt that ends too late has not ended by the deadline. -/
theorem hasEnded_lone_of_late {c : Nat} (late : ∀ d, o.delay? = some d → c / 3 < d) :
    (lone r o).hasEnded c = false := by
  refine hasEnded_eq_false_of_lt fun j hj => ?_
  have hlt := late (j / 3) (finish?_lone.symm.trans (Entrant.finish?_of_endTick? hj).1)
  omega

theorem Ending.lone_dropped {limit : Nat} (h : Ending [lone r o] (some limit) report)
    (late : ∀ d, o.delay? = some d → limit < d) :
    report.silent = ⟨.dropped, limit, [⟨0, r, 0, limit, .cancelled⟩], []⟩ := by
  have hunended : ∀ c, c / 3 ≤ limit → (lone r o).hasEnded c = false := fun c hc =>
    hasEnded_lone_of_late fun d hd => Nat.lt_of_le_of_lt hc (late d hd)
  cases h with
  | won wins inTime =>
    obtain rfl := List.mem_singleton.1 wins.mem
    have hended := Entrant.hasEnded_iff.2 ⟨_, wins.tick, Nat.le_refl _⟩
    rw [hunended _ (inTime_some.1 inTime)] at hended
    cases hended
  | failed ongoing ended =>
    have hended := ended _ (List.mem_singleton_self _)
    rw [hunended _ (inTime_some.1 ongoing.inTime)] at hended
    cases hended
  | dropped hlimit _ _ =>
    obtain rfl := Option.some.inj hlimit
    have hrecord := map_record_lone (r := r) (o := o) (k := 3 * limit + 2) (by omega)
    have hdiv : (3 * limit + 2) / 3 = limit := by omega
    rw [Report.silent, droppedReport, hrecord, Entrant.record, hunended _ (by omega), hdiv]
    rfl
  | unfinished _ noLimit _ _ _ => cases noLimit

theorem Ending.lone_unfinished (h : Ending [lone r .hang] none report) :
    report.silent = (⟨.unfinished, 0, [], []⟩ : Report α) := by
  have hunended : ∀ c, (lone (α := α) r .hang).hasEnded c = false := fun c =>
    hasEnded_lone_of_late fun d hd => nomatch hd
  cases h with
  | won wins _ =>
    obtain rfl := List.mem_singleton.1 wins.mem
    cases wins.value
  | failed ongoing ended =>
    have hended := ended _ (List.mem_singleton_self _)
    rw [hunended] at hended
    cases hended
  | dropped hlimit _ _ => cases hlimit
  | @unfinished c ongoing _ _ _ _ =>
    have hclock : c / 3 = 0 := by
      rcases ongoing.reached with hzero | ⟨e, he, hstart | hend⟩
      · exact hzero
      · obtain rfl := List.mem_singleton.1 he
        exact hstart.symm
      · obtain rfl := List.mem_singleton.1 he
        cases finish?_lone.symm.trans hend
    have hnone : [lone r .hang].filter (·.hasEnded c) = ([] : List (Entrant α)) := by
      rw [List.filter_cons_of_neg (by simp [hunended]), List.filter_nil]
    rw [Report.silent, unfinishedReport, hnone, hclock]
    rfl

/-- **A single attempt is a race of one entrant without its events.** -/
theorem alone_eq_contest (deadline : Option Nat) (r : Region) (o : Outcome α) :
    alone deadline r o = (contest deadline [lone r o]).silent := by
  have hrace := contest_ending (inOrder_lone r o) deadline
  have hsingle := alone_ending deadline r o
  generalize alone deadline r o = report at hsingle ⊢
  cases hsingle with
  | won ho inTime =>
    subst ho
    exact (hrace.lone_won inTime).symm
  | failed ho inTime =>
    subst ho
    exact (hrace.lone_failed inTime).symm
  | dropped hlimit late =>
    subst hlimit
    exact (hrace.lone_dropped late).symm
  | unfinished noLimit ho =>
    subst noLimit ho
    exact hrace.lone_unfinished.symm

end

/-! ### Operations as races -/

section
variable {t : Thresholds} {regions : List Region} {script : Script α}

theorem lineup_singleton (r : Region) : lineup t [r] script = [lone r (script r 0)] := by
  have hrange : List.finRange [r].length = [(0 : Fin 1)] := rfl
  rw [lineup_eq, hrange, List.map_singleton, entrantAt, dueAt_singleton, played_singleton]
  rfl

/-- **Every operation on some regions is a race of its entrants**, apart from its events. -/
theorem run_eq_contest_heard (h : regions ≠ []) (deadline : Option Nat) :
    run t regions script deadline
      = (contest deadline (lineup t regions script)).heardFrom regions := by
  rcases regions with - | ⟨r, - | ⟨r', rs⟩⟩
  · exact absurd rfl h
  · rw [Report.heardFrom, if_pos List.length_singleton, lineup_singleton]
    exact alone_eq_contest deadline r (script r 0)
  · rw [Report.heardFrom, if_neg (by simp)]
    rfl

/-- A victory of an operation is a victory in the race of its entrants. -/
theorem exists_wins_of_run {index : Nat} {region : Region} {v : α}
    (h : (run t regions script deadline).verdict = .won index region v) :
    ∃ w k, Wins (lineup t regions script) w v k ∧ InTime deadline (k / 3) ∧ w.index = index ∧
      w.region = region ∧
      run t regions script deadline
        = (wonReport (lineup t regions script) w v k).heardFrom regions := by
  have hne : regions ≠ [] := fun hnil => by
    subst hnil
    cases h
  have hrace := contest_ending (lineup_inOrder t regions script) deadline
  rw [run_eq_contest_heard hne] at h ⊢
  rw [Report.verdict_heardFrom] at h
  generalize contest deadline (lineup t regions script) = report at hrace h ⊢
  cases hrace with
  | won wins inTime =>
    cases h
    exact ⟨_, _, wins, inTime, rfl, rfl, rfl⟩
  | failed _ _ => cases h
  | dropped _ _ _ => cases h
  | unfinished _ _ _ _ _ => cases h

/-- A victory in the race of its entrants decides the report of an operation. -/
theorem run_eq_of_wins {w : Entrant α} {v : α} {k : Nat} (h : Wins (lineup t regions script) w v k)
    (inTime : InTime deadline (k / 3)) :
    run t regions script deadline
      = (wonReport (lineup t regions script) w v k).heardFrom regions := by
  have hne : regions ≠ [] := fun hnil => by
    subst hnil
    exact absurd h.mem List.not_mem_nil
  have hes := lineup_inOrder t regions script
  rw [run_eq_contest_heard hne, (contest_ending hes deadline).eq_wonReport hes h inTime]

/-- **The least attempt that succeeds wins the operation**, on one region or on more. -/
theorem run_of_least {i : Fin regions.length} {f : Nat} {v : α}
    (h : SucceedsAt t regions script i f v)
    (least : ∀ j g u, SucceedsAt t regions script j g u → toLex (f, i) ≤ toLex (g, j)) :
    (run t regions script none).verdict = .won i (regions.get i) v ∧
      (run t regions script none).elapsed = f := by
  have hne : regions ≠ [] := List.ne_nil_of_length_pos i.pos
  obtain ⟨hv, hf⟩ := succeedsAt_iff.1 h
  rw [← finish?_entrantAt] at hf
  obtain ⟨j, hj, -⟩ := Entrant.exists_endTick? hf
  have hmem := (mem_lineup t regions script).2 ⟨i, rfl⟩
  obtain ⟨w, u, k, wins, -, hreport⟩ :=
    (contest_ending (lineup_inOrder t regions script) none).exists_wins hmem
      (Option.isSome_of_eq_some hv) hj (inTime_none _)
  obtain ⟨i', rfl, hs, hleast⟩ := wins.least_success
  -- Both are the least of all that succeed.
  have hle := Prod.Lex.toLex_le_toLex.1 (least i' _ u hs)
  have hle' := Prod.Lex.toLex_le_toLex.1 (hleast i f v h)
  simp only [Fin.le_def] at hle hle'
  obtain rfl : f = k / 3 := by omega
  obtain rfl : i = i' := Fin.ext (by omega)
  rw [run_eq_contest_heard hne, hreport, Report.verdict_heardFrom, Report.elapsed_heardFrom,
    Option.some.inj (hv.symm.trans wins.value)]
  exact ⟨rfl, rfl⟩

end
end Race
end Hedging
