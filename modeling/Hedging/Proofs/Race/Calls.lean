import Hedging.Proofs.Race.Attempts

/-!
# The calls of a race

Which attempts a race makes, when, and how each of them ends.  If it is won, those are
made that are due before the victory, and those due at its instant if the winner itself
started then (`launched`); they stand in front of all others.  Each is made once, when
it is due, and ends by itself by the instant of the victory or is given up then
(`callAt`).  If everybody fails, every attempt is made and ends by itself
(`calls_of_race`).
-/

namespace Hedging

/-- Whether an event is the start of an attempt. -/
def Event.isStart : Event → Bool
  | started .. => true
  | _ => false

/-- How a call ends whose attempt ends by itself. -/
def Outcome.ending {α : Type} : Outcome α → Ending
  | success .. => .ok
  | _ => .error

namespace Race

variable {α : Type}

/-! ### The starts among the events -/

section
variable {es : List (Entrant α)}

theorem filter_isStart_failEvents (l : List (Entrant α)) (k : Nat) :
    (l.filterMap (·.failEvent? k)).filter (·.2.isStart) = [] := by
  refine List.filter_eq_nil_iff.2 fun x hx => ?_
  obtain ⟨e, -, he⟩ := List.mem_filterMap.1 hx
  obtain ⟨m, -, rfl⟩ := Option.map_eq_some_iff.1 he
  exact Bool.false_ne_true

theorem filter_isStart_tickEvents (es : List (Entrant α)) (k : Nat) :
    (tickEvents es k).filter (·.2.isStart) = (es.filter (·.startTick = k)).map (·.startEvent) := by
  have hall : ((es.filter (·.startTick = k)).map (·.startEvent)).filter (·.2.isStart)
      = (es.filter (·.startTick = k)).map (·.startEvent) := by
    refine List.filter_eq_self.2 fun x hx => ?_
    obtain ⟨e, -, rfl⟩ := List.mem_map.1 hx
    rfl
  rw [tickEvents, List.filter_append, hall, filter_isStart_failEvents, List.append_nil]

/-- The starts before a tick come in the order of the entrants. -/
theorem filter_isStart_events (hes : InOrder es) (k : Nat) :
    ((List.range k).flatMap (tickEvents es)).filter (·.2.isStart)
      = (es.filter (·.startTick < k)).map (·.startEvent) := by
  have hsorted : es.Pairwise (·.startTick ≤ ·.startTick) :=
    hes.sorted.imp fun {a b} hab => by
      simp only [Entrant.startTick]
      omega
  simp only [List.filter_flatMap, filter_isStart_tickEvents]
  rw [← List.map_flatMap, Ordered.flatMap_range_filter hsorted]

end

/-! ### The attempts that are made -/

section
variable (t : Thresholds) (regions : List Region) (script : Script α)

/-- The places whose attempts are made in an operation that `w` wins at instant `f`. -/
def launched (w : Fin regions.length) (f : Nat) : List (Fin regions.length) :=
  (List.finRange regions.length).filter fun i =>
    dueAt t regions i < f ∨ dueAt t regions i = f ∧ dueAt t regions w = f

/-- The start of the attempt at a place. -/
def startAt (i : Fin regions.length) : Nat × Event :=
  (dueAt t regions i, .started (regions.get i) i (dueAt t regions i))

/-- The call of the attempt at a place in an operation that is over at an instant. -/
def callAt (time : Nat) (i : Fin regions.length) : Call :=
  match (finishAt? t regions script i).filter (· ≤ time) with
  | some f => ⟨i, regions.get i, dueAt t regions i, f, (played regions script i).ending⟩
  | none => ⟨i, regions.get i, dueAt t regions i, time, .cancelled⟩

/-- **The attempts that are made stand in front of all others.** -/
theorem launched_prefix (w : Fin regions.length) (f : Nat) :
    launched t regions w f <+: List.finRange regions.length := by
  rw [launched, ← Ordered.takeWhile_eq_filter]
  · exact List.takeWhile_prefix _
  · refine (List.pairwise_lt_finRange _).imp fun {i j} hij hj => ?_
    have hle := dueAt_mono t regions (Fin.le_of_lt hij)
    simp only [decide_eq_true_eq] at hj ⊢
    omega

variable {t regions script}

/-- The record of an attempt that ends by itself. -/
theorem record_of_hasEnded {c f : Nat} {i : Fin regions.length}
    (ended : (entrantAt t regions script i).hasEnded c = true)
    (hf : finishAt? t regions script i = some f) :
    (entrantAt t regions script i).record c
      = ⟨i, regions.get i, dueAt t regions i, f, (played regions script i).ending⟩ := by
  rw [Entrant.record, if_pos ended, finish?_entrantAt, hf, Option.getD_some]
  rfl

/-- An attempt that was made by the end of an instant ends by itself by then, or is given up. -/
theorem record_eq_callAt {c : Nat} {i : Fin regions.length} (hc : c % 3 ≠ 1)
    (hs : (entrantAt t regions script i).hasStarted c = true) :
    (entrantAt t regions script i).record c = callAt t regions script (c / 3) i := by
  have hended := Entrant.hasEnded_iff_of_hasStarted hc hs
  rw [finish?_entrantAt] at hended
  unfold callAt
  split
  · rename_i f hf
    obtain ⟨hf, hle⟩ := Option.filter_eq_some_iff.1 hf
    exact record_of_hasEnded (hended.2 ⟨f, hf, of_decide_eq_true hle⟩) hf
  · rename_i hnone
    have hnot : ¬ (entrantAt t regions script i).hasEnded c = true := fun he => by
      obtain ⟨f, hf, hle⟩ := hended.1 he
      exact absurd hle (by simpa using Option.filter_eq_none_iff.1 hnone f hf)
    rw [Entrant.record, if_neg hnot]
    rfl

/-- In instants: those that have started when `w` wins. -/
theorem hasStarted_eq_launched {k : Nat} {w : Fin regions.length}
    (hw : (entrantAt t regions script w).endTick? = some k) (i : Fin regions.length) :
    (entrantAt t regions script i).hasStarted k = decide (dueAt t regions i < k / 3 ∨
      dueAt t regions i = k / 3 ∧ dueAt t regions w = k / 3) := by
  rw [Bool.eq_iff_iff, decide_eq_true_iff]
  exact Entrant.hasStarted_iff_of_winner hw

theorem calls_wonReport {w : Fin regions.length} {v : α} {k : Nat}
    (hw : (entrantAt t regions script w).endTick? = some k) :
    (wonReport (lineup t regions script) (entrantAt t regions script w) v k).calls
      = (launched t regions w (k / 3)).map (callAt t regions script (k / 3)) := by
  refine map_filter_lineup t regions script (hasStarted_eq_launched hw) fun i hi => ?_
  rw [← hasStarted_eq_launched hw] at hi
  exact record_eq_callAt (Entrant.finish?_of_endTick? hw).2 hi

/-- Nobody starts after the victory, which is the last event. -/
theorem events_wonReport {w : Fin regions.length} {v : α} {k : Nat}
    (hw : (entrantAt t regions script w).endTick? = some k) :
    ∃ before,
      (wonReport (lineup t regions script) (entrantAt t regions script w) v k).events
        = before ++ [(k / 3, winEvent (lineup t regions script) (entrantAt t regions script w) k)] ∧
      before.filter (·.2.isStart) = (launched t regions w (k / 3)).map (startAt t regions) := by
  refine ⟨_, rfl, ?_⟩
  rw [List.filter_append, filter_isStart_failEvents, List.append_nil,
    filter_isStart_events (lineup_inOrder t regions script)]
  refine map_filter_lineup t regions script (fun i => ?_) fun i _ => rfl
  rw [← hasStarted_eq_launched hw, Entrant.hasStarted, decide_eq_decide]
  -- An attempt starts at a tick of another kind than that at which one ends.
  have hmod := (Entrant.finish?_of_endTick? hw).2
  simp only [Entrant.startTick]
  omega

/-- When all attempts have ended without a value, each of them fails after its own delay and with
its own error. -/
theorem exists_failures {c : Nat} (ended : ∀ e ∈ lineup t regions script, e.hasEnded c = true)
    (noValue : ∀ e ∈ lineup t regions script, e.hasEnded c = true → e.value? = none) :
    ∃ (d : Fin regions.length → Nat) (m : Fin regions.length → String),
      ∀ i, played regions script i = .failure (d i) (m i) := by
  have hfailure : ∀ i, ∃ d m, played regions script i = .failure d m := by
    intro i
    have hmem := (mem_lineup t regions script).2 ⟨i, rfl⟩
    have hnone := noValue _ hmem (ended _ hmem)
    obtain ⟨k, hk, -⟩ := Entrant.hasEnded_iff.1 (ended _ hmem)
    have hfinish := (Entrant.finish?_of_endTick? hk).1
    unfold Entrant.value? entrantAt at hnone
    unfold Entrant.finish? entrantAt at hfinish
    cases ho : played regions script i with
    | success d v => simp [ho] at hnone
    | failure d m => exact ⟨d, m, rfl⟩
    | hang => simp [ho, Outcome.delay?] at hfinish
  choose d m hdm using hfailure
  exact ⟨d, m, hdm⟩

/-- When everybody has failed, every attempt was made and ended by itself. -/
theorem calls_failedReport {c : Nat}
    (ended : ∀ e ∈ lineup t regions script, e.hasEnded c = true)
    {d : Fin regions.length → Nat} {m : Fin regions.length → String}
    (failing : ∀ i, played regions script i = .failure (d i) (m i)) :
    (failedReport (lineup t regions script) c).calls = (List.finRange regions.length).map
      fun i => ⟨i, regions.get i, dueAt t regions i, dueAt t regions i + d i, .error⟩ := by
  rw [failedReport, lineup_eq, List.map_map]
  refine List.map_congr_left fun i _ => ?_
  have hended := ended _ ((mem_lineup t regions script).2 ⟨i, rfl⟩)
  rw [Function.comp_apply, record_of_hasEnded hended (finishAt?_of_failure (failing i)), failing i]
  rfl

theorem starts_failedReport {c : Nat}
    (ended : ∀ e ∈ lineup t regions script, e.hasEnded c = true) :
    (failedReport (lineup t regions script) c).events.filter (·.2.isStart)
      = (List.finRange regions.length).map (startAt t regions) := by
  have hstarted : (lineup t regions script).filter (·.startTick < c + 1)
      = lineup t regions script :=
    List.filter_eq_self.2 fun e he =>
      decide_eq_true (Nat.lt_succ_iff.2 (Entrant.hasStarted_iff.1
        (Entrant.hasStarted_of_hasEnded (ended e he))))
  rw [failedReport, List.filter_append, filter_isStart_events (lineup_inOrder t regions script),
    hstarted, lineup_eq, List.map_map]
  exact List.append_nil _

end

/-- **Each attempt that is due before the victory, or at its instant with the winner, is made
once, when it is due, and ends by itself or at the victory; no other is made.**  When everybody
fails, every attempt is made when it is due and ends by itself. -/
theorem calls_of_race (t : Thresholds) (regions : List Region) (script : Script α)
    (deadline : Option Nat) (h : 2 ≤ regions.length) :
    let r := run t regions script deadline
    (∀ index region v, r.verdict = .won index region v →
      ∃ w : Fin regions.length, w = index ∧ finishAt? t regions script w = some r.elapsed ∧
        launched t regions w r.elapsed <+: List.finRange regions.length ∧
        r.calls = (launched t regions w r.elapsed).map (callAt t regions script r.elapsed) ∧
        ∃ before win, r.events = before ++ [(r.elapsed, win)] ∧
          ((∃ m, win = .primaryWon (regions.get w) m) ∨
            ∃ m d, win = .hedgeWon (regions.get w) w m d) ∧
          before.filter (·.2.isStart)
            = (launched t regions w r.elapsed).map (startAt t regions)) ∧
    (∀ fs, r.verdict = .failed (.allFailed fs) →
      ∃ ends : Fin regions.length → Nat,
        (∀ i, finishAt? t regions script i = some (ends i)) ∧
        r.calls = (List.finRange regions.length).map
          (fun i => ⟨i, regions.get i, dueAt t regions i, ends i, .error⟩) ∧
        r.events.filter (·.2.isStart)
          = (List.finRange regions.length).map (startAt t regions)) := by
  intro r
  have hending : Ending (lineup t regions script) deadline r :=
    run_ending t regions script h deadline
  clear_value r
  cases hending with
  | @won e v k wins inTime =>
    constructor
    · rintro _ _ _ ⟨⟩
      obtain ⟨w, rfl, -⟩ := wins.exists_succeedsAt
      obtain ⟨before, hevents, hstarts⟩ := events_wonReport (v := v) wins.tick
      refine ⟨w, rfl, (Entrant.finish?_of_endTick? wins.tick).1, launched_prefix t regions w _,
        calls_wonReport wins.tick, before, _, hevents, ?_, hstarts⟩
      unfold winEvent
      split
      · exact .inl ⟨_, rfl⟩
      · exact .inr ⟨_, _, rfl⟩
    · intro fs hfs
      cases hfs
  | failed ongoing ended =>
    constructor
    · intro index region v hv
      cases hv
    · intro fs hfs
      obtain ⟨d, m, failing⟩ := exists_failures ended ongoing.noValue
      exact ⟨fun i => dueAt t regions i + d i, fun i => finishAt?_of_failure (failing i),
        calls_failedReport ended failing, starts_failedReport ended⟩
  | dropped _ _ _ =>
    constructor
    · intro index region v hv
      cases hv
    · intro fs hfs
      cases hfs
  | unfinished _ _ _ _ _ =>
    constructor
    · intro index region v hv
      cases hv
    · intro fs hfs
      cases hfs

/-- The second attempt wins at the instant at which the third is due, or everybody fails. -/
theorem calls_of_race_of_three :
    let regions : List Region := [⟨"a"⟩, ⟨"b"⟩, ⟨"c"⟩]
    let script : Script Nat :=
      .ofTable [(⟨"a"⟩, [.failure 50 "busy"]), (⟨"b"⟩, [.success 100 7])]
    let failing : Script Nat := .ofTable [(⟨"a"⟩, [.failure 900 "busy"])]
    (run .standard regions script none).calls
        = (launched .standard regions 1 600).map (callAt .standard regions script 600) ∧
      ∃ ends : Fin 3 → Nat, (∀ i, finishAt? .standard regions failing i = some (ends i)) ∧
        (run .standard regions failing none).calls = (List.finRange 3).map
          fun i => ⟨i, regions.get i, dueAt .standard regions i, ends i, .error⟩ := by
  intro regions script failing
  obtain ⟨w, hw, -, -, hcalls, -⟩ :=
    (calls_of_race .standard regions script none (by decide)).1 1 ⟨"b"⟩ 7 (by decide +kernel)
  obtain rfl : w = 1 := Fin.ext hw
  obtain ⟨ends, hends, hfailed, -⟩ :=
    (calls_of_race .standard regions failing none (by decide)).2
      [⟨⟨"a"⟩, "busy"⟩, ⟨⟨"b"⟩, "unscripted"⟩, ⟨⟨"c"⟩, "unscripted"⟩] (by decide +kernel)
  have helapsed : (run .standard regions script none).elapsed = 600 := by decide +kernel
  rw [helapsed] at hcalls
  exact ⟨hcalls, ends, hends, hfailed⟩

end Race
end Hedging
