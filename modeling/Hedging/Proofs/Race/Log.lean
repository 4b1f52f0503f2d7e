import Hedging.Proofs.Race.Errors
import Hedging.Proofs.Race.Winner

/-!
# What a race logs

A race that is over has logged a start for each call, a failure for each attempt that
failed before the victory, and one last event (`Logged`, `log_of_race`).  An instant has
three stages: the failures of attempts that were in flight, the starts, and the failures of
attempts without delay.  These are the three ticks (`stage_of_mem_tickEvents`), so a log that
is written tick by tick is in the order of instants and stages (`pairwise_stage`), and its
failures are in the order of instants and places (`pairwise_failures`).
-/

namespace Hedging

/-- The start of a call, as it is logged. -/
def Call.startEvent (c : Call) : Nat × Event := (c.start, .started c.region c.index c.start)

namespace Event

/-- Whether an event is the failure of an attempt. -/
def isFailure : Event → Bool
  | failed .. => true
  | _ => false

/-- The place of the attempt that an event is about. -/
def attempt : Event → Nat
  | started _ i _ => i
  | failed _ i _ => i
  | hedgeWon _ i _ _ => i
  | _ => 0

/-- The stage of its instant at which an event comes, if the attempt at place `i` starts at
`due i`: failures of attempts already in flight, starts, failures of attempts that have just
started, the end. -/
def stage (due : Nat → Nat) : Nat × Event → Nat
  | (time, failed _ i _) => if due i < time then 0 else 2
  | (_, started ..) => 1
  | _ => 3

/-- One event comes no later than another, by instants and within an instant by stages. -/
def NotAfter (due : Nat → Nat) (x y : Nat × Event) : Prop :=
  toLex (x.1, stage due x) ≤ toLex (y.1, stage due y)

/-- One event comes before another, by instants and within an instant by places. -/
def Before (x y : Nat × Event) : Prop := toLex (x.1, x.2.attempt) < toLex (y.1, y.2.attempt)

theorem isStart_eq_message (e : Event) :
    e.isStart = decide (e.message = "starting regional attempt") := by
  cases e <;> simp [isStart, message]

theorem isFailure_eq_message (e : Event) :
    e.isFailure = decide (e.message = "regional attempt failed") := by
  cases e <;> simp [isFailure, message]

end Event

namespace Race

variable {α : Type} {es : List (Entrant α)} {due : Nat → Nat} {k : Nat}

/-! ### The events of a tick -/

theorem mem_tickEvents {x : Nat × Event} :
    x ∈ tickEvents es k ↔ (∃ e ∈ es, e.startTick = k ∧ e.startEvent = x) ∨
      ∃ e ∈ es, e.endTick? = some k ∧
        ∃ m, e.error? = some m ∧ (k / 3, .failed e.region e.index m) = x := by
  simp only [tickEvents, List.mem_append, List.mem_map, List.mem_filter, List.mem_filterMap,
    decide_eq_true_eq, Entrant.endsAt_iff, Entrant.failEvent?, Option.map_eq_some_iff, and_assoc]

/-- **The ticks of an instant are its stages.** -/
theorem stage_of_mem_tickEvents (hdue : ∀ e ∈ es, due e.index = e.start) {x : Nat × Event}
    (h : x ∈ tickEvents es k) : Event.stage due x = k % 3 := by
  rcases mem_tickEvents.1 h with ⟨e, -, hk, rfl⟩ | ⟨e, he, hk, m, -, rfl⟩
  · have hstage : Event.stage due e.startEvent = 1 := rfl
    rw [hstage, ← hk, Entrant.startTick]
    omega
  · obtain ⟨d, -, hd⟩ := Entrant.endTick?_eq_some_iff.1 hk
    have hstage : Event.stage due (k / 3, .failed e.region e.index m)
        = if due e.index < k / 3 then 0 else 2 := rfl
    rw [hstage, hdue e he]
    split at hd <;> split <;> omega

/-- Ticks that follow each other come in the order of instants and stages. -/
theorem notAfter_of_mem_tickEvents (hdue : ∀ e ∈ es, due e.index = e.start) {j : Nat}
    (hjk : j ≤ k) {x y : Nat × Event} (hx : x ∈ tickEvents es j) (hy : y ∈ tickEvents es k) :
    Event.NotAfter due x y := by
  rw [Event.NotAfter, Prod.Lex.toLex_le_toLex, time_of_mem_tickEvents hx,
    time_of_mem_tickEvents hy, stage_of_mem_tickEvents hdue hx, stage_of_mem_tickEvents hdue hy]
  show j / 3 < k / 3 ∨ j / 3 = k / 3 ∧ j % 3 ≤ k % 3
  omega

/-- **A log that is written tick by tick is in the order of instants and stages.** -/
theorem pairwise_stage (hdue : ∀ e ∈ es, due e.index = e.start) (n : Nat) :
    ((List.range n).flatMap (tickEvents es)).Pairwise (Event.NotAfter due) := by
  refine List.pairwise_flatMap.2
    ⟨fun j _ => ?_, List.pairwise_lt_range.imp fun hjk x hx y hy => ?_⟩
  · exact List.pairwise_of_forall_mem_list fun x hx y hy =>
      notAfter_of_mem_tickEvents hdue (Nat.le_refl j) hx hy
  · exact notAfter_of_mem_tickEvents hdue (Nat.le_of_lt hjk) hx hy

/-! ### Failures -/

/-- At one instant the earlier of two ends is that of the attempt in front. -/
theorem InOrder.index_lt_of_endTick?_lt (hes : InOrder es) {e e' : Entrant α} {j : Nat}
    (he : e ∈ es) (he' : e' ∈ es) (hj : e.endTick? = some j) (hk : e'.endTick? = some k)
    (hlt : j < k) (hinstant : j / 3 = k / 3) : e.index < e'.index := by
  refine Nat.not_le.1 fun hle => ?_
  have hstart : e'.start ≤ e.start := by
    rcases Nat.lt_or_eq_of_le hle with hidx | hidx
    · exact hes.start_le_of_index_lt he' he hidx
    · rw [hes.eq_of_index_eq he' he hidx]
  have hs := Entrant.startTick_lt hj
  have hmod := (Entrant.finish?_of_endTick? hj).2
  obtain ⟨d, -, hd⟩ := Entrant.endTick?_eq_some_iff.1 hk
  simp only [Entrant.startTick] at hs
  split at hd <;> omega

/-- **The order of ends by ticks and places is that by instants and places.** -/
theorem InOrder.toLex_finish_lt_iff (hes : InOrder es) {e e' : Entrant α} {j : Nat} (he : e ∈ es)
    (he' : e' ∈ es) (hj : e.endTick? = some j) (hk : e'.endTick? = some k) :
    toLex (j / 3, e.index) < toLex (k / 3, e'.index) ↔ j < k ∨ j = k ∧ e.index < e'.index := by
  have hforth := hes.index_lt_of_endTick?_lt he he' hj hk
  have hback := hes.index_lt_of_endTick?_lt he' he hk hj
  rw [Prod.Lex.toLex_lt_toLex]
  show j / 3 < k / 3 ∨ j / 3 = k / 3 ∧ e.index < e'.index ↔ _
  omega

theorem filter_isFailure_tickEvents (es : List (Entrant α)) (k : Nat) :
    (tickEvents es k).filter (·.2.isFailure)
      = (es.filter (·.endsAt k)).filterMap (·.failEvent? k) := by
  have hstarts : ((es.filter (·.startTick = k)).map (·.startEvent)).filter (·.2.isFailure)
      = [] := by
    refine List.filter_eq_nil_iff.2 fun x hx => ?_
    obtain ⟨e, -, rfl⟩ := List.mem_map.1 hx
    exact Bool.false_ne_true
  have hfailures : ((es.filter (·.endsAt k)).filterMap (·.failEvent? k)).filter (·.2.isFailure)
      = (es.filter (·.endsAt k)).filterMap (·.failEvent? k) := by
    refine List.filter_eq_self.2 fun x hx => ?_
    obtain ⟨e, -, he⟩ := List.mem_filterMap.1 hx
    obtain ⟨m, -, rfl⟩ := Option.map_eq_some_iff.1 he
    rfl
  rw [tickEvents, List.filter_append, hstarts, hfailures, List.nil_append]

theorem mem_failures_tick {x : Nat × Event} :
    x ∈ (es.filter (·.endsAt k)).filterMap (·.failEvent? k) ↔
      ∃ e ∈ es, e.endTick? = some k ∧
        ∃ m, e.error? = some m ∧ (k / 3, .failed e.region e.index m) = x := by
  simp only [List.mem_filterMap, List.mem_filter, Entrant.endsAt_iff, Entrant.failEvent?,
    Option.map_eq_some_iff, and_assoc]

/-- **Failures are logged in the order of their instants, and at one instant in that of their
places.** -/
theorem pairwise_failures (hes : InOrder es) (n : Nat) :
    (((List.range n).flatMap (tickEvents es)).filter (·.2.isFailure)).Pairwise Event.Before := by
  simp only [List.filter_flatMap, filter_isFailure_tickEvents]
  refine List.pairwise_flatMap.2
    ⟨fun j _ => ?_, List.pairwise_lt_range.imp fun {j k} hjk x hx y hy => ?_⟩
  · have hsorted : (es.filter (·.endsAt j)).Pairwise (·.index < ·.index) :=
      hes.pairwise_index.filter _
    refine List.pairwise_filterMap.2 (hsorted.imp fun {e e'} hi x hx y hy => ?_)
    obtain ⟨m, -, rfl⟩ := Option.map_eq_some_iff.1 hx
    obtain ⟨m', -, rfl⟩ := Option.map_eq_some_iff.1 hy
    exact Prod.Lex.toLex_lt_toLex.2 (.inr ⟨rfl, hi⟩)
  · obtain ⟨e, he, hj, m, -, rfl⟩ := mem_failures_tick.1 hx
    obtain ⟨e', he', hk, m', -, rfl⟩ := mem_failures_tick.1 hy
    exact (hes.toLex_finish_lt_iff he he' hj hk).2 (.inl hjk)

/-- Who fails with the batch of the victory, but in front of the winner. -/
theorem Wins.mem_failedAt (hes : InOrder es) {w e : Entrant α} {v : α} (h : Wins es w v k) :
    e ∈ failedAt es k ↔ e ∈ es ∧ e.endTick? = some k ∧ e.index < w.index := by
  have hw : w ∈ es.filter (·.endsAt k) := List.mem_filter.2 ⟨h.mem, Entrant.endsAt_iff.2 h.tick⟩
  have hmem : ∀ a, a ∈ es.filter (·.endsAt k) ↔ a ∈ es ∧ a.endTick? = some k := fun a => by
    rw [List.mem_filter, Entrant.endsAt_iff]
  have hsorted : (es.filter (·.endsAt k)).Pairwise (·.index < ·.index) :=
    hes.pairwise_index.filter _
  obtain ⟨front, rest, hbatch⟩ := List.append_of_mem hw
  rw [hbatch, List.pairwise_append] at hsorted
  have hfront : ∀ a ∈ front, a.index < w.index := fun a ha =>
    hsorted.2.2 a ha w List.mem_cons_self
  have hvalue : ∀ a ∈ front, a.value?.isNone = true := fun a ha => by
    obtain ⟨hes', hk⟩ := (hmem a).1 (by simp [hbatch, ha])
    refine (Bool.not_eq_false _).mp fun hv => ?_
    have hsome : a.value?.isSome = true := by rw [← Option.not_isNone, hv]; rfl
    have hleast := h.least a hes' hsome k hk
    have hlt := hfront a ha
    omega
  have hcut : failedAt es k = front := by
    rw [failedAt, hbatch, List.takeWhile_append_of_pos hvalue,
      List.takeWhile_cons_of_neg (by simp [h.value]), List.append_nil]
  rw [hcut]
  constructor
  · intro he
    obtain ⟨hes', hk⟩ := (hmem e).1 (by simp [hbatch, he])
    exact ⟨hes', hk, hfront e he⟩
  · rintro ⟨hes', hk, hlt⟩
    have hbatch' := (hmem e).2 ⟨hes', hk⟩
    rw [hbatch] at hbatch'
    rcases List.mem_append.1 hbatch' with hin | hin
    · exact hin
    · rcases List.mem_cons.1 hin with rfl | hin
      · exact absurd hlt (Nat.lt_irrefl _)
      · have hgt := (List.pairwise_cons.1 hsorted.2.1).1 e hin
        omega

/-- A failure among the events of some ticks. -/
theorem mem_failures_range {n : Nat} {x : Nat × Event} :
    x ∈ ((List.range n).flatMap (tickEvents es)).filter (·.2.isFailure) ↔
      ∃ e ∈ es, ∃ j m, e.endTick? = some j ∧ e.error? = some m ∧ j < n ∧
        (j / 3, .failed e.region e.index m) = x := by
  simp only [List.filter_flatMap, filter_isFailure_tickEvents, List.mem_flatMap, List.mem_range,
    mem_failures_tick]
  constructor
  · rintro ⟨j, hjn, e, he, hj, m, hm, rfl⟩
    exact ⟨e, he, j, m, hj, hm, hjn, rfl⟩
  · rintro ⟨e, he, j, m, hj, hm, hjn, rfl⟩
    exact ⟨j, hjn, e, he, hj, m, hm, rfl⟩

/-! ### Before the victory -/

/-- What is logged before the victory in the batch of a tick. -/
def eventsBefore (es : List (Entrant α)) (k : Nat) : List (Nat × Event) :=
  (List.range k).flatMap (tickEvents es) ++ (failedAt es k).filterMap (·.failEvent? k)

theorem eventsBefore_sublist (es : List (Entrant α)) (k : Nat) :
    (eventsBefore es k).Sublist ((List.range (k + 1)).flatMap (tickEvents es)) := by
  have hfailed : (failedAt es k).Sublist (es.filter (·.endsAt k)) := List.takeWhile_sublist _
  rw [eventsBefore, List.range_succ, List.flatMap_append, List.flatMap_singleton, tickEvents]
  exact (List.Sublist.refl _).append
    ((hfailed.filterMap _).trans (List.sublist_append_right _ _))

/-- **A failure is logged before the victory if it comes before it**, by ticks and places. -/
theorem Wins.mem_failures (hes : InOrder es) {w : Entrant α} {v : α} (h : Wins es w v k)
    {x : Nat × Event} :
    x ∈ (eventsBefore es k).filter (·.2.isFailure) ↔
      ∃ e ∈ es, ∃ j m, e.endTick? = some j ∧ e.error? = some m ∧
        (j < k ∨ j = k ∧ e.index < w.index) ∧ (j / 3, .failed e.region e.index m) = x := by
  have hbatch : x ∈ ((failedAt es k).filterMap (·.failEvent? k)).filter (·.2.isFailure) ↔
      ∃ e ∈ es, e.endTick? = some k ∧ e.index < w.index ∧
        ∃ m, e.error? = some m ∧ (k / 3, .failed e.region e.index m) = x := by
    simp only [List.mem_filter, List.mem_filterMap, h.mem_failedAt hes, Entrant.failEvent?,
      Option.map_eq_some_iff, and_assoc]
    constructor
    · rintro ⟨⟨e, he, hk, hi, m, hm, hx⟩, -⟩
      exact ⟨e, he, hk, hi, m, hm, hx⟩
    · rintro ⟨e, he, hk, hi, m, hm, rfl⟩
      exact ⟨⟨e, he, hk, hi, m, hm, rfl⟩, rfl⟩
  rw [eventsBefore, List.filter_append, List.mem_append, mem_failures_range, hbatch]
  constructor
  · rintro (⟨e, he, j, m, hj, hm, hjk, rfl⟩ | ⟨e, he, hk, hi, m, hm, rfl⟩)
    · exact ⟨e, he, j, m, hj, hm, .inl hjk, rfl⟩
    · exact ⟨e, he, k, m, hk, hm, .inr ⟨rfl, hi⟩, rfl⟩
  · rintro ⟨e, he, j, m, hj, hm, hjk | ⟨rfl, hi⟩, rfl⟩
    · exact .inl ⟨e, he, j, m, hj, hm, hjk, rfl⟩
    · exact .inr ⟨e, he, hj, hi, m, hm, rfl⟩

/-! ### Calls -/

theorem startEvent_record (c : Nat) (e : Entrant α) : (e.record c).startEvent = e.startEvent := by
  unfold Entrant.record
  split <;> rfl

/-- The starts before the victory are those of the calls. -/
theorem Wins.starts_eventsBefore (hes : InOrder es) {w : Entrant α} {v : α} (h : Wins es w v k) :
    (eventsBefore es k).filter (·.2.isStart)
      = (wonReport es w v k).calls.map Call.startEvent := by
  have hmod := (Entrant.finish?_of_endTick? h.tick).2
  have hstarted : es.filter (·.startTick < k) = es.filter (·.hasStarted k) := by
    refine List.filter_congr fun e _ => ?_
    rw [Entrant.hasStarted, decide_eq_decide, Entrant.startTick]
    omega
  have hcalls : (es.filter (·.hasStarted k)).map (·.startEvent)
      = ((es.filter (·.hasStarted k)).map (·.record k)).map Call.startEvent := by
    rw [List.map_map]
    exact List.map_congr_left fun e _ => (startEvent_record k e).symm
  rw [eventsBefore, List.filter_append, filter_isStart_failEvents, List.append_nil,
    filter_isStart_events hes, hstarted, hcalls]
  rfl

section
variable (t : Thresholds) (regions : List Region) (script : Script α)

/-- The attempt to the region at a place fails at instant `f` with the error `m`. -/
def FailsAt (i : Fin regions.length) (f : Nat) (m : String) : Prop :=
  ∃ d, played regions script i = .failure d m ∧ f = dueAt t regions i + d

/-- What a race has logged when it is over: of the attempts that fail, those that count, and
one last event. -/
structure Logged (report : Report α) (counts : Fin regions.length → Nat → Prop) (last : Event) :
    Prop where
  /-- There is a start for each call, in the order of the calls. -/
  starts : report.events.filter (·.2.message = "starting regional attempt")
    = report.calls.map Call.startEvent
  /-- There is a failure for each attempt that fails and counts. -/
  failures : ∀ x, x ∈ report.events.filter (·.2.message = "regional attempt failed") ↔
    ∃ i f m, FailsAt t regions script i f m ∧ counts i f ∧ (f, .failed (regions.get i) i m) = x
  /-- Failures come in the order of their instants and places, each one once. -/
  inOrder : (report.events.filter (·.2.message = "regional attempt failed")).Pairwise Event.Before
  /-- At one instant come the failures of attempts in flight, the starts, and the failures of
  attempts that have just started. -/
  stages : report.events.Pairwise (Event.NotAfter fun i => (t.start i).toMillis)
  /-- The last event comes when the race is over, and all others are starts and failures. -/
  ends : ∃ before, report.events = before ++ [(report.elapsed, last)] ∧
    ∀ x ∈ before, x.2.message = "starting regional attempt" ∨
      x.2.message = "regional attempt failed"

variable {t regions script}

theorem failsAt_iff {i : Fin regions.length} {f : Nat} {m : String} :
    FailsAt t regions script i f m ↔ (entrantAt t regions script i).error? = some m ∧
      finishAt? t regions script i = some f := by
  unfold FailsAt Entrant.error? finishAt? entrantAt
  cases played regions script i <;> simp [Outcome.delay?, eq_comm]

/-- Failures by ticks and entrants are failures by instants and places. -/
theorem exists_failsAt_iff {p : Entrant α → Nat → Prop} {q : Fin regions.length → Nat → Prop}
    (hpq : ∀ i j, (entrantAt t regions script i).endTick? = some j →
      (p (entrantAt t regions script i) j ↔ q i (j / 3))) {x : Nat × Event} :
    (∃ e ∈ lineup t regions script, ∃ j m, e.endTick? = some j ∧ e.error? = some m ∧ p e j ∧
        (j / 3, .failed e.region e.index m) = x) ↔
      ∃ i f m, FailsAt t regions script i f m ∧ q i f ∧ (f, .failed (regions.get i) i m) = x := by
  constructor
  · rintro ⟨e, he, j, m, hj, hm, hp, rfl⟩
    obtain ⟨i, rfl⟩ := (mem_lineup t regions script).1 he
    have hf := (Entrant.finish?_of_endTick? hj).1
    exact ⟨i, j / 3, m, failsAt_iff.2 ⟨hm, hf⟩, (hpq i j hj).1 hp, rfl⟩
  · rintro ⟨i, f, m, hfails, hq, rfl⟩
    obtain ⟨hm, hf⟩ := failsAt_iff.1 hfails
    obtain ⟨j, hj, rfl⟩ := Entrant.exists_endTick? ((finish?_entrantAt i).trans hf)
    exact ⟨_, (mem_lineup t regions script).2 ⟨i, rfl⟩, j, m, hj, hm, (hpq i j hj).2 hq, rfl⟩

/-- **A log is what is written tick by tick, and a last event.** -/
theorem Logged.of_ticks {report : Report α} {counts : Fin regions.length → Nat → Prop}
    {last : Event} {before : List (Nat × Event)} {n : Nat}
    (events : report.events = before ++ [(report.elapsed, last)])
    (noStart : last.isStart = false) (noFailure : last.isFailure = false)
    (ticks : before.Sublist ((List.range n).flatMap (tickEvents (lineup t regions script))))
    (inTime : n ≤ 3 * report.elapsed + 3)
    (starts : before.filter (·.2.isStart) = report.calls.map Call.startEvent)
    (failures : ∀ x, x ∈ before.filter (·.2.isFailure) ↔
      ∃ i f m, FailsAt t regions script i f m ∧ counts i f ∧
        (f, .failed (regions.get i) i m) = x) :
    Logged t regions script report counts last := by
  have hes := lineup_inOrder t regions script
  have hdue : ∀ e ∈ lineup t regions script, (t.start e.index).toMillis = e.start := fun e he => by
    obtain ⟨i, rfl⟩ := (mem_lineup t regions script).1 he
    exact (dueAt_eq t regions i).symm
  have hstart : report.events.filter (·.2.isStart) = before.filter (·.2.isStart) := by
    rw [events, List.filter_append, List.filter_cons_of_neg (by simp [noStart]), List.filter_nil,
      List.append_nil]
  have hfailure : report.events.filter (·.2.isFailure) = before.filter (·.2.isFailure) := by
    rw [events, List.filter_append, List.filter_cons_of_neg (by simp [noFailure]),
      List.filter_nil, List.append_nil]
  simp only [Event.isStart_eq_message] at hstart starts
  simp only [Event.isFailure_eq_message] at hfailure failures
  have htick : ∀ x ∈ before, ∃ j, j < n ∧ x ∈ tickEvents (lineup t regions script) j :=
    fun x hx => by
      obtain ⟨j, hj, hxj⟩ := List.mem_flatMap.1 (ticks.subset hx)
      exact ⟨j, List.mem_range.1 hj, hxj⟩
  refine ⟨hstart.trans starts, fun x => by rw [hfailure, failures], ?_, ?_, before, events, ?_⟩
  · have hsorted := (pairwise_failures hes n).sublist (ticks.filter _)
    simp only [Event.isFailure_eq_message] at hsorted
    rw [hfailure]
    exact hsorted
  · rw [events]
    refine List.pairwise_append.2
      ⟨(pairwise_stage hdue n).sublist ticks, List.pairwise_singleton _ _, fun x hx y hy => ?_⟩
    obtain rfl := List.mem_singleton.1 hy
    obtain ⟨j, hjn, hxj⟩ := htick x hx
    have hlast : Event.stage (fun i => (t.start i).toMillis) (report.elapsed, last) = 3 := by
      cases last with
      | started _ _ _ => cases noStart
      | failed _ _ _ => cases noFailure
      | _ => rfl
    rw [Event.NotAfter, Prod.Lex.toLex_le_toLex, hlast, time_of_mem_tickEvents hxj,
      stage_of_mem_tickEvents hdue hxj]
    show j / 3 < report.elapsed ∨ j / 3 = report.elapsed ∧ j % 3 ≤ 3
    omega
  · intro x hx
    obtain ⟨j, -, hxj⟩ := htick x hx
    rcases mem_tickEvents.1 hxj with ⟨e, -, -, rfl⟩ | ⟨e, -, -, m, -, rfl⟩
    · exact .inl rfl
    · exact .inr rfl

/-- The log of a race that is won. -/
theorem Wins.logged {w : Fin regions.length} {v : α} {k : Nat}
    (h : Wins (lineup t regions script) (entrantAt t regions script w) v k) :
    let report := wonReport (lineup t regions script) (entrantAt t regions script w) v k
    Logged t regions script report (fun i f => toLex (f, i) < toLex (k / 3, w))
      (winEvent (lineup t regions script) (entrantAt t regions script w) k) := by
  intro report
  have hes := lineup_inOrder t regions script
  have hlast : ∀ (es : List (Entrant α)) (w : Entrant α),
      (winEvent es w k).isStart = false ∧ (winEvent es w k).isFailure = false := by
    intro es w
    unfold winEvent
    split <;> exact ⟨rfl, rfl⟩
  refine .of_ticks rfl (hlast _ _).1 (hlast _ _).2 (eventsBefore_sublist _ k) ?_
    (h.starts_eventsBefore hes) fun x => ?_
  · show k + 1 ≤ 3 * (k / 3) + 3
    omega
  · refine (h.mem_failures hes).trans ?_
    refine exists_failsAt_iff (p := fun e j => j < k ∨ j = k ∧ e.index < w) fun i j hj => ?_
    have hmem := (mem_lineup t regions script).2 ⟨i, rfl⟩
    have horder := hes.toLex_finish_lt_iff hmem h.mem hj h.tick
    rw [Prod.Lex.toLex_lt_toLex] at horder ⊢
    exact horder.symm

end

end Race
end Hedging
