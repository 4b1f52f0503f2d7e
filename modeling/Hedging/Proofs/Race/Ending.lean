import Hedging.Proofs.Race.Turn
import Mathlib.Data.List.Nodup

/-!
# How a race ends

What one turn keeps (`Ongoing.again`) holds before every turn, and what it ends in is
an `Ending`: a report without a loop, in which the winner has the least tick and place
of all that have a value, or nobody has one by the end.  `contest_ending` says that
every race has such a report, and `callsInOrder_perm` that its calls are those that the
loop has kept.
-/

namespace Hedging
namespace Race

variable {α : Type} {es : List (Entrant α)} {c k : Nat} {deadline : Option Nat}

/-! ### What every turn keeps -/

/-- What holds of the tick after which a race stands before a turn. -/
structure Ongoing (es : List (Entrant α)) (deadline : Option Nat) (c : Nat) : Prop where
  /-- The starts of the instant are over. -/
  launched : c % 3 ≠ 0
  /-- The clock shows an instant at which an entrant started or ended. -/
  reached : c / 3 = 0 ∨ ∃ e ∈ es, e.start = c / 3 ∨ e.finish? = some (c / 3)
  /-- No attempt that has ended has a value. -/
  noValue : ∀ e ∈ es, e.hasEnded c = true → e.value? = none
  /-- The deadline has not passed. -/
  inTime : InTime deadline (c / 3)

theorem Ongoing.first (es : List (Entrant α)) (deadline : Option Nat) : Ongoing es deadline 1 := by
  refine ⟨by omega, .inl rfl, fun e _ he => ?_, fun limit _ => Nat.zero_le limit⟩
  obtain ⟨j, hj, hj1⟩ := Entrant.hasEnded_iff.1 he
  have := Entrant.startTick_lt hj
  simp only [Entrant.startTick] at this
  omega

/-- **A turn keeps it.** -/
theorem Ongoing.again (h : Ongoing es deadline c) (next : NextTick es c k)
    (inTime : InTime deadline (k / 3))
    (noValue : ∀ e ∈ es, e.endTick? = some k → e.value? = none) :
    Ongoing es deadline (afterStarts k) := by
  have hmod : afterStarts k % 3 ≠ 0 ∧ afterStarts k / 3 = k / 3 := by
    unfold afterStarts
    split <;> omega
  refine ⟨hmod.1, .inr ?_, fun e he hended => ?_, by rw [hmod.2]; exact inTime⟩
  · obtain ⟨e, he, hs | hk⟩ := next.tick
    · refine ⟨e, he, .inl ?_⟩
      simp only [Entrant.startTick] at hs
      omega
    · exact ⟨e, he, .inr (by rw [hmod.2, (Entrant.finish?_of_endTick? hk).1])⟩
  · obtain ⟨j, hj, hjk⟩ := Entrant.hasEnded_iff.1 hended
    by_cases hjc : j ≤ c
    · exact h.noValue e he (Entrant.hasEnded_iff.2 ⟨j, hj, hjc⟩)
    · have hquiet := (next.quiet e he).2 j hj
      have hmodj := (Entrant.finish?_of_endTick? hj).2
      have hjk : j = k := by
        unfold afterStarts at hjk
        split at hjk <;> omega
      exact noValue e he (hjk ▸ hj)

/-- A property of states that every turn keeps gives what it says of the ends of turns. -/
theorem run_of_invariant {P : State α → Prop} {Q : State α → Verdict α → Prop}
    (hagain : ∀ s s', P s → s.step deadline = .again s' → P s')
    (hover : ∀ s s' v, P s → s.step deadline = .over s' v → Q s' v) (s : State α) (hs : P s) :
    Q (s.run deadline).1 (s.run deadline).2 := by
  fun_induction State.run deadline s with
  | case1 s s' h ih => exact ih (hagain s s' hs h)
  | case2 s s' v h => exact hover s s' v hs h

/-! ### The calls -/

theorem index_record (c : Nat) (e : Entrant α) : (e.record c).index = e.index := by
  unfold Entrant.record
  split <;> rfl

/-- The calls of a state are the records of the entrants that pass a test, each once. -/
structure Records (es : List (Entrant α)) (p : Entrant α → Bool) (c : Nat) (s : State α) :
    Prop where
  length : s.slots.length = es.length
  mem : ∀ x, x ∈ s.calls ↔ ∃ e ∈ es, p e = true ∧ e.record c = x
  nodup : s.calls.Nodup

/-- The calls in order are the records in the order of the entrants. -/
theorem Records.callsInOrder_eq (hes : InOrder es) {s : State α} {p : Entrant α → Bool}
    (h : Records es p c s) : s.callsInOrder = (es.filter p).map (·.record c) := by
  have hfind : ∀ e ∈ es, s.calls.find? (·.index = e.index)
      = if p e then some (e.record c) else none := by
    intro e he
    cases hx : s.calls.find? (·.index = e.index) with
    | some x =>
      obtain ⟨e', he', hp, rfl⟩ := (h.mem x).1 (List.mem_of_find?_eq_some hx)
      have hi := of_decide_eq_true (List.find?_some (p := fun x : Call => x.index = e.index) hx)
      have hee : e' = e := hes.eq_of_index_eq he' he ((index_record c e').symm.trans hi)
      rw [← hee, if_pos hp]
    | none =>
      have hp : ¬ p e = true := fun hp => by
        have hnone := List.find?_eq_none.1 hx (e.record c) ((h.mem _).2 ⟨e, he, hp, rfl⟩)
        exact hnone (decide_eq_true (index_record c e))
      rw [if_neg hp]
  rw [State.callsInOrder, h.length, ← hes.index, List.filterMap_map, ← List.filterMap_eq_map,
    List.filterMap_filter]
  exact List.filterMap_congr hfind

/-- Entrants have different places, so what keeps their places is different. -/
theorem InOrder.nodup_map_filter (hes : InOrder es) {f : Entrant α → Call}
    (hf : ∀ e, (f e).index = e.index) (p : Entrant α → Bool) : ((es.filter p).map f).Nodup := by
  refine List.Nodup.of_map (·.index) ?_
  have hindex : ((es.filter p).map f).map (·.index) = (es.filter p).map (·.index) := by
    rw [List.map_map]
    exact List.map_congr_left fun e _ => hf e
  have hsub : ((es.filter p).map (·.index)).Sublist (List.range es.length) :=
    hes.index ▸ List.filter_sublist.map _
  rw [hindex]
  exact List.nodup_range.sublist hsub

/-- No call is left out of the order, and none is repeated in the state. -/
theorem Records.callsInOrder_perm (hes : InOrder es) {s : State α} {p : Entrant α → Bool}
    (h : Records es p c s) : s.callsInOrder.Perm s.calls := by
  have hnodup := hes.nodup_map_filter (index_record c) p
  rw [h.callsInOrder_eq hes, List.perm_ext_iff_of_nodup hnodup h.nodup]
  intro x
  simp only [h.mem, List.mem_map, List.mem_filter, and_assoc]

theorem start_record (c : Nat) (e : Entrant α) : (e.record c).start = e.start := by
  unfold Entrant.record
  split <;> rfl

theorem record_of_endTick? {e : Entrant α} (hk : e.endTick? = some k) (hkc : k ≤ c) :
    e.record c = e.attempt.completed (k / 3) := by
  rw [Entrant.record, if_pos (Entrant.hasEnded_iff.2 ⟨k, hk, hkc⟩),
    (Entrant.finish?_of_endTick? hk).1, Option.getD_some]

theorem mem_calls_snapshot {x : Call} :
    x ∈ (snapshot es c).calls ↔ ∃ e ∈ es, e.hasEnded c = true ∧ e.record c = x := by
  simp only [calls_snapshot, List.mem_flatMap, List.mem_range, mem_tickCalls]
  constructor
  · rintro ⟨j, hj, e, he, hk, rfl⟩
    have hjc := Nat.lt_succ_iff.1 hj
    exact ⟨e, he, Entrant.hasEnded_iff.2 ⟨j, hk, hjc⟩, record_of_endTick? hk hjc⟩
  · rintro ⟨e, he, hended, rfl⟩
    obtain ⟨j, hk, hjc⟩ := Entrant.hasEnded_iff.1 hended
    exact ⟨j, Nat.lt_succ_iff.2 hjc, e, he, hk, (record_of_endTick? hk hjc).symm⟩

/-- The calls that ended, and those that are given up now. -/
theorem mem_calls_cancel {x : Call} :
    x ∈ (snapshot es c).calls ++ (snapshot es c).inFlight.map (·.cancelled (c / 3)) ↔
      ∃ e ∈ es, e.hasStarted c = true ∧ e.record c = x := by
  simp only [List.mem_append, mem_calls_snapshot, List.mem_map, mem_inFlight_snapshot]
  constructor
  · rintro (⟨e, he, hended, rfl⟩ | ⟨a, ⟨e, he, hf, rfl⟩, rfl⟩)
    · exact ⟨e, he, Entrant.hasStarted_of_hasEnded hended, rfl⟩
    · rw [Entrant.isFlying, Bool.and_eq_true, Bool.not_eq_true'] at hf
      exact ⟨e, he, hf.1, by rw [Entrant.record, hf.2, if_neg Bool.false_ne_true]⟩
  · rintro ⟨e, he, hs, rfl⟩
    cases hended : e.hasEnded c with
    | true => exact .inl ⟨e, he, hended, rfl⟩
    | false =>
      refine .inr ⟨e.attempt, ⟨e, he, ?_, rfl⟩, ?_⟩
      · rw [Entrant.isFlying, hs, hended]
        rfl
      · rw [Entrant.record, hended, if_neg Bool.false_ne_true]

theorem nodup_calls_snapshot (hes : InOrder es) : (snapshot es c).calls.Nodup := by
  rw [calls_snapshot, List.nodup_flatMap]
  refine ⟨fun j _ => hes.nodup_map_filter (fun _ => rfl) _, List.nodup_range.imp ?_⟩
  intro i j hij x hi hj
  obtain ⟨e, he, hk, rfl⟩ := mem_tickCalls.1 hi
  obtain ⟨e', he', hk', heq⟩ := mem_tickCalls.1 hj
  obtain rfl : e' = e := hes.eq_of_index_eq he' he (congrArg Call.index heq)
  exact hij (Option.some.inj (hk.symm.trans hk'))

theorem nodup_calls_cancel (hes : InOrder es) :
    ((snapshot es c).calls ++ (snapshot es c).inFlight.map (·.cancelled (c / 3))).Nodup := by
  have hgiven : ((snapshot es c).inFlight.map (·.cancelled (c / 3))).Nodup := by
    rw [snapshot, List.map_map]
    exact hes.nodup_map_filter (fun _ => rfl) _
  refine (nodup_calls_snapshot hes).append hgiven fun x hx hx' => ?_
  obtain ⟨e, he, hended, rfl⟩ := mem_calls_snapshot.1 hx
  obtain ⟨a, ha, heq⟩ := List.mem_map.1 hx'
  obtain ⟨e', he', hflying, rfl⟩ := mem_inFlight_snapshot.1 ha
  have hindex : e'.index = e.index := (congrArg Call.index heq).trans (index_record c e)
  obtain rfl : e' = e := hes.eq_of_index_eq he' he hindex
  simp [Entrant.isFlying, hended] at hflying

/-- The calls before anything is given up are those that have ended. -/
theorem records_snapshot (hes : InOrder es) {s : State α} (length : s.slots.length = es.length)
    (calls : s.calls = (snapshot es c).calls) : Records es (·.hasEnded c) c s :=
  ⟨length, fun _ => by rw [calls, mem_calls_snapshot], calls ▸ nodup_calls_snapshot hes⟩

/-- With those that are given up the calls are all that have started. -/
theorem records_cancel (hes : InOrder es) {s : State α} (length : s.slots.length = es.length)
    (calls : s.calls
      = (snapshot es c).calls ++ (snapshot es c).inFlight.map (·.cancelled (c / 3))) :
    Records es (·.hasStarted c) c s :=
  ⟨length, fun _ => by rw [calls, mem_calls_cancel], calls ▸ nodup_calls_cancel hes⟩

/-! ### The winner -/

/-- `w` has the value `v` at tick `k`, and no other value comes before it: of those at the same
tick it has the first place. -/
structure Wins (es : List (Entrant α)) (w : Entrant α) (v : α) (k : Nat) : Prop where
  mem : w ∈ es
  value : w.value? = some v
  tick : w.endTick? = some k
  least : ∀ e ∈ es, e.value?.isSome = true → ∀ j, e.endTick? = some j →
    k < j ∨ k = j ∧ w.index ≤ e.index

theorem InOrder.pairwise_index (h : InOrder es) : es.Pairwise (·.index < ·.index) := by
  rw [← List.pairwise_map (f := fun e : Entrant α => e.index), h.index]
  exact List.pairwise_lt_range

/-- The first value of the first batch that has one is the winner's. -/
theorem wins_of_winnerAt? (hes : InOrder es) (h : Ongoing es deadline c) (next : NextEnd es c k)
    {w : Entrant α} {v : α} (first : winnerAt? es k = some w) (value : w.value? = some v) :
    Wins es w v k := by
  obtain ⟨-, front, rest, hbatch, hfront⟩ := List.find?_eq_some_iff_append.1 first
  have hmem : w ∈ es.filter (·.endsAt k) := by simp [hbatch]
  refine ⟨(List.mem_filter.1 hmem).1, value, Entrant.endsAt_iff.1 (List.mem_filter.1 hmem).2,
    fun e he hv j hj => ?_⟩
  have hcj : c < j := Nat.not_le.1 fun hjc => by
    rw [h.noValue e he (Entrant.hasEnded_iff.2 ⟨j, hj, hjc⟩)] at hv
    exact Bool.false_ne_true hv
  have hkj : k ≤ j := by
    have := (next.quiet e he).2 j hj
    omega
  rcases Nat.lt_or_eq_of_le hkj with hlt | rfl
  · exact .inl hlt
  · refine .inr ⟨rfl, ?_⟩
    have hebatch : e ∈ es.filter (·.endsAt k) := List.mem_filter.2 ⟨he, Entrant.endsAt_iff.2 hj⟩
    have hsorted : (es.filter (·.endsAt k)).Pairwise (·.index < ·.index) :=
      hes.pairwise_index.filter _
    rw [hbatch] at hebatch hsorted
    rcases List.mem_append.1 hebatch with hin | hin
    · have hnone := hfront e hin
      simp only [hv, Bool.not_true] at hnone
      exact absurd hnone Bool.false_ne_true
    · rcases List.mem_cons.1 hin with rfl | hin
      · exact Nat.le_refl _
      · exact Nat.le_of_lt
          ((List.pairwise_cons.1 (List.pairwise_append.1 hsorted).2.1).1 e hin)

/-! ### The ends -/

/-- How many attempts are in flight after a tick. -/
def flyingCount (es : List (Entrant α)) (k : Nat) : Nat := (es.filter (·.isFlying k)).length

/-- The event of a victory at tick `k`. -/
def winEvent (es : List (Entrant α)) (w : Entrant α) (k : Nat) : Event :=
  if w.index = 0 then .primaryWon w.region (flyingCount es k)
  else .hedgeWon w.region w.index (flyingCount es k) (k / 3 - w.start)

/-- The report of a race that `w` wins with the value `v` at tick `k`. -/
def wonReport (es : List (Entrant α)) (w : Entrant α) (v : α) (k : Nat) : Report α where
  verdict := .won w.index w.region v
  elapsed := k / 3
  calls := (es.filter (·.hasStarted k)).map (·.record k)
  events := (List.range k).flatMap (tickEvents es) ++ (failedAt es k).filterMap (·.failEvent? k)
    ++ [(k / 3, winEvent es w k)]

/-- The report of a race in which every attempt has failed by tick `c`. -/
def failedReport (es : List (Entrant α)) (c : Nat) : Report α where
  verdict := .failed (.allFailed (es.filterMap (·.failure?)))
  elapsed := c / 3
  calls := es.map (·.record c)
  events := (List.range (c + 1)).flatMap (tickEvents es) ++ [(c / 3, .allFailed es.length)]

/-- The report of a race that is dropped at an instant, after all that happens at it. -/
def droppedReport (es : List (Entrant α)) (limit : Nat) : Report α where
  verdict := .dropped
  elapsed := limit
  calls := (es.filter (·.hasStarted (3 * limit + 2))).map (·.record (3 * limit + 2))
  events := (List.range (3 * limit + 3)).flatMap (tickEvents es)

/-- The report of a race in which nothing happens after tick `c` and some attempt never ends. -/
def unfinishedReport (es : List (Entrant α)) (c : Nat) : Report α where
  verdict := .unfinished
  elapsed := c / 3
  calls := (es.filter (·.hasEnded c)).map (·.record c)
  events := (List.range (c + 1)).flatMap (tickEvents es)

/-- How a race ends: won by the least tick and place, or with no value by then. -/
inductive Ending (es : List (Entrant α)) (deadline : Option Nat) : Report α → Prop
  | won {w : Entrant α} {v : α} {k : Nat} (wins : Wins es w v k)
      (inTime : InTime deadline (k / 3)) :
      Ending es deadline (wonReport es w v k)
  | failed {c : Nat} (ongoing : Ongoing es deadline c) (ended : ∀ e ∈ es, e.hasEnded c = true) :
      Ending es deadline (failedReport es c)
  | dropped {limit : Nat} (hlimit : deadline = some limit)
      (noValue : ∀ e ∈ es, e.hasEnded (3 * limit + 2) = true → e.value? = none)
      (unended : ∃ e ∈ es, e.hasEnded (3 * limit + 2) = false) :
      Ending es deadline (droppedReport es limit)
  | unfinished {c : Nat} (ongoing : Ongoing es deadline c) (noLimit : deadline = none)
      (started : ∀ e ∈ es, e.startTick ≤ c) (ended : ∀ e ∈ es, ∀ k, e.endTick? = some k → k ≤ c)
      (hangs : ∃ e ∈ es, e.finish? = none) : Ending es deadline (unfinishedReport es c)

/-- The calls when `w` has won at tick `k`. -/
theorem records_won (hes : InOrder es) (k : Nat) (w : Entrant α) {slots : List (Option Failure)}
    (hlen : slots.length = es.length) :
    Records es (·.hasStarted k) k
      (((afterBatch es k slots).emit ((afterBatch es k slots).victory w.attempt)).cancel (k / 3)) :=
  records_cancel hes hlen rfl

theorem report_won (hes : InOrder es) {w : Entrant α} {v : α} {slots : List (Option Failure)}
    (hlen : slots.length = es.length) :
    (((afterBatch es k slots).emit ((afterBatch es k slots).victory w.attempt)).cancel
      (k / 3)).report (.won w.index w.region v) = wonReport es w v k := by
  have hcalls := (records_won hes k w hlen).callsInOrder_eq hes
  have hevent : (afterBatch es k slots).victory w.attempt = winEvent es w k := by
    simp only [State.victory, winEvent, flyingCount, afterBatch, snapshot, List.length_map]
    rfl
  rw [State.report, hcalls, hevent]
  rfl

theorem failures_snapshot (ended : ∀ e ∈ es, e.hasEnded c = true) :
    (snapshot es c).failures = es.filterMap (·.failure?) := by
  have hslots : (snapshot es c).slots = es.map (·.failure?) :=
    List.map_congr_left fun e he => if_pos (ended e he)
  rw [State.failures, hslots, List.filterMap_map]
  rfl

theorem Entrant.failure?_isSome {e : Entrant α} (h : e.hasEnded c = true) (hv : e.value? = none) :
    e.failure?.isSome = true := by
  rw [Entrant.failure?, Option.isSome_map]
  exact Entrant.error?_isSome h hv

/-- The calls when every attempt has ended by tick `c`. -/
theorem records_failed (hes : InOrder es) (c : Nat) :
    Records es (·.hasEnded c) c
      ((snapshot es c).emit (.allFailed (snapshot es c).failures.length)) :=
  records_snapshot hes (List.length_map _) rfl

theorem report_failed (hes : InOrder es) (h : Ongoing es deadline c)
    (ended : ∀ e ∈ es, e.hasEnded c = true) :
    ((snapshot es c).emit (.allFailed (snapshot es c).failures.length)).report
      (.failed (.allFailed (snapshot es c).failures)) = failedReport es c := by
  have hcalls := (records_failed hes c).callsInOrder_eq hes
  have hlen : (es.filterMap (·.failure?)).length = es.length :=
    List.filterMap_length_eq_length.2 fun e he =>
      Entrant.failure?_isSome (ended e he) (h.noValue e he (ended e he))
  rw [List.filter_eq_self.2 ended] at hcalls
  rw [State.report, hcalls, failures_snapshot ended, hlen]
  rfl

theorem cancel_of_quiet {limit : Nat} (hle : c ≤ 3 * limit + 2)
    (quiet : Quiet es c (3 * limit + 2)) :
    (snapshot es c).cancel limit = (snapshot es (3 * limit + 2)).cancel limit := by
  rw [snapshot_of_quiet hle quiet]
  rfl

/-- The calls at a deadline, after all that happens at its instant. -/
theorem records_dropped (hes : InOrder es) (limit : Nat) :
    Records es (·.hasStarted (3 * limit + 2)) (3 * limit + 2)
      ((snapshot es (3 * limit + 2)).cancel limit) := by
  have hclock : (3 * limit + 2) / 3 = limit := by omega
  refine records_cancel hes (List.length_map _) ?_
  rw [hclock]
  rfl

theorem report_dropped (hes : InOrder es) {limit : Nat} (hle : c ≤ 3 * limit + 2)
    (quiet : Quiet es c (3 * limit + 2)) :
    ((snapshot es c).cancel limit).report .dropped = droppedReport es limit := by
  rw [cancel_of_quiet hle quiet, State.report, (records_dropped hes limit).callsInOrder_eq hes]
  rfl

theorem report_unfinished (hes : InOrder es) :
    (snapshot es c).report .unfinished = unfinishedReport es c := by
  rw [State.report, (records_snapshot hes (List.length_map _) rfl).callsInOrder_eq hes]
  rfl

/-- The end of a turn is an end of the race. -/
theorem Ongoing.ending (hes : InOrder es) (h : Ongoing es deadline c) {s : State α} {v : Verdict α}
    (hover : (snapshot es c).step deadline = .over s v) : Ending es deadline (s.report v) := by
  have hturned := turned_step hes deadline c
  rw [hover] at hturned
  cases hturned with
  | won next inTime first value length =>
    rw [report_won hes length]
    exact .won (wins_of_winnerAt? hes h next first value) inTime
  | exhausted ended =>
    rw [report_failed hes h ended]
    exact .failed h ended
  | @dropped limit hlimit quiet unended =>
    have hle := h.inTime limit hlimit
    rw [report_dropped hes (by omega) quiet]
    refine .dropped hlimit (fun e he hended => h.noValue e he ?_) unended
    rw [← quiet.hasEnded_eq (by omega) he, hended]
  | unfinished noLimit started ended hangs =>
    rw [report_unfinished hes]
    exact .unfinished h noLimit started ended hangs

/-- What holds whenever a turn ends a race that has gone on so far holds when the race is over. -/
theorem contest_of_over (hes : InOrder es) {Q : State α → Verdict α → Prop}
    (hover : ∀ c s v, Ongoing es deadline c → (snapshot es c).step deadline = .over s v → Q s v) :
    Q ((State.ofEntrants es).launch.run deadline).1
      ((State.ofEntrants es).launch.run deadline).2 := by
  have hstart : (State.ofEntrants es).launch = snapshot es 1 := by
    rw [ofEntrants_eq_snapshot]
    exact launch_snapshot hes 0
  rw [hstart]
  refine run_of_invariant (P := fun s => ∃ c, Ongoing es deadline c ∧ s = snapshot es c) ?_ ?_ _
    ⟨1, .first es deadline, rfl⟩
  · rintro _ s' ⟨c, hc, rfl⟩ hagain
    have hturned := turned_step hes deadline c
    rw [hagain] at hturned
    cases hturned with
    | again next inTime noValue => exact ⟨_, hc.again next inTime noValue, rfl⟩
  · rintro _ s' v ⟨c, hc, rfl⟩ hstep
    exact hover c s' v hc hstep

/-- **Every race ends so.** -/
theorem contest_ending (hes : InOrder es) (deadline : Option Nat) :
    Ending es deadline (contest deadline es) :=
  contest_of_over hes (Q := fun s v => Ending es deadline (s.report v))
    fun _ _ _ hc hstep => hc.ending hes hstep

/-- **The calls of a report are those of the loop, each once.**  Putting them in order neither
drops nor hides one. -/
theorem callsInOrder_perm (hes : InOrder es) (deadline : Option Nat) :
    let s := ((State.ofEntrants es).launch.run deadline).1
    s.callsInOrder.Perm s.calls := by
  refine contest_of_over hes (Q := fun s _ => s.callsInOrder.Perm s.calls) ?_
  intro c s v hc hover
  have hturned := turned_step hes deadline c
  rw [hover] at hturned
  cases hturned with
  | won next inTime first value length => exact (records_won hes _ _ length).callsInOrder_perm hes
  | exhausted ended => exact (records_failed hes c).callsInOrder_perm hes
  | @dropped limit hlimit quiet unended =>
    have hle := hc.inTime limit hlimit
    rw [cancel_of_quiet (by omega) quiet]
    exact (records_dropped hes limit).callsInOrder_perm hes
  | unfinished noLimit started ended hangs =>
    exact (records_snapshot hes (List.length_map _) rfl).callsInOrder_perm hes

end Race
end Hedging
