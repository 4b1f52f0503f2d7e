import Hedging.Proofs.List
import Hedging.Race.Basic

/-!
# The ticks of a race

Every instant has three ticks: first end the attempts that were in flight, then
regions start, then end the attempts without delay that started just now.  So an
entrant starts at `startTick` and ends at `endTick?`, each tick is of one kind, and
`snapshot es c` is the whole race of `es` after tick `c`, without a loop: who waits, who
is in flight, and all that has been recorded.

`snapshot_of_quiet` says that nothing changes while no tick of an entrant comes.
-/

namespace Hedging
namespace Race

variable {α : Type} {es : List (Entrant α)} {c k : Nat}

namespace Entrant

/-- The instant at which the attempt of the entrant ends, if it does. -/
def finish? (e : Entrant α) : Option Nat := e.outcome.delay?.map (e.start + ·)

/-- The tick at which the entrant starts. -/
def startTick (e : Entrant α) : Nat := 3 * e.start + 1

/-- The tick at which its attempt ends, if it does. -/
def endTick? (e : Entrant α) : Option Nat :=
  e.outcome.delay?.map fun d => 3 * (e.start + d) + if d = 0 then 2 else 0

/-- Whether the entrant has started by a tick. -/
def hasStarted (c : Nat) (e : Entrant α) : Bool := e.startTick ≤ c

/-- Whether its attempt has ended by a tick. -/
def hasEnded (c : Nat) (e : Entrant α) : Bool := e.endTick?.any (· ≤ c)

/-- Whether its attempt is in flight after a tick. -/
def isFlying (c : Nat) (e : Entrant α) : Bool := e.hasStarted c && !e.hasEnded c

/-- Whether its attempt ends at a tick. -/
def endsAt (k : Nat) (e : Entrant α) : Bool := e.endTick? = some k

/-- Its attempt, which starts when it is due. -/
def attempt (e : Entrant α) : Attempt α := ⟨e, e.start⟩

/-- Its value, if its attempt is a success. -/
def value? (e : Entrant α) : Option α :=
  match e.outcome with
  | .success _ v => some v
  | _ => none

/-- Its error, if its attempt is a failure. -/
def error? (e : Entrant α) : Option String :=
  match e.outcome with
  | .failure _ m => some m
  | _ => none

/-- Its failure, as it is recorded. -/
def failure? (e : Entrant α) : Option Failure := e.error?.map (⟨e.region, ·⟩)

/-- The record of its attempt in a race that is over at tick `c`. -/
def record (c : Nat) (e : Entrant α) : Call :=
  if e.hasEnded c then e.attempt.completed (e.finish?.getD 0) else e.attempt.cancelled (c / 3)

/-- The event of its start. -/
def startEvent (e : Entrant α) : Nat × Event := (e.start, .started e.region e.index e.start)

/-- The event of its failure at tick `k`. -/
def failEvent? (k : Nat) (e : Entrant α) : Option (Nat × Event) :=
  e.error?.map fun m => (k / 3, .failed e.region e.index m)

theorem endTick?_eq_some_iff {e : Entrant α} :
    e.endTick? = some k ↔
      ∃ d, e.outcome.delay? = some d ∧ k = 3 * (e.start + d) + if d = 0 then 2 else 0 := by
  simp only [endTick?, Option.map_eq_some_iff, eq_comm (a := k)]

theorem hasStarted_iff {e : Entrant α} : e.hasStarted c = true ↔ e.startTick ≤ c :=
  decide_eq_true_iff

theorem hasEnded_iff {e : Entrant α} : e.hasEnded c = true ↔ ∃ k, e.endTick? = some k ∧ k ≤ c := by
  simp only [hasEnded, Option.any_eq_true, decide_eq_true_eq]

theorem endsAt_iff {e : Entrant α} : e.endsAt k = true ↔ e.endTick? = some k := decide_eq_true_iff

theorem isFlying_iff {e : Entrant α} :
    e.isFlying c = true ↔ e.startTick ≤ c ∧ ∀ k, e.endTick? = some k → c < k := by
  simp only [isFlying, Bool.and_eq_true, Bool.not_eq_true', hasStarted_iff, ← Bool.not_eq_true,
    hasEnded_iff, not_exists, not_and, Nat.not_le]

/-- An attempt ends after its start. -/
theorem startTick_lt {e : Entrant α} (h : e.endTick? = some k) : e.startTick < k := by
  obtain ⟨d, -, rfl⟩ := endTick?_eq_some_iff.1 h
  simp only [startTick]
  split <;> omega

/-- The tick of an end is at its instant, and is the second or none of its starts. -/
theorem finish?_of_endTick? {e : Entrant α} (h : e.endTick? = some k) :
    e.finish? = some (k / 3) ∧ k % 3 ≠ 1 := by
  obtain ⟨d, hd, rfl⟩ := endTick?_eq_some_iff.1 h
  simp only [finish?, hd, Option.map_some, Option.some.injEq]
  split <;> omega

theorem exists_endTick? {e : Entrant α} {f : Nat} (h : e.finish? = some f) :
    ∃ k, e.endTick? = some k ∧ k / 3 = f := by
  obtain ⟨d, hd, rfl⟩ := Option.map_eq_some_iff.1 h
  refine ⟨_, endTick?_eq_some_iff.2 ⟨d, hd, rfl⟩, ?_⟩
  split <;> omega

theorem hasStarted_of_hasEnded {e : Entrant α} (h : e.hasEnded c = true) :
    e.hasStarted c = true := by
  obtain ⟨k, hk, hkc⟩ := hasEnded_iff.1 h
  exact hasStarted_iff.2 (Nat.le_trans (Nat.le_of_lt (startTick_lt hk)) hkc)

theorem endTick?_le_of_hasEnded {e : Entrant α} (h : e.hasEnded c = true)
    (hk : e.endTick? = some k) : k ≤ c := by
  obtain ⟨j, hj, hjc⟩ := hasEnded_iff.1 h
  obtain rfl : j = k := Option.some.inj (hj.symm.trans hk)
  exact hjc

/-- What has ended has a value or an error. -/
theorem error?_isSome {e : Entrant α} (h : e.hasEnded c = true) (hv : e.value? = none) :
    e.error?.isSome = true := by
  obtain ⟨k, hk, -⟩ := hasEnded_iff.1 h
  obtain ⟨d, hd, -⟩ := endTick?_eq_some_iff.1 hk
  revert hd hv
  simp only [value?, error?]
  cases e.outcome <;> simp [Outcome.delay?]

end Entrant

/-- The entrants stand at their places, and none is due before the one in front of it. -/
structure InOrder (es : List (Entrant α)) : Prop where
  index : es.map (·.index) = List.range es.length
  sorted : es.Pairwise (·.start ≤ ·.start)

/-- The events of a tick. -/
def tickEvents (es : List (Entrant α)) (k : Nat) : List (Nat × Event) :=
  (es.filter (·.startTick = k)).map (·.startEvent)
    ++ (es.filter (·.endsAt k)).filterMap (·.failEvent? k)

/-- The calls that end at a tick. -/
def tickCalls (es : List (Entrant α)) (k : Nat) : List Call :=
  (es.filter (·.endsAt k)).map (·.attempt.completed (k / 3))

/-- The race of some entrants after a tick, as long as nobody has won. -/
def snapshot (es : List (Entrant α)) (c : Nat) : State α where
  clock := c / 3
  waiting := es.filter (!·.hasStarted c)
  inFlight := (es.filter (·.isFlying c)).map (·.attempt)
  slots := es.map fun e => if e.hasEnded c then e.failure? else none
  calls := (List.range (c + 1)).flatMap (tickCalls es)
  events := (List.range (c + 1)).flatMap (tickEvents es)

theorem slots_snapshot (es : List (Entrant α)) (c : Nat) :
    (snapshot es c).slots = es.map fun e => if e.hasEnded c then e.failure? else none := rfl

theorem calls_snapshot (es : List (Entrant α)) (c : Nat) :
    (snapshot es c).calls = (List.range (c + 1)).flatMap (tickCalls es) := rfl

theorem events_snapshot (es : List (Entrant α)) (c : Nat) :
    (snapshot es c).events = (List.range (c + 1)).flatMap (tickEvents es) := rfl

/-- No entrant starts or ends after tick `c` and no later than `k`. -/
def Quiet (es : List (Entrant α)) (c k : Nat) : Prop :=
  ∀ e ∈ es, (e.startTick ≤ k → e.startTick ≤ c) ∧ ∀ j, e.endTick? = some j → j ≤ k → j ≤ c

theorem mem_tickCalls {x : Call} :
    x ∈ tickCalls es k ↔ ∃ e ∈ es, e.endTick? = some k ∧ e.attempt.completed (k / 3) = x := by
  simp only [tickCalls, List.mem_map, List.mem_filter, Entrant.endsAt_iff, and_assoc]

/-- The events of a tick happen at its instant. -/
theorem time_of_mem_tickEvents {k : Nat} {x : Nat × Event} (h : x ∈ tickEvents es k) :
    x.1 = k / 3 := by
  rcases List.mem_append.1 h with hstart | hfail
  · obtain ⟨e, he, rfl⟩ := List.mem_map.1 hstart
    have hk := of_decide_eq_true (List.mem_filter.1 he).2
    simp only [Entrant.startTick] at hk
    show e.start = k / 3
    omega
  · obtain ⟨e, -, he⟩ := List.mem_filterMap.1 hfail
    obtain ⟨m, -, rfl⟩ := Option.map_eq_some_iff.1 he
    rfl

namespace InOrder

theorem index_eq_of_getElem? (h : InOrder es) {e : Entrant α} {i : Nat} (he : es[i]? = some e) :
    e.index = i := by
  obtain ⟨hi, -⟩ := List.getElem?_eq_some_iff.1 he
  have hget : (es.map (·.index))[i]? = (List.range es.length)[i]? := by rw [h.index]
  rw [List.getElem?_map, he, List.getElem?_range hi, Option.map_some] at hget
  exact Option.some.inj hget

/-- An entrant stands at the place that it knows as its own. -/
theorem getElem?_index (h : InOrder es) {e : Entrant α} (he : e ∈ es) : es[e.index]? = some e := by
  obtain ⟨i, hi⟩ := List.mem_iff_getElem?.1 he
  rw [h.index_eq_of_getElem? hi, hi]

theorem index_lt (h : InOrder es) {e : Entrant α} (he : e ∈ es) : e.index < es.length :=
  (List.getElem?_eq_some_iff.1 (h.getElem?_index he)).1

theorem eq_of_index_eq (h : InOrder es) {e e' : Entrant α} (he : e ∈ es) (he' : e' ∈ es)
    (hi : e.index = e'.index) : e = e' := by
  have hget := h.getElem?_index he
  rw [hi, h.getElem?_index he'] at hget
  exact (Option.some.inj hget).symm

/-- An entrant in front of another is not due after it. -/
theorem start_le_of_index_lt (h : InOrder es) {e e' : Entrant α} (he : e ∈ es) (he' : e' ∈ es)
    (hi : e.index < e'.index) : e.start ≤ e'.start := by
  obtain ⟨hlt, hget⟩ := List.getElem?_eq_some_iff.1 (h.getElem?_index he)
  obtain ⟨hlt', hget'⟩ := List.getElem?_eq_some_iff.1 (h.getElem?_index he')
  rw [← hget, ← hget']
  exact List.pairwise_iff_getElem.1 h.sorted _ _ hlt hlt' hi

end InOrder

namespace Quiet

theorem hasStarted_eq (hck : c ≤ k) (h : Quiet es c k) {e : Entrant α} (he : e ∈ es) :
    e.hasStarted k = e.hasStarted c := by
  have hle := (h e he).1
  rw [Bool.eq_iff_iff, Entrant.hasStarted_iff, Entrant.hasStarted_iff]
  omega

theorem hasEnded_eq (hck : c ≤ k) (h : Quiet es c k) {e : Entrant α} (he : e ∈ es) :
    e.hasEnded k = e.hasEnded c := by
  rw [Bool.eq_iff_iff, Entrant.hasEnded_iff, Entrant.hasEnded_iff]
  constructor
  · rintro ⟨j, hj, hjk⟩
    exact ⟨j, hj, (h e he).2 j hj hjk⟩
  · rintro ⟨j, hj, hjc⟩
    exact ⟨j, hj, Nat.le_trans hjc hck⟩

theorem tickEvents_eq_nil (h : Quiet es c k) {j : Nat} (hcj : c < j) (hjk : j ≤ k) :
    tickEvents es j = [] := by
  have hstart : es.filter (·.startTick = j) = [] := List.filter_eq_nil_iff.2 fun e he hj => by
    have := (h e he).1
    have := of_decide_eq_true hj
    omega
  have hend : es.filter (·.endsAt j) = [] := List.filter_eq_nil_iff.2 fun e he hj => by
    have := (h e he).2 j (Entrant.endsAt_iff.1 hj) hjk
    omega
  rw [tickEvents, hstart, hend]
  rfl

theorem tickCalls_eq_nil (h : Quiet es c k) {j : Nat} (hcj : c < j) (hjk : j ≤ k) :
    tickCalls es j = [] := by
  refine List.eq_nil_iff_forall_not_mem.2 fun x hx => ?_
  obtain ⟨e, he, hj, -⟩ := mem_tickCalls.1 hx
  have := (h e he).2 j hj hjk
  omega

end Quiet

/-- **Nothing changes while no tick of an entrant comes**, except the clock. -/
theorem snapshot_of_quiet (hck : c ≤ k) (h : Quiet es c k) :
    snapshot es k = { snapshot es c with clock := k / 3 } := by
  have hstarted : ∀ e ∈ es, (!e.hasStarted k) = !e.hasStarted c := fun e he => by
    rw [h.hasStarted_eq hck he]
  have hflying : ∀ e ∈ es, e.isFlying k = e.isFlying c := fun e he => by
    rw [Entrant.isFlying, Entrant.isFlying, h.hasStarted_eq hck he, h.hasEnded_eq hck he]
  have hslots : ∀ e ∈ es, (if e.hasEnded k then e.failure? else none)
      = if e.hasEnded c then e.failure? else none := fun e he => by rw [h.hasEnded_eq hck he]
  have hcalls := Ordered.flatMap_range_of_nil (Nat.succ_le_succ hck)
    fun j hcj hjk => h.tickCalls_eq_nil hcj (Nat.lt_succ_iff.1 hjk)
  have hevents := Ordered.flatMap_range_of_nil (Nat.succ_le_succ hck)
    fun j hcj hjk => h.tickEvents_eq_nil hcj (Nat.lt_succ_iff.1 hjk)
  simp only [snapshot, State.mk.injEq, true_and]
  exact ⟨List.filter_congr hstarted, congrArg _ (List.filter_congr hflying),
    List.map_congr_left hslots, hcalls, hevents⟩

end Race
end Hedging
