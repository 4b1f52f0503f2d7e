import Hedging.Proofs.Race.Launch

/-!
# Batches

The attempts that end at the next tick are one batch: they are those in flight that
are due at its instant (`batch_eq`), and the others stay in flight (`rest_eq`).  A
batch is settled up to its first value (`settle_map_attempt`); without one, handling it
takes the race to the snapshot after the tick (`complete_snapshot_of_no_value`).
-/

namespace Hedging
namespace Race

variable {α : Type} {es : List (Entrant α)} {c k : Nat}

/-- The failure of its attempt, as a batch hands it on. -/
def Entrant.fall? (e : Entrant α) : Option (Attempt α × String) := e.error?.map (e.attempt, ·)

/-- Those whose attempts end at a tick, up to the first with a value. -/
def failedAt (es : List (Entrant α)) (k : Nat) : List (Entrant α) :=
  (es.filter (·.endsAt k)).takeWhile (·.value?.isNone)

/-- The first with a value whose attempt ends at a tick. -/
def winnerAt? (es : List (Entrant α)) (k : Nat) : Option (Entrant α) :=
  (es.filter (·.endsAt k)).find? (·.value?.isSome)

/-- The next tick after `c` is `k`, and attempts end at it. -/
structure NextEnd (es : List (Entrant α)) (c k : Nat) : Prop where
  lt : c < k
  quiet : Quiet es c (k - 1)
  ends : ∃ e ∈ es, e.endTick? = some k

/-! ### Settling -/

/-- A batch is settled up to its first value. -/
theorem settle_map_attempt (l : List (Entrant α)) :
    settle (l.map (·.attempt)) = ((l.takeWhile (·.value?.isNone)).filterMap (·.fall?),
      (l.find? (·.value?.isSome)).bind fun w => w.value?.map (w.attempt, ·)) := by
  induction l with
  | nil => rfl
  | cons e l ih =>
    have hentrant : e.attempt.entrant.outcome = e.outcome := rfl
    rw [List.map_cons, settle, hentrant, ih]
    cases ho : e.outcome with
    | success d v =>
      have hv : e.value? = some v := by rw [Entrant.value?, ho]
      simp [hv]
    | failure d m =>
      have hv : e.value? = none := by rw [Entrant.value?, ho]
      have hm : e.fall? = some (e.attempt, m) := by rw [Entrant.fall?, Entrant.error?, ho]; rfl
      simp [hv, hm]
    | hang =>
      have hv : e.value? = none := by rw [Entrant.value?, ho]
      have hm : e.fall? = none := by rw [Entrant.fall?, Entrant.error?, ho]; rfl
      simp [hv, hm]

/-- A batch without a winner has no value. -/
theorem value?_of_winnerAt?_none (h : winnerAt? es k = none) {e : Entrant α} (he : e ∈ es)
    (hk : e.endTick? = some k) : e.value? = none := by
  have hnone := List.find?_eq_none.1 h e (List.mem_filter.2 ⟨he, Entrant.endsAt_iff.2 hk⟩)
  simpa using hnone

/-- The winner of a batch has a value. -/
theorem exists_value_of_winnerAt? {w : Entrant α} (h : winnerAt? es k = some w) :
    ∃ v, w.value? = some v :=
  Option.isSome_iff_exists.1 (List.find?_some (p := fun e : Entrant α => e.value?.isSome) h)

/-! ### Slots -/

theorem set_map (hes : InOrder es) {a : Entrant α} (ha : a ∈ es) (g : Entrant α → Option Failure)
    (x : Option Failure) :
    (es.map g).set a.index x = es.map fun e => if e.index = a.index then x else g e := by
  refine List.ext_getElem? fun i => ?_
  rw [List.getElem?_set, List.getElem?_map, List.getElem?_map, List.length_map]
  cases hi : es[i]? with
  | none =>
    have hle := List.getElem?_eq_none_iff.1 hi
    rw [if_neg (by have := hes.index_lt ha; omega)]
    rfl
  | some e =>
    have hei := hes.index_eq_of_getElem? hi
    have hlt := (List.getElem?_eq_some_iff.1 hi).1
    rw [Option.map_some, Option.map_some, hei]
    by_cases h : a.index = i
    · rw [if_pos h, if_pos (h ▸ hlt), if_pos h.symm]
    · rw [if_neg h, if_neg (Ne.symm h)]

/-- Recording failures fills the slots of their regions and leaves the others. -/
theorem foldl_recordFailure (hes : InOrder es) {l : List (Entrant α)}
    (hl : ∀ a ∈ l, a ∈ es ∧ a.error?.isSome = true) (g : Entrant α → Option Failure) :
    (l.filterMap (·.fall?)).foldl State.recordFailure (es.map g)
      = es.map fun e => if l.any (·.index = e.index) then e.failure? else g e := by
  induction l generalizing g with
  | nil => simp
  | cons a l ih =>
    obtain ⟨ha, hm⟩ := hl a List.mem_cons_self
    obtain ⟨m, hm⟩ := Option.isSome_iff_exists.1 hm
    have hfall : a.fall? = some (a.attempt, m) := by rw [Entrant.fall?, hm, Option.map_some]
    have hset : State.recordFailure (es.map g) (a.attempt, m)
        = es.map fun e => if e.index = a.index then a.failure? else g e := by
      rw [← set_map hes ha, Entrant.failure?, hm]
      rfl
    rw [List.filterMap_cons_some hfall, List.foldl_cons, hset,
      ih fun b hb => hl b (List.mem_cons_of_mem _ hb)]
    refine List.map_congr_left fun e he => ?_
    by_cases h : e.index = a.index
    · have hea : e = a := hes.eq_of_index_eq he ha h
      simp [hea]
    · have h' : ¬ a.index = e.index := Ne.symm h
      simp only [h, h', List.any_cons, decide_false, Bool.false_or, if_false]

theorem length_foldl_recordFailure (fs : List (Attempt α × String))
    (slots : List (Option Failure)) :
    (fs.foldl State.recordFailure slots).length = slots.length := by
  induction fs generalizing slots with
  | nil => rfl
  | cons f fs ih => rw [List.foldl_cons, ih, State.recordFailure, List.length_set]

/-! ### A batch -/

namespace NextEnd

theorem mod_ne_one (h : NextEnd es c k) : k % 3 ≠ 1 := by
  obtain ⟨e, -, he⟩ := h.ends
  exact (Entrant.finish?_of_endTick? he).2

/-- Nobody starts at the tick of the batch or since the last one. -/
theorem hasStarted_eq (h : NextEnd es c k) {e : Entrant α} (he : e ∈ es) :
    e.hasStarted k = e.hasStarted c := by
  have hlt := h.lt
  have hmod := h.mod_ne_one
  have hquiet := (h.quiet e he).1
  rw [Bool.eq_iff_iff, Entrant.hasStarted_iff, Entrant.hasStarted_iff]
  simp only [Entrant.startTick] at hquiet ⊢
  omega

/-- Whose attempt ends by the tick of the batch has ended before or is in the batch. -/
theorem hasEnded_eq (h : NextEnd es c k) {e : Entrant α} (he : e ∈ es) :
    e.hasEnded k = (e.hasEnded c || e.endsAt k) := by
  have hlt := h.lt
  have hquiet := (h.quiet e he).2
  rw [Bool.eq_iff_iff, Bool.or_eq_true, Entrant.hasEnded_iff, Entrant.hasEnded_iff,
    Entrant.endsAt_iff]
  constructor
  · rintro ⟨j, hj, hjk⟩
    by_cases heq : j = k
    · exact .inr (heq ▸ hj)
    · exact .inl ⟨j, hj, hquiet j hj (by omega)⟩
  · rintro (⟨j, hj, hjc⟩ | hk)
    · exact ⟨j, hj, by omega⟩
    · exact ⟨k, hk, Nat.le_refl k⟩

/-- Whose attempt is in flight and due at the instant of the batch is in the batch. -/
theorem isFlying_and_isDue (h : NextEnd es c k) {e : Entrant α} (he : e ∈ es) :
    (e.isFlying c && e.attempt.isDue (k / 3)) = e.endsAt k := by
  have hlt := h.lt
  have hquiet := h.quiet e he
  have hdue : e.attempt.isDue (k / 3) = true ↔ ∃ f, e.finish? = some f ∧ f ≤ k / 3 := by
    simp only [Attempt.isDue, Option.any_eq_true, decide_eq_true_eq]
    rfl
  rw [Bool.eq_iff_iff, Bool.and_eq_true, Entrant.isFlying_iff, hdue, Entrant.endsAt_iff]
  constructor
  · rintro ⟨⟨hs, hf⟩, f, hfin, hle⟩
    obtain ⟨d, hd, rfl⟩ := Option.map_eq_some_iff.1 hfin
    have hj : e.endTick? = some (3 * (e.start + d) + if d = 0 then 2 else 0) :=
      Entrant.endTick?_eq_some_iff.2 ⟨d, hd, rfl⟩
    have hcj := hf _ hj
    have hjk := hquiet.2 _ hj
    have hmod := h.mod_ne_one
    rw [hj, Option.some.injEq]
    simp only [Entrant.startTick] at hs
    by_cases h0 : d = 0
    · simp only [h0, if_true] at hcj hjk ⊢
      omega
    · simp only [h0, if_false] at hcj hjk ⊢
      omega
  · intro hk
    have hs := Entrant.startTick_lt hk
    refine ⟨⟨hquiet.1 (by omega), fun j hj => ?_⟩, k / 3, (Entrant.finish?_of_endTick? hk).1,
      Nat.le_refl _⟩
    rw [hk, Option.some.injEq] at hj
    omega

end NextEnd

theorem batch_eq (h : NextEnd es c k) :
    ((es.filter (·.isFlying c)).map (·.attempt)).filter (·.isDue (k / 3))
      = (es.filter (·.endsAt k)).map (·.attempt) := by
  rw [List.filter_map, List.filter_filter]
  refine congrArg _ (List.filter_congr fun e he => ?_)
  rw [Function.comp_apply, Bool.and_comm, h.isFlying_and_isDue he]

theorem rest_eq (h : NextEnd es c k) :
    (((es.filter (·.isFlying c)).map (·.attempt)).filter fun a => !a.isDue (k / 3))
      = (es.filter (·.isFlying k)).map (·.attempt) := by
  rw [List.filter_map, List.filter_filter]
  refine congrArg _ (List.filter_congr fun e he => ?_)
  have hdue := h.isFlying_and_isDue he
  rw [Function.comp_apply, Entrant.isFlying, Entrant.isFlying, h.hasStarted_eq he,
    h.hasEnded_eq he, ← hdue, Entrant.isFlying]
  cases e.hasStarted c <;> cases e.hasEnded c <;> cases e.attempt.isDue (k / 3) <;> rfl

/-- The race after a batch that has left these slots. -/
def afterBatch (es : List (Entrant α)) (k : Nat) (slots : List (Option Failure)) : State α :=
  { snapshot es k with
    slots := slots
    events := (List.range k).flatMap (tickEvents es)
      ++ (failedAt es k).filterMap (·.failEvent? k) }

theorem startsAt_eq_nil (h : NextEnd es c k) : es.filter (·.startTick = k) = [] := by
  have hmod := h.mod_ne_one
  refine List.filter_eq_nil_iff.2 fun e _ he => ?_
  have hk := of_decide_eq_true he
  simp only [Entrant.startTick] at hk
  omega

theorem map_fall? (l : List (Entrant α)) (k : Nat) :
    ((l.filterMap (·.fall?)).map fun f =>
      (k / 3, Event.failed f.1.entrant.region f.1.entrant.index f.2))
      = l.filterMap (·.failEvent? k) := by
  rw [List.map_filterMap]
  refine congrArg (List.filterMap · l) (funext fun e => ?_)
  rw [Entrant.fall?, Entrant.failEvent?, Option.map_map]
  rfl

/-- **Handling a batch.**  The batch is recorded up to its first value, which wins. -/
theorem complete_snapshot (h : NextEnd es c k) :
    (snapshot es c).complete (k / 3)
      = (afterBatch es k
          (((failedAt es k).filterMap (·.fall?)).foldl State.recordFailure (snapshot es c).slots),
        (winnerAt? es k).bind fun w => w.value?.map (w.attempt, ·)) := by
  have hlt := h.lt
  have hk : k = (k - 1) + 1 := by omega
  have hbatch : (snapshot es c).inFlight.filter (·.isDue (k / 3))
      = (es.filter (·.endsAt k)).map (·.attempt) := batch_eq h
  have hrest : ((snapshot es c).inFlight.filter fun a => !a.isDue (k / 3))
      = (snapshot es k).inFlight := rest_eq h
  have hwaiting : (snapshot es c).waiting = (snapshot es k).waiting :=
    List.filter_congr fun e he => by rw [h.hasStarted_eq he]
  have hcalls : (snapshot es c).calls
        ++ ((es.filter (·.endsAt k)).map (·.attempt)).map (·.completed (k / 3))
      = (snapshot es k).calls := by
    have hquiet := Ordered.flatMap_range_of_nil (f := tickCalls es) (m := c + 1) (n := k) hlt
      fun j hcj hjk => h.quiet.tickCalls_eq_nil hcj (by omega)
    simp only [snapshot, List.range_succ (n := k), List.flatMap_append, List.flatMap_singleton,
      hquiet, tickCalls, List.map_map]
    rfl
  have hevents : (snapshot es c).events = (List.range k).flatMap (tickEvents es) :=
    (Ordered.flatMap_range_of_nil (f := tickEvents es) (m := c + 1) (n := k) hlt
      fun j hcj hjk => h.quiet.tickEvents_eq_nil hcj (by omega)).symm
  simp only [State.complete, hbatch, hrest, hwaiting, hcalls, hevents, settle_map_attempt,
    map_fall?, afterBatch, failedAt, winnerAt?]
  rfl

theorem length_slots_afterBatch (es : List (Entrant α)) (c k : Nat) :
    (((failedAt es k).filterMap (·.fall?)).foldl State.recordFailure (snapshot es c).slots).length
      = es.length := by
  rw [length_foldl_recordFailure, slots_snapshot, List.length_map]

/-- **A batch without a value** takes the race to the snapshot after its tick. -/
theorem complete_snapshot_of_no_value (hes : InOrder es) (h : NextEnd es c k)
    (hv : ∀ e ∈ es, e.endTick? = some k → e.value? = none) :
    (snapshot es c).complete (k / 3) = (snapshot es k, none) := by
  have hv' : ∀ e ∈ es.filter (·.endsAt k), e.value?.isNone = true := fun e he => by
    rw [Option.isNone_iff_eq_none]
    exact hv e (List.mem_filter.1 he).1 (Entrant.endsAt_iff.1 (List.mem_filter.1 he).2)
  have hfailed : failedAt es k = es.filter (·.endsAt k) := by
    rw [failedAt, Ordered.takeWhile_eq_filter]
    · exact List.filter_eq_self.2 hv'
    · exact List.pairwise_of_forall_mem_list fun a ha b _ _ => hv' a ha
  have hwinner : winnerAt? es k = none := List.find?_eq_none.2 fun e he => by
    have hnone := Option.isNone_iff_eq_none.1 (hv' e he)
    simp [hnone]
  have hslots : ((failedAt es k).filterMap (·.fall?)).foldl State.recordFailure
      (snapshot es c).slots = (snapshot es k).slots := by
    rw [hfailed, slots_snapshot, slots_snapshot, foldl_recordFailure hes]
    · refine List.map_congr_left fun e he => ?_
      have hany : (es.filter (·.endsAt k)).any (·.index = e.index) = e.endsAt k := by
        rw [Bool.eq_iff_iff, List.any_eq_true]
        constructor
        · rintro ⟨a, ha, hi⟩
          obtain ⟨ha, hk⟩ := List.mem_filter.1 ha
          rwa [hes.eq_of_index_eq he ha (of_decide_eq_true hi).symm]
        · exact fun hk => ⟨e, List.mem_filter.2 ⟨he, hk⟩, decide_eq_true rfl⟩
      rw [hany, h.hasEnded_eq he]
      cases e.endsAt k <;> cases e.hasEnded c <;> rfl
    · intro a ha
      obtain ⟨hmem, hk⟩ := List.mem_filter.1 ha
      exact ⟨hmem, Entrant.error?_isSome
        (Entrant.hasEnded_iff.2 ⟨k, Entrant.endsAt_iff.1 hk, Nat.le_refl k⟩)
        (Option.isNone_iff_eq_none.1 (hv' a ha))⟩
  have hevents : (List.range k).flatMap (tickEvents es)
        ++ (failedAt es k).filterMap (·.failEvent? k) = (snapshot es k).events := by
    have htick : tickEvents es k = (es.filter (·.endsAt k)).filterMap (·.failEvent? k) := by
      rw [tickEvents, startsAt_eq_nil h, List.map_nil, List.nil_append]
    rw [hfailed, events_snapshot, List.range_succ, List.flatMap_append, List.flatMap_singleton,
      htick]
  rw [complete_snapshot h, hwinner, hslots, afterBatch, hevents]
  rfl

end Race
end Hedging
