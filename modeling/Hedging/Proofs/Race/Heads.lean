import Hedging.Proofs.Race.Attempts

/-!
# The heads of the loop

The loop of a race goes from head to head: it launches whoever is due, waits for a turn, and
what the turn leaves is the next head (`State.Onward`).  `Head` are the states that it comes to,
and the race ends with a turn after the last of them (`exists_last_head`).

At every head the race is at a snapshot by which no success has ended (`Head.exists_snapshot`),
before or after the starts of an instant.  A snapshot accounts for each place
(`accounted_snapshot`): `State.next` parts those that have been launched from those that wait,
and of the launched ones each is in flight, once, or has its failure in its slot.
-/

namespace Hedging
namespace Race

variable {α : Type} {es : List (Entrant α)} {c k : Nat} {deadline : Option Nat}

/-! ### From head to head -/

namespace State

/-- The place of the next start: the entrants in front of it have been launched. -/
def next (s : State α) : Nat := s.slots.length - s.waiting.length

/-- The attempts in flight to the region at a place. -/
def flights (s : State α) (i : Nat) : List (Attempt α) := s.inFlight.filter (·.entrant.index = i)

/-- What a turn leaves where the race goes on, before anybody else is launched. -/
inductive Onward (deadline : Option Nat) (s : State α) : State α → Prop
  /-- A batch without a success has ended. -/
  | ended {time : Nat} (turn : s.turn = .complete time)
      (inTime : Report.isLate deadline time = false) (noWinner : (s.complete time).2 = none) :
      Onward deadline s (s.complete time).1
  /-- A start has fallen due. -/
  | due {time : Nat} (turn : s.turn = .start time)
      (inTime : Report.isLate deadline time = false) : Onward deadline s { s with clock := time }

/-- A step that does not end the race is a turn and a launch. -/
theorem step_eq_again_iff {s s' : State α} :
    s.step deadline = .again s' ↔ ∃ head, s.Onward deadline head ∧ head.launch = s' := by
  constructor
  · intro h
    unfold step at h
    split at h
    · rename_i time hturn
      split at h
      · exact absurd h giveUp_ne_again
      · rename_i hlate
        split at h
        · cases h
        · rename_i hbatch
          refine ⟨_, .ended hturn (by simpa using hlate) (by rw [hbatch]), ?_⟩
          rw [hbatch]
          exact Progress.again.inj h
    · rename_i time hturn
      split at h
      · exact absurd h giveUp_ne_again
      · rename_i hlate
        exact ⟨_, .due hturn (by simpa using hlate), Progress.again.inj h⟩
    · cases h
    · exact absurd h giveUp_ne_again
  · rintro ⟨head, hturn, rfl⟩
    cases hturn with
    | ended turn inTime noWinner =>
      rename_i time
      rw [step, turn]
      cases hbatch : s.complete time with
      | mk s1 winner =>
        obtain rfl : winner = none := (congrArg Prod.snd hbatch).symm.trans noWinner
        simp only [inTime, hbatch, Bool.false_eq_true, if_false]
    | due turn inTime =>
      rw [step, turn]
      simp only [inTime, Bool.false_eq_true, if_false]

end State

/-- The states at the head of the loop of a race: the first one, and what each turn leaves. -/
inductive Head (es : List (Entrant α)) (deadline : Option Nat) : State α → Prop
  | first : Head es deadline (.ofEntrants es)
  | again {s s' : State α} (head : Head es deadline s) (onward : s.launch.Onward deadline s') :
      Head es deadline s'

/-- **A race ends with a turn after a head.** -/
theorem exists_last_head (es : List (Entrant α)) (deadline : Option Nat) :
    ∃ s s' v, Head es deadline s ∧ s.launch.step deadline = .over s' v ∧
      contest deadline es = s'.report v := by
  obtain ⟨s, hs, hover⟩ := run_of_invariant
    (P := fun s => ∃ head, Head es deadline head ∧ head.launch = s)
    (Q := fun s' v => ∃ head, Head es deadline head ∧ head.launch.step deadline = .over s' v)
    (fun s s' hs hagain => by
      obtain ⟨head, hhead, rfl⟩ := hs
      obtain ⟨head', honward, rfl⟩ := State.step_eq_again_iff.1 hagain
      exact ⟨head', .again hhead honward, rfl⟩)
    (fun s s' v hs hover => by
      obtain ⟨head, hhead, rfl⟩ := hs
      exact ⟨head, hhead, hover⟩)
    (State.ofEntrants es).launch ⟨_, .first, rfl⟩
  exact ⟨s, _, _, hs, hover, rfl⟩

/-! ### Heads are snapshots -/

/-- No attempt that has ended by a tick has a value. -/
def NoValueBy (es : List (Entrant α)) (c : Nat) : Prop :=
  ∀ e ∈ es, e.hasEnded c = true → e.value? = none

/-- The starts of an instant end nothing. -/
theorem NoValueBy.afterStarts (h : NoValueBy es k) : NoValueBy es (afterStarts k) := by
  intro e he hended
  refine h e he ?_
  unfold Race.afterStarts at hended
  split at hended
  · rename_i hk
    obtain ⟨time, rfl⟩ : ∃ time, k = 3 * time := ⟨k / 3, by omega⟩
    rwa [hasEnded_start] at hended
  · exact hended

/-- A batch that leaves no winner has no value. -/
theorem noValue_of_complete (h : NextEnd es c k)
    (noWinner : ((snapshot es c).complete (k / 3)).2 = none) :
    ∀ e ∈ es, e.endTick? = some k → e.value? = none := by
  intro e he hk
  rw [complete_snapshot h] at noWinner
  cases hw : winnerAt? es k with
  | none => exact value?_of_winnerAt?_none hw he hk
  | some w =>
    obtain ⟨v, hv⟩ := exists_value_of_winnerAt? hw
    rw [hw, Option.bind_some, hv] at noWinner
    cases noWinner

/-- **What a turn leaves is a snapshot** by which no success has ended. -/
theorem State.Onward.exists_snapshot (hes : InOrder es) (hv : NoValueBy es c) {s : State α}
    (h : (snapshot es c).Onward deadline s) : ∃ k, s = snapshot es k ∧ NoValueBy es k := by
  cases h with
  | ended turn inTime noWinner =>
    obtain ⟨k, rfl, hk⟩ := exists_nextEnd_of_turn hes turn
    have hnone := noValue_of_complete hk noWinner
    refine ⟨k, by rw [complete_snapshot_of_no_value hes hk hnone], fun e he hended => ?_⟩
    rw [hk.hasEnded_eq he, Bool.or_eq_true] at hended
    rcases hended with hbefore | hnow
    · exact hv e he hbefore
    · exact hnone e he (Entrant.endsAt_iff.1 hnow)
  | due turn inTime =>
    rename_i time
    have hnext := nextTick_of_turn hes turn
    have hlt := hnext.lt
    have hquiet := hnext.quiet.mono (j := 3 * time) (by omega)
    have hsnapshot := snapshot_of_quiet (by omega) hquiet
    rw [Nat.mul_div_cancel_left time (by omega)] at hsnapshot
    refine ⟨3 * time, hsnapshot.symm, fun e he hended => hv e he ?_⟩
    rwa [hquiet.hasEnded_eq (by omega) he] at hended

/-- **Every head is a snapshot** by which no success has ended. -/
theorem Head.exists_snapshot (hes : InOrder es) {s : State α} (h : Head es deadline s) :
    ∃ c, s = snapshot es c ∧ NoValueBy es c := by
  induction h with
  | first =>
    refine ⟨0, ofEntrants_eq_snapshot es, fun e _ hended => ?_⟩
    rw [hasEnded_zero] at hended
    cases hended
  | again _ onward ih =>
    obtain ⟨c, rfl, hv⟩ := ih
    rw [launch_snapshot_afterStarts hes] at onward
    exact onward.exists_snapshot hes hv.afterStarts

/-- A head is a snapshot after its launch too. -/
theorem Head.exists_launch_snapshot (hes : InOrder es) {s : State α} (h : Head es deadline s) :
    ∃ c, s.launch = snapshot es c ∧ NoValueBy es c := by
  obtain ⟨c, rfl, hv⟩ := h.exists_snapshot hes
  exact ⟨Race.afterStarts c, launch_snapshot_afterStarts hes c, hv.afterStarts⟩

/-! ### Where the next start stands -/

theorem pairwise_hasStarted (hes : InOrder es) (c : Nat) :
    es.Pairwise fun a b => b.hasStarted c = true → a.hasStarted c = true := by
  refine hes.sorted.imp fun {a b} hab hb => ?_
  rw [Entrant.hasStarted_iff] at hb ⊢
  simp only [Entrant.startTick] at hb ⊢
  omega

theorem next_snapshot (hes : InOrder es) (c : Nat) :
    (snapshot es c).next = (es.filter (·.hasStarted c)).length := by
  have hcut : (es.filter (·.hasStarted c)).length + (es.filter (!·.hasStarted c)).length
      = es.length := by
    rw [← List.length_append, Ordered.filter_append_filter_not (pairwise_hasStarted hes c)]
  simp only [State.next, snapshot, List.length_map]
  omega

/-- Those that wait have the places from the next start on. -/
theorem waiting_snapshot (hes : InOrder es) (c : Nat) :
    (snapshot es c).waiting = es.drop (snapshot es c).next := by
  have hcut := Ordered.filter_append_filter_not (pairwise_hasStarted hes c)
  have hdrop := congrArg (List.drop (es.filter (·.hasStarted c)).length) hcut
  rw [List.drop_left] at hdrop
  rw [next_snapshot hes, ← hdrop]
  rfl

/-! ### Each place -/

section
variable (t : Thresholds) (regions : List Region) (script : Script α)

/-- The attempt to the region at a place is in flight, once, and its slot is empty. -/
def InFlight (s : State α) (i : Fin regions.length) : Prop :=
  s.flights i = [⟨entrantAt t regions script i, dueAt t regions i⟩] ∧ s.slots[i.val]? = some none

/-- The attempt to the region at a place is not in flight: it has failed, and its failure is in
its slot under the name of the region. -/
def IsRecorded (s : State α) (i : Fin regions.length) : Prop :=
  s.flights i = [] ∧ ∃ d m, played regions script i = .failure d m ∧
    s.slots[i.val]? = some (some ⟨regions.get i, m⟩)

/-- Each place of a race is accounted for, and no success has ended. -/
structure Accounted (s : State α) : Prop where
  /-- Each region has a slot. -/
  slots : s.slots.length = regions.length
  /-- Those that wait are all those from the next start on. -/
  waiting : s.waiting = (lineup t regions script).drop s.next
  /-- Each call that has ended is a failure. -/
  noSuccess : ∀ call ∈ s.calls, call.ending = .error
  /-- Whoever has been launched was due. -/
  wasDue : ∀ i : Fin regions.length, i < s.next → dueAt t regions i ≤ s.clock
  /-- Whoever has been launched is in flight or recorded; the two exclude each other. -/
  launched : ∀ i : Fin regions.length, i < s.next →
    InFlight t regions script s i ∨ IsRecorded regions script s i
  /-- Whoever has not been launched is neither. -/
  unlaunched : ∀ i : Fin regions.length, s.next ≤ i → s.flights i = [] ∧ s.slots[i.val]? = some none
  /-- Nothing else is in flight. -/
  inFlight : ∀ a ∈ s.inFlight, a.entrant.index < s.next

variable {t regions script}

theorem getElem?_lineup (i : Fin regions.length) :
    (lineup t regions script)[i.val]? = some (entrantAt t regions script i) := by
  rw [lineup_eq, List.getElem?_map, List.getElem?_eq_getElem (by simp), List.getElem_finRange]
  rfl

/-- In front of the next start stand those that have started. -/
theorem lt_next_snapshot_iff {i : Fin regions.length} :
    i < (snapshot (lineup t regions script) c).next ↔
      (entrantAt t regions script i).hasStarted c = true := by
  have hes := lineup_inOrder t regions script
  have hplace : (lineup t regions script)[i.val]? = some (entrantAt t regions script i) :=
    getElem?_lineup i
  obtain ⟨hi, hget⟩ := List.getElem?_eq_some_iff.1 hplace
  rw [next_snapshot hes, Ordered.lt_length_filter_iff (pairwise_hasStarted hes c) hi, hget]

theorem slots_snapshot_lineup (i : Fin regions.length) :
    (snapshot (lineup t regions script) c).slots[i.val]?
      = some (if (entrantAt t regions script i).hasEnded c
          then (entrantAt t regions script i).failure? else none) := by
  rw [slots_snapshot, List.getElem?_map, getElem?_lineup, Option.map_some]

/-- Nobody is in flight twice. -/
theorem flights_snapshot_lineup (i : Fin regions.length) :
    (snapshot (lineup t regions script) c).flights i
      = if (entrantAt t regions script i).isFlying c
        then [(entrantAt t regions script i).attempt] else [] := by
  have hplace : (lineup t regions script).filter (·.index = i.val)
      = [entrantAt t regions script i] := by
    have hmap := map_filter_lineup t regions script (p := (·.index = i.val)) (q := (· = i))
      (f := id) (fun j => decide_eq_decide.2 Fin.val_inj) fun _ _ => rfl
    rw [List.map_id] at hmap
    rw [hmap, List.filter_eq i, (List.nodup_finRange _).count, if_pos (List.mem_finRange i)]
    rfl
  have hflights : (snapshot (lineup t regions script) c).flights i
      = (((lineup t regions script).filter (·.index = i.val)).filter (·.isFlying c)).map
        (·.attempt) := by
    simp only [State.flights, snapshot, List.filter_map, List.filter_filter]
    refine congrArg _ (List.filter_congr fun e _ => ?_)
    exact Bool.and_comm _ _
  rw [hflights, hplace, List.filter_singleton]
  cases (entrantAt t regions script i).isFlying c <;> rfl

/-- Whoever has not ended has an empty slot. -/
theorem slots_of_not_hasEnded {i : Fin regions.length}
    (h : (entrantAt t regions script i).hasEnded c = false) :
    (snapshot (lineup t regions script) c).slots[i.val]? = some none := by
  rw [slots_snapshot_lineup, h]
  rfl

/-- **Whoever has started is in flight or recorded**, as long as no success has ended. -/
theorem inFlight_or_isRecorded (hv : NoValueBy (lineup t regions script) c)
    {i : Fin regions.length} (hs : (entrantAt t regions script i).hasStarted c = true) :
    InFlight t regions script (snapshot (lineup t regions script) c) i ∨
      IsRecorded regions script (snapshot (lineup t regions script) c) i := by
  cases hended : (entrantAt t regions script i).hasEnded c with
  | false =>
    refine .inl ⟨?_, slots_of_not_hasEnded hended⟩
    rw [flights_snapshot_lineup, Entrant.isFlying, hs, hended]
    rfl
  | true =>
    have hvalue := hv _ ((mem_lineup t regions script).2 ⟨i, rfl⟩) hended
    obtain ⟨m, hm⟩ := Option.isSome_iff_exists.1 (Entrant.error?_isSome hended hvalue)
    obtain ⟨d, hd⟩ : ∃ d, played regions script i = .failure d m := by
      unfold Entrant.error? entrantAt at hm
      cases hplayed : played regions script i <;> simp_all
    refine .inr ⟨?_, d, m, hd, ?_⟩
    · rw [flights_snapshot_lineup, Entrant.isFlying, hended, Bool.not_true, Bool.and_false]
      rfl
    · rw [slots_snapshot_lineup, hended, if_pos rfl, Entrant.failure?, hm]
      rfl

/-- **A snapshot by which no success has ended accounts for each place.** -/
theorem accounted_snapshot (hv : NoValueBy (lineup t regions script) c) :
    Accounted t regions script (snapshot (lineup t regions script) c) where
  slots := by rw [slots_snapshot, List.length_map, length_lineup]
  waiting := waiting_snapshot (lineup_inOrder t regions script) c
  noSuccess := by
    intro call hcall
    obtain ⟨e, he, hended, rfl⟩ := mem_calls_snapshot.1 hcall
    have hvalue := hv e he hended
    rw [Entrant.record, if_pos hended, Attempt.completed]
    unfold Entrant.value? at hvalue
    simp only [Entrant.attempt]
    cases ho : e.outcome <;> simp_all
  wasDue := by
    intro i hi
    have hs := Entrant.hasStarted_iff.1 (lt_next_snapshot_iff.1 hi)
    simp only [Entrant.startTick, entrantAt] at hs
    simp only [snapshot]
    omega
  launched := fun i hi => inFlight_or_isRecorded hv (lt_next_snapshot_iff.1 hi)
  unlaunched := by
    intro i hi
    have hs : ¬ (entrantAt t regions script i).hasStarted c = true :=
      fun hs => Nat.not_lt.2 hi (lt_next_snapshot_iff.2 hs)
    have hended : (entrantAt t regions script i).hasEnded c = false :=
      Bool.eq_false_iff.2 fun hended => hs (Entrant.hasStarted_of_hasEnded hended)
    refine ⟨?_, slots_of_not_hasEnded hended⟩
    rw [flights_snapshot_lineup, Entrant.isFlying, Bool.eq_false_iff.2 hs]
    rfl
  inFlight := by
    intro a ha
    obtain ⟨e, he, hflying, rfl⟩ := mem_inFlight_snapshot.1 ha
    obtain ⟨i, rfl⟩ := (mem_lineup t regions script).1 he
    exact lt_next_snapshot_iff.2 (Entrant.hasStarted_iff.2 (Entrant.isFlying_iff.1 hflying).1)

/-- **A launch leaves nobody behind who is due.** -/
theorem lt_next_launch_iff {i : Fin regions.length} :
    i < (snapshot (lineup t regions script) c).launch.next ↔
      dueAt t regions i ≤ (snapshot (lineup t regions script) c).clock := by
  rw [launch_snapshot_afterStarts (lineup_inOrder t regions script), lt_next_snapshot_iff,
    Entrant.hasStarted_iff]
  simp only [Entrant.startTick, entrantAt, snapshot, afterStarts]
  split <;> omega

end

/-! ### Writing the slots -/

/-- Each failure in turn goes to a slot that is there and is empty by then. -/
def FillsEmpty : List (Option Failure) → List (Attempt α × String) → Prop
  | _, [] => True
  | slots, f :: fs =>
    slots[f.1.entrant.index]? = some none ∧ FillsEmpty (State.recordFailure slots f) fs

/-- Failures of distinct places whose slots are empty do not meet. -/
theorem fillsEmpty_of_pairwise {slots : List (Option Failure)} {fs : List (Attempt α × String)}
    (hne : fs.Pairwise fun f g => f.1.entrant.index ≠ g.1.entrant.index)
    (hempty : ∀ f ∈ fs, slots[f.1.entrant.index]? = some none) : FillsEmpty slots fs := by
  induction fs generalizing slots with
  | nil => trivial
  | cons f fs ih =>
    obtain ⟨hf, hne⟩ := List.pairwise_cons.1 hne
    refine ⟨hempty f List.mem_cons_self, ih hne fun g hg => ?_⟩
    rw [State.recordFailure, List.getElem?_set_ne (hf g hg)]
    exact hempty g (List.mem_cons_of_mem _ hg)

/-- **A batch fills empty slots**, each once. -/
theorem fillsEmpty_of_turn (hes : InOrder es) {time : Nat}
    (turn : (snapshot es c).turn = .complete time) :
    FillsEmpty (snapshot es c).slots
      (settle ((snapshot es c).inFlight.filter (·.isDue time))).1 := by
  obtain ⟨k, rfl, hk⟩ := exists_nextEnd_of_turn hes turn
  have hbatch : (snapshot es c).inFlight.filter (·.isDue (k / 3))
      = (es.filter (·.endsAt k)).map (·.attempt) := batch_eq hk
  have hsub : (failedAt es k).Sublist es :=
    (List.takeWhile_sublist _).trans List.filter_sublist
  have hfall : ∀ {e : Entrant α} {f : Attempt α × String}, e.fall? = some f →
      f.1.entrant.index = e.index := by
    intro e f hf
    obtain ⟨m, -, rfl⟩ := Option.map_eq_some_iff.1 hf
    rfl
  rw [hbatch, settle_map_attempt]
  refine fillsEmpty_of_pairwise ?_ fun f hf => ?_
  · refine (hes.pairwise_index.sublist hsub).filterMap _ fun e e' hlt f hf f' hf' => ?_
    rw [hfall hf, hfall hf']
    exact Nat.ne_of_lt hlt
  · obtain ⟨e, he, hf⟩ := List.mem_filterMap.1 hf
    have hends := (List.mem_filter.1 ((List.takeWhile_sublist _).subset he)).2
    have hnot : e.hasEnded c = false := hasEnded_eq_false_of_lt fun j hj => by
      rw [Entrant.endsAt_iff.1 hends] at hj
      exact Option.some.inj hj ▸ hk.lt
    rw [hfall hf, slots_snapshot, List.getElem?_map, hes.getElem?_index (hsub.subset he),
      Option.map_some, hnot]
    rfl

/-! ### The invariant -/

section
variable {t : Thresholds} {regions : List Region} {script : Script α}

/-- **Nobody is missing when the race is exhausted.** -/
theorem Accounted.of_exhausted {s : State α} (h : Accounted t regions script s)
    (turn : s.turn = .exhausted) :
    s.next = regions.length ∧ ∀ i : Fin regions.length, IsRecorded regions script s i := by
  obtain ⟨hflight, hwaiting⟩ := State.turn_eq_exhausted_iff.1 turn
  have hnext : s.next = regions.length := by
    rw [State.next, hwaiting, h.slots]
    rfl
  refine ⟨hnext, fun i => (h.launched i (by omega)).resolve_left fun hi => ?_⟩
  have hnone : s.flights i = [] := by rw [State.flights, hflight, List.filter_nil]
  rw [hi.1] at hnone
  cases hnone

end

/-- **The loop of a race keeps account of each place.**  A race of two or more regions goes from
head to head and ends with a turn after the last.  At each head, and after its launch, no success
has ended; each place in front of the next start was due, and its attempt is in flight once or its
failure is in its slot; each place from there on is untouched.  The launch leaves nobody behind
who is due.  So a batch writes each of its failures to a slot that is there and empty, and when
the race is exhausted all have been launched and every slot is filled. -/
theorem loop_keeps_account (t : Thresholds) (regions : List Region) (script : Script α)
    (h : 2 ≤ regions.length) (deadline : Option Nat) :
    (∃ s s' v, Head (lineup t regions script) deadline s ∧
      s.launch.step deadline = .over s' v ∧ run t regions script deadline = s'.report v) ∧
    ∀ s, Head (lineup t regions script) deadline s →
      Accounted t regions script s ∧ Accounted t regions script s.launch ∧
      (∀ i : Fin regions.length, i < s.launch.next ↔ dueAt t regions i ≤ s.clock) ∧
      (∀ time, s.launch.turn = .complete time →
        FillsEmpty s.launch.slots (settle (s.launch.inFlight.filter (·.isDue time))).1) ∧
      (s.launch.turn = .exhausted → s.launch.next = regions.length ∧
        ∀ i : Fin regions.length, IsRecorded regions script s.launch i) := by
  have hes := lineup_inOrder t regions script
  constructor
  · rw [run_eq_contest h]
    exact exists_last_head _ deadline
  · intro s hs
    obtain ⟨c, rfl, hv⟩ := hs.exists_snapshot hes
    have hlaunch := launch_snapshot_afterStarts hes c
    have haccount : Accounted t regions script (snapshot (lineup t regions script) c).launch := by
      rw [hlaunch]
      exact accounted_snapshot hv.afterStarts
    refine ⟨accounted_snapshot hv, haccount, fun i => lt_next_launch_iff, fun time turn => ?_,
      haccount.of_exhausted⟩
    rw [hlaunch] at turn ⊢
    exact fillsEmpty_of_turn hes turn

/-- Two of three regions fail at one instant, before the third is due: at the head after that both
failures are in their slots, and the third place is untouched. -/
theorem loop_keeps_account_of_three :
    let regions : List Region := [⟨"a"⟩, ⟨"b"⟩, ⟨"c"⟩]
    let script : Script String := fun r _ =>
      if r.name = "a" then .failure 550 "busy"
      else if r.name = "b" then .failure 50 "lost" else .success 60 r.name
    let begin : State String := .ofEntrants (lineup .standard regions script)
    let due : State String := { begin.launch with clock := 500 }
    let ended : State String := (due.launch.complete 550).1
    2 ≤ regions.length ∧ Head (lineup .standard regions script) none ended ∧
      ended.clock = 550 ∧ ended.next = 2 ∧
      ended.slots = [some ⟨⟨"a"⟩, "busy"⟩, some ⟨⟨"b"⟩, "lost"⟩, none] ∧
      Accounted .standard regions script ended ∧
      Accounted .standard regions script ended.launch := by
  intro regions script begin due ended
  have hlength : 2 ≤ regions.length := by decide
  have hdue : begin.launch.turn = .start 500 := by decide +kernel
  have hended : due.launch.turn = .complete 550 := by decide +kernel
  have hnone : (due.launch.complete 550).2 = none := by decide +kernel
  have hhead : Head (lineup .standard regions script) none ended :=
    .again (.again .first (.due hdue rfl)) (.ended hended rfl hnone)
  obtain ⟨hbefore, hafter, -⟩ :=
    (loop_keeps_account .standard regions script hlength none).2 ended hhead
  exact ⟨hlength, hhead, by decide +kernel, by decide +kernel, by decide +kernel, hbefore, hafter⟩

end Race
end Hedging
