import Hedging.Proofs.Race.Tick

/-!
# Launches

A race begins at the snapshot before all ticks (`ofEntrants_eq_snapshot`).  A launch
takes the snapshot before the starts of an instant to the one after them
(`launch_snapshot`), and does nothing after them (`launch_snapshot_self`).
-/

namespace Hedging
namespace Race

variable {α : Type} {es : List (Entrant α)} {c k : Nat}

/-- No attempt has ended by the tick before all starts. -/
theorem hasEnded_zero (e : Entrant α) : e.hasEnded 0 = false := by
  rw [← Bool.not_eq_true, Entrant.hasEnded_iff]
  rintro ⟨j, hj, hj0⟩
  have := Entrant.startTick_lt hj
  omega

theorem ofEntrants_eq_snapshot (es : List (Entrant α)) : State.ofEntrants es = snapshot es 0 := by
  have hstarted : ∀ e ∈ es, (!e.hasStarted 0) = true := fun e _ => by
    simp [Entrant.hasStarted, Entrant.startTick]
  have hflying : es.filter (·.isFlying 0) = [] := List.filter_eq_nil_iff.2 fun e he hf => by
    have := (Entrant.isFlying_iff.1 hf).1
    simp [Entrant.startTick] at this
  have hquiet : Quiet es 0 0 := fun e _ => ⟨id, fun _ _ => id⟩
  have hcalls : tickCalls es 0 = [] := List.eq_nil_iff_forall_not_mem.2 fun x hx => by
    obtain ⟨e, -, he, -⟩ := mem_tickCalls.1 hx
    have := Entrant.startTick_lt he
    omega
  have hends : es.filter (·.endsAt 0) = [] := List.filter_eq_nil_iff.2 fun e _ he => by
    have := Entrant.startTick_lt (Entrant.endsAt_iff.1 he)
    omega
  have hstarts : es.filter (·.startTick = 0) = [] := List.filter_eq_nil_iff.2 fun e _ he => by
    simp [Entrant.startTick] at he
  simp [State.ofEntrants, snapshot, List.filter_eq_self.2 hstarted, hasEnded_zero, hflying, hcalls,
    tickEvents, hends, hstarts]

theorem endsAt_start_eq_nil (es : List (Entrant α)) (time : Nat) :
    es.filter (·.endsAt (3 * time + 1)) = [] := by
  refine List.filter_eq_nil_iff.2 fun e _ he => ?_
  have := (Entrant.finish?_of_endTick? (Entrant.endsAt_iff.1 he)).2
  omega

theorem hasEnded_start (e : Entrant α) (time : Nat) :
    e.hasEnded (3 * time + 1) = e.hasEnded (3 * time) := by
  rw [Bool.eq_iff_iff, Entrant.hasEnded_iff, Entrant.hasEnded_iff]
  refine ⟨fun ⟨j, hj, hle⟩ => ⟨j, hj, ?_⟩, fun ⟨j, hj, hle⟩ => ⟨j, hj, by omega⟩⟩
  have := (Entrant.finish?_of_endTick? hj).2
  omega

theorem startTick_eq_iff {e : Entrant α} {time : Nat} :
    e.startTick = 3 * time + 1 ↔ e.start = time := by
  rw [Entrant.startTick]
  omega

theorem hasStarted_eq_false_iff {e : Entrant α} : e.hasStarted c = false ↔ c < e.startTick := by
  rw [← Bool.not_eq_true, Entrant.hasStarted_iff, Nat.not_le]

/-- A test for being due cuts those that wait in two. -/
theorem sorted_waiting (hes : InOrder es) (time : Nat) :
    (es.filter (!·.hasStarted c)).Pairwise fun a b =>
      decide (b.start ≤ time) = true → decide (a.start ≤ time) = true :=
  (hes.sorted.filter _).imp fun hab hb => decide_eq_true (Nat.le_trans hab (of_decide_eq_true hb))

theorem takeWhile_waiting (hes : InOrder es) (time : Nat) :
    (es.filter (!·.hasStarted (3 * time))).takeWhile (·.start ≤ time)
      = es.filter (·.startTick = 3 * time + 1) := by
  rw [Ordered.takeWhile_eq_filter (sorted_waiting hes time), List.filter_filter]
  refine List.filter_congr fun e _ => ?_
  rw [Bool.eq_iff_iff, Bool.and_eq_true, Bool.not_eq_true', hasStarted_eq_false_iff,
    decide_eq_true_eq, decide_eq_true_eq]
  simp only [Entrant.startTick]
  omega

theorem dropWhile_waiting (hes : InOrder es) (time : Nat) :
    (es.filter (!·.hasStarted (3 * time))).dropWhile (·.start ≤ time)
      = es.filter (!·.hasStarted (3 * time + 1)) := by
  rw [Ordered.dropWhile_eq_filter (sorted_waiting hes time), List.filter_filter]
  refine List.filter_congr fun e _ => ?_
  rw [Bool.eq_iff_iff, Bool.and_eq_true, Bool.not_eq_true', Bool.not_eq_true', Bool.not_eq_true',
    hasStarted_eq_false_iff, hasStarted_eq_false_iff, decide_eq_false_iff_not]
  simp only [Entrant.startTick]
  omega

/-- Those in flight before the starts of an instant stand in front of those that start then. -/
theorem filter_isFlying_start (hes : InOrder es) (time : Nat) :
    es.filter (·.isFlying (3 * time + 1))
      = es.filter (·.isFlying (3 * time)) ++ es.filter (·.startTick = 3 * time + 1) := by
  rw [← Ordered.filter_or_eq_append]
  · refine List.filter_congr fun e _ => ?_
    rw [Bool.eq_iff_iff, Bool.or_eq_true, Entrant.isFlying_iff, Entrant.isFlying_iff,
      decide_eq_true_eq]
    constructor
    · rintro ⟨hs, he⟩
      by_cases heq : e.startTick = 3 * time + 1
      · exact .inr heq
      · exact .inl ⟨by omega, fun j hj => by have := he j hj; omega⟩
    · rintro (⟨hs, he⟩ | heq)
      · refine ⟨by omega, fun j hj => ?_⟩
        have := he j hj
        have := (Entrant.finish?_of_endTick? hj).2
        omega
      · exact ⟨by omega, fun j hj => heq ▸ Entrant.startTick_lt hj⟩
  · intro e _ he
    have := (Entrant.isFlying_iff.1 he).1
    rw [decide_eq_false_iff_not]
    omega
  · refine hes.sorted.imp fun {a b} hab ha => ?_
    have ha := of_decide_eq_true ha
    rw [← Bool.not_eq_true, Entrant.isFlying_iff]
    rintro ⟨hb, -⟩
    simp only [Entrant.startTick] at ha hb
    omega

/-- **A launch starts those that are due at the instant**, and nobody else. -/
theorem launch_snapshot (hes : InOrder es) (time : Nat) :
    (snapshot es (3 * time)).launch = snapshot es (3 * time + 1) := by
  have hclock : 3 * time / 3 = time := by omega
  have hclock' : (3 * time + 1) / 3 = time := by omega
  have hstart : ∀ e ∈ es.filter (·.startTick = 3 * time + 1), e.start = time := fun e he =>
    startTick_eq_iff.1 (of_decide_eq_true (List.mem_filter.1 he).2)
  have hattempts : (es.filter (·.startTick = 3 * time + 1)).map (⟨·, time⟩)
      = (es.filter (·.startTick = 3 * time + 1)).map (·.attempt) :=
    List.map_congr_left fun e he => by rw [Entrant.attempt, hstart e he]
  have hevents : tickEvents es (3 * time + 1) = (es.filter (·.startTick = 3 * time + 1)).map
      fun e => (time, .started e.region e.index e.start) := by
    rw [tickEvents, endsAt_start_eq_nil, List.filterMap_nil, List.append_nil]
    exact List.map_congr_left fun e he => by rw [Entrant.startEvent, hstart e he]
  have hcalls : tickCalls es (3 * time + 1) = [] := by
    rw [tickCalls, endsAt_start_eq_nil, List.map_nil]
  simp only [State.launch, snapshot, hclock, hclock', takeWhile_waiting hes, dropWhile_waiting hes,
    filter_isFlying_start hes, List.map_append, hattempts, hasEnded_start,
    List.range_succ (n := 3 * time + 1), List.flatMap_append, List.flatMap_singleton, hevents,
    hcalls, List.append_nil]

/-- A launch does nothing where nobody is due. -/
theorem launch_eq_self {s : State α} (h : ∀ e ∈ s.waiting, s.clock < e.start) : s.launch = s := by
  obtain ⟨clock, waiting, inFlight, slots, calls, events⟩ := s
  cases waiting with
  | nil => simp [State.launch]
  | cons e rest =>
    have he : ¬ e.start ≤ clock := Nat.not_le.2 (h e List.mem_cons_self)
    simp [State.launch, he]

/-- After the starts of an instant nobody else is due at it. -/
theorem launch_snapshot_self (hc : c % 3 ≠ 0) : (snapshot es c).launch = snapshot es c := by
  refine launch_eq_self fun e he => ?_
  have hwaits := (List.mem_filter.1 he).2
  rw [Bool.not_eq_true', ← Bool.not_eq_true, Entrant.hasStarted_iff] at hwaits
  simp only [snapshot, Entrant.startTick] at hwaits ⊢
  omega

end Race
end Hedging
