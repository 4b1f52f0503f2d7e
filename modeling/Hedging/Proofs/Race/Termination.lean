import Hedging.Proofs.Race.Heads
import Hedging.Proofs.Race.Winner

/-!
# How long a race goes on

The loop of a race has no counter.  What becomes less with each turn is its work (`State.work`):
a start and an end for each entrant that waits, and an end for each attempt in flight.  A start
that falls due leaves the work as it is, but the launch after it takes the first region that
waits (`NoValueBy.start_launches`); a batch takes at least one attempt from those in flight
(`State.length_inFlight_complete_lt`).  The launch before the first turn takes the first region,
so that a race of `n` regions goes on for fewer than `2 * n` turns (`HeadAfter.lt_of_lineup`), and
the turn after them is its last.

That turn comes.  The loop waits only where something is in flight or somebody is left to launch
(`State.turn_eq_exhausted_iff`), and for ever only where some attempt hangs and none
succeeds (`NoValueBy.turn_ne_stalled`).
-/

namespace Hedging
namespace Race

variable {α : Type} {es : List (Entrant α)} {deadline : Option Nat} {c m : Nat}

/-! ### Counting the turns -/

/-- The state at the head of the loop after so many turns. -/
inductive HeadAfter (es : List (Entrant α)) (deadline : Option Nat) : Nat → State α → Prop
  | first : HeadAfter es deadline 0 (.ofEntrants es)
  | again {m : Nat} {s s' : State α} (head : HeadAfter es deadline m s)
      (onward : s.launch.Onward deadline s') : HeadAfter es deadline (m + 1) s'

/-- Every head comes after some number of turns. -/
theorem head_iff_exists_headAfter {s : State α} :
    Head es deadline s ↔ ∃ m, HeadAfter es deadline m s := by
  constructor
  · intro h
    induction h with
    | first => exact ⟨0, .first⟩
    | again _ onward ih =>
      obtain ⟨m, hm⟩ := ih
      exact ⟨m + 1, .again hm onward⟩
  · rintro ⟨m, h⟩
    induction h with
    | first => exact .first
    | again _ onward ih => exact .again ih onward

/-- **Each turn takes from the work.** -/
theorem HeadAfter.work_launch_add_le {s : State α} (h : HeadAfter es deadline m s) :
    s.launch.work + m ≤ (State.ofEntrants es).launch.work := by
  induction h with
  | first => exact Nat.le_refl _
  | again _ onward ih =>
    have hlt := State.work_step_lt (State.step_eq_again_iff.2 ⟨_, onward, rfl⟩)
    omega

/-- The first launch takes from the work where somebody is due at once. -/
theorem work_launch_ofEntrants_lt {e : Entrant α} (he : es.head? = some e) (hstart : e.start = 0) :
    (State.ofEntrants es).launch.work < 2 * es.length := by
  have hnext : (State.ofEntrants es).nextStart? = some 0 := by
    rw [State.nextStart?, State.ofEntrants, he, Option.map_some, hstart]
  exact State.work_start_lt hnext

/-- **A race of `n` regions comes to its last head within `2 * n` turns.** -/
theorem HeadAfter.lt_of_lineup {t : Thresholds} {regions : List Region} {script : Script α}
    (hne : 0 < regions.length) {s : State α}
    (h : HeadAfter (lineup t regions script) deadline m s) : m < 2 * regions.length := by
  have hhead : (lineup t regions script).head? = some (entrantAt t regions script ⟨0, hne⟩) := by
    rw [List.head?_eq_getElem?]
    exact getElem?_lineup ⟨0, hne⟩
  have hstart : (entrantAt t regions script ⟨0, hne⟩).start = 0 :=
    (dueAt_eq t regions ⟨0, hne⟩).trans t.toMillis_start_zero
  have hfirst := work_launch_ofEntrants_lt hhead hstart
  have hwork := h.work_launch_add_le
  rw [length_lineup] at hfirst
  omega

/-! ### What each turn does -/

/-- **A batch takes at least one attempt** from those in flight. -/
theorem State.length_inFlight_complete_lt {s : State α} {time : Nat} (h : s.nextDue? = some time) :
    (s.complete time).1.inFlight.length < s.inFlight.length := by
  have hwork := work_complete_lt h
  simp only [work, complete] at hwork ⊢
  omega

section
variable {t : Thresholds} {regions : List Region} {script : Script α}

/-- **The last turn decides the race** where some attempt succeeds or none hangs: somebody wins or
every attempt fails. -/
theorem NoValueBy.verdict_of_over (hv : NoValueBy (lineup t regions script) c)
    (ends : (∃ i d v, played regions script i = .success d v) ∨
      ∀ i, played regions script i ≠ .hang) {s : State α} {v : Verdict α}
    (hover : (snapshot (lineup t regions script) c).step none = .over s v) :
    (∃ i r x, v = .won i r x) ∨ ∃ fs, v = .failed (.allFailed fs) := by
  have hturned := turned_step (lineup_inOrder t regions script) none c
  rw [hover] at hturned
  cases hturned with
  | won => exact .inl ⟨_, _, _, rfl⟩
  | exhausted => exact .inr ⟨_, rfl⟩
  | dropped hlimit => cases hlimit
  | unfinished _ _ ended hangs =>
    -- What ever ends has ended by now, a success too, which no state of the loop outlives.
    rcases ends with ⟨i, d, x, hi⟩ | hhang
    · exact absurd ⟨d, hi, rfl⟩ (not_succeedsAt_of_ended hv ended i (dueAt t regions i + d) x)
    · obtain ⟨e, he, hfinish⟩ := hangs
      obtain ⟨i, rfl⟩ := (mem_lineup t regions script).1 he
      exact absurd (finishAt?_eq_none_iff.1 hfinish) (hhang i)

/-- **The loop does not wait for ever** where some attempt succeeds or none hangs. -/
theorem NoValueBy.turn_ne_stalled (hv : NoValueBy (lineup t regions script) c)
    (ends : (∃ i d v, played regions script i = .success d v) ∨
      ∀ i, played regions script i ≠ .hang) :
    (snapshot (lineup t regions script) c).turn ≠ .stalled := by
  intro hstalled
  have hover : (snapshot (lineup t regions script) c).step none
      = .over (snapshot (lineup t regions script) c) .unfinished := by
    rw [State.step, hstalled]
    rfl
  rcases hv.verdict_of_over ends hover with ⟨_, _, _, hwon⟩ | ⟨_, hfailed⟩
  · cases hwon
  · cases hfailed

/-- Whoever is launched between two states that have the same slots is in flight. -/
theorem Accounted.inFlight_of_launched {s s' : State α} (h : Accounted t regions script s)
    (h' : Accounted t regions script s') (hslots : s'.slots = s.slots) {i : Fin regions.length}
    (hi : s.next ≤ i) (hi' : i < s'.next) : InFlight t regions script s' i := by
  refine (h'.launched i hi').resolve_right ?_
  rintro ⟨-, d, msg, -, hslot⟩
  rw [hslots, (h.unlaunched i hi).2] at hslot
  cases hslot

/-- A start falls due at the place of the next start. -/
theorem Accounted.exists_dueAt {s : State α} (h : Accounted t regions script s) {time : Nat}
    (hstart : s.nextStart? = some time) :
    ∃ i : Fin regions.length, i.val = s.next ∧ dueAt t regions i = time := by
  obtain ⟨e, he, rfl⟩ := Option.map_eq_some_iff.1 hstart
  rw [h.waiting, List.head?_drop] at he
  have hlt : s.next < regions.length := by
    rw [← length_lineup t regions script]
    exact (List.getElem?_eq_some_iff.1 he).1
  refine ⟨⟨s.next, hlt⟩, rfl, ?_⟩
  rw [getElem?_lineup ⟨s.next, hlt⟩] at he
  exact congrArg Entrant.start (Option.some.inj he)

/-- What the loop of a race gains by its next turn, which comes. -/
structure Advances (t : Thresholds) (regions : List Region) (script : Script α) (s : State α) :
    Prop where
  /-- A start falls due at the place of the next start, and the launch after it puts the attempt
  to the region there in flight. -/
  start : ∀ time, s.turn = .start time → ∃ i : Fin regions.length, i.val = s.next ∧
    dueAt t regions i = time ∧ s.flights i = [] ∧
    InFlight t regions script ({ s with clock := time } : State α).launch i
  /-- A batch takes at least one attempt from those in flight, and puts none there. -/
  complete : ∀ time, s.turn = .complete time →
    (s.complete time).1.inFlight.Sublist s.inFlight ∧
      (s.complete time).1.inFlight.length < s.inFlight.length
  /-- With nothing in flight and nobody left to launch the race does not wait. -/
  exhausted : s.turn = .exhausted ↔ s.inFlight = [] ∧ s.waiting = []
  /-- It does not wait for what never ends. -/
  stalled : s.turn ≠ .stalled

/-- **A start that falls due is followed by a launch** of the first region that waits. -/
theorem NoValueBy.start_launches (hv : NoValueBy (lineup t regions script) c) {s : State α}
    (hs : s = snapshot (lineup t regions script) c) {time : Nat} (hturn : s.turn = .start time) :
    ∃ i : Fin regions.length, i.val = s.next ∧ dueAt t regions i = time ∧ s.flights i = [] ∧
      InFlight t regions script ({ s with clock := time } : State α).launch i := by
  have honward : s.Onward none { s with clock := time } := .due hturn rfl
  subst hs
  have hes := lineup_inOrder t regions script
  have hbefore := accounted_snapshot hv
  obtain ⟨i, hi, hdue⟩ := hbefore.exists_dueAt (State.turn_start hturn)
  have hle := Nat.le_of_eq hi.symm
  refine ⟨i, hi, hdue, (hbefore.unlaunched i hle).1, ?_⟩
  -- The turn leaves a snapshot too, so that the launch after it accounts for each place.
  obtain ⟨k, hk, hv'⟩ := honward.exists_snapshot hes hv
  have hafter : Accounted t regions script
      (snapshot (lineup t regions script) k).launch := by
    rw [launch_snapshot_afterStarts hes]
    exact accounted_snapshot hv'.afterStarts
  have hclock : time = (snapshot (lineup t regions script) k).clock := congrArg State.clock hk
  have hslots : (snapshot (lineup t regions script) k).slots
      = (snapshot (lineup t regions script) c).slots := (congrArg State.slots hk).symm
  rw [hk]
  exact hbefore.inFlight_of_launched hafter hslots hle
    (lt_next_launch_iff.2 (Nat.le_of_eq (hdue.trans hclock)))

/-- **A race by which no success has ended advances**, unless it can wait for ever. -/
theorem NoValueBy.advances (hv : NoValueBy (lineup t regions script) c)
    (ends : (∃ i d v, played regions script i = .success d v) ∨
      ∀ i, played regions script i ≠ .hang) :
    Advances t regions script (snapshot (lineup t regions script) c) where
  start := fun _ hturn => hv.start_launches rfl hturn
  complete := fun _ hturn =>
    ⟨List.filter_sublist, State.length_inFlight_complete_lt (State.turn_complete hturn)⟩
  exhausted := State.turn_eq_exhausted_iff
  stalled := hv.turn_ne_stalled ends

end

/-- **The loop of a race ends within `2 * n` turns** for `n` regions, if some attempt succeeds or
none hangs.  After fewer than `2 * n` turns comes the one that ends the race, with a winner or with
the failures of all attempts.  At every head, and with any deadline, fewer than `2 * n` turns have
gone by; a start that falls due is followed by the launch of another region, a batch leaves fewer
attempts in flight, and the loop waits neither for nothing nor for ever. -/
theorem loop_ends_within_turns (t : Thresholds) (regions : List Region) (script : Script α)
    (h : 2 ≤ regions.length)
    (ends : (∃ i d v, played regions script i = .success d v) ∨
      ∀ i, played regions script i ≠ .hang) :
    (∃ m s s' v, m < 2 * regions.length ∧ HeadAfter (lineup t regions script) none m s ∧
      s.launch.step none = .over s' v ∧ run t regions script none = s'.report v ∧
      ((∃ i r x, v = .won i r x) ∨ ∃ fs, v = .failed (.allFailed fs))) ∧
    ∀ deadline m s, HeadAfter (lineup t regions script) deadline m s →
      m < 2 * regions.length ∧ Advances t regions script s.launch := by
  have hes := lineup_inOrder t regions script
  constructor
  · obtain ⟨s, s', v, hs, hover, hreport⟩ := exists_last_head (lineup t regions script) none
    obtain ⟨m, hm⟩ := head_iff_exists_headAfter.1 hs
    obtain ⟨c, hlaunch, hv⟩ := hs.exists_launch_snapshot hes
    rw [run_eq_contest h]
    exact ⟨m, s, s', v, hm.lt_of_lineup (by omega), hm, hover, hreport,
      hv.verdict_of_over ends (hlaunch ▸ hover)⟩
  · intro deadline m s hs
    obtain ⟨c, hlaunch, hv⟩ :=
      (head_iff_exists_headAfter.2 ⟨m, hs⟩).exists_launch_snapshot hes
    rw [hlaunch]
    exact ⟨hs.lt_of_lineup (by omega), hv.advances ends⟩

/-- One attempt hangs; the other two start together at the horizon, one fails and one wins in the
third turn.  Two regions that fail as soon as they start take four turns, which is the bound. -/
theorem loop_ends_within_turns_of_three :
    let t : Thresholds := { first := 946080000000, step := 100 }
    let regions : List Region := [⟨"a"⟩, ⟨"b"⟩, ⟨"c"⟩]
    let script : Script String := fun r _ =>
      if r.name = "a" then .hang
      else if r.name = "b" then .failure 0 "lost" else .success 60 r.name
    let begin : State String := .ofEntrants (lineup t regions script)
    let due : State String := { begin.launch with clock := 946080000000 }
    let ended : State String := (due.launch.complete 946080000000).1
    let failing : Script String := fun _ _ => .failure 0 "busy"
    2 ≤ regions.length ∧ (∃ i d v, played regions script i = .success d v) ∧
      due.launch.next = 3 ∧ HeadAfter (lineup t regions script) none 2 ended ∧
      (2 < 2 * regions.length ∧ Advances t regions script ended.launch) ∧
      (∃ m s s' v, m < 2 * regions.length ∧ HeadAfter (lineup t regions script) none m s ∧
        s.launch.step none = .over s' v ∧ run t regions script none = s'.report v ∧
        ((∃ i r x, v = .won i r x) ∨ ∃ fs, v = .failed (.allFailed fs))) ∧
      ∃ s, HeadAfter (lineup .standard [⟨"a"⟩, ⟨"b"⟩] failing) none 3 s ∧
        s.launch.turn = .exhausted := by
  intro t regions script begin due ended failing
  have hlength : 2 ≤ regions.length := by decide
  have hsuccess : ∃ i d v, played regions script i = .success d v :=
    ⟨2, 60, "c", by decide +kernel⟩
  have hdue : begin.launch.turn = .start 946080000000 := by decide +kernel
  have hended : due.launch.turn = .complete 946080000000 := by decide +kernel
  have hnone : (due.launch.complete 946080000000).2 = none := by decide +kernel
  have hhead : HeadAfter (lineup t regions script) none 2 ended :=
    .again (.again .first (.due hdue rfl)) (.ended hended rfl hnone)
  obtain ⟨hlast, hall⟩ := loop_ends_within_turns t regions script hlength (.inl hsuccess)
  refine ⟨hlength, hsuccess, by decide +kernel, hhead, hall none 2 ended hhead, hlast, ?_⟩
  let first : State String := .ofEntrants (lineup .standard [⟨"a"⟩, ⟨"b"⟩] failing)
  let second : State String := { (first.launch.complete 0).1.launch with clock := 500 }
  have hfirst : first.launch.turn = .complete 0 := by decide +kernel
  have hfirstNone : (first.launch.complete 0).2 = none := by decide +kernel
  have hstart : (first.launch.complete 0).1.launch.turn = .start 500 := by decide +kernel
  have hsecond : second.launch.turn = .complete 500 := by decide +kernel
  have hsecondNone : (second.launch.complete 500).2 = none := by decide +kernel
  exact ⟨_, .again (.again (.again .first (.ended hfirst rfl hfirstNone)) (.due hstart rfl))
    (.ended hsecond rfl hsecondNone), by decide +kernel⟩

end Race
end Hedging
