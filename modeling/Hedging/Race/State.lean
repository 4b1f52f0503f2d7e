import Hedging.Race.Outcome
import Hedging.Race.Report
import Hedging.Strategy.Schedule

/-!
# The state of a race and its turns

A race has entrants that wait for their start and attempts that are in flight.
Each turn moves the clock to the next instant at which something happens.  Attempts
that end then are handled together, in the order of the regions: failures are
recorded in their slots until the first success, which wins.  Only when none ends
before or at that instant does a start fall due.  After a turn every entrant whose
start has come is launched.

`work_launch`, `work_complete_lt` and `work_step_lt` say that twice the entrants that
wait and the attempts in flight become fewer with each turn.
-/

namespace Hedging
namespace Race

/-- A region in a race: its place, its start and what its attempt will do. -/
structure Entrant (α : Type) where
  index : Nat
  region : Region
  start : Nat
  outcome : Outcome α
deriving DecidableEq, Repr

/-- An attempt in flight. -/
structure Attempt (α : Type) where
  entrant : Entrant α
  started : Nat
deriving DecidableEq, Repr

/-- A race at an instant. -/
structure State (α : Type) where
  clock : Nat := 0
  /-- Those whose start has not come, in order. -/
  waiting : List (Entrant α)
  /-- Those in flight, in order. -/
  inFlight : List (Attempt α) := []
  /-- For each region the failure of its attempt, if it has failed. -/
  slots : List (Option Failure)
  /-- The calls that have ended, in the order of their ends. -/
  calls : List Call := []
  events : List (Nat × Event) := []
deriving Repr

/-- What a race waits for. -/
inductive Turn where
  /-- An attempt in flight ends at this instant. -/
  | complete (time : Nat)
  /-- A start falls due at this instant. -/
  | start (time : Nat)
  /-- Nothing is in flight and nobody waits. -/
  | exhausted
  /-- Nobody waits and what is in flight never ends. -/
  | stalled
deriving DecidableEq, Repr

variable {α : Type}

/-- The entrants of a race, each with the outcome of its own attempt to its region. -/
def lineup (t : Thresholds) (regions : List Region) (script : Script α) : List (Entrant α) :=
  regions.zipIdx.map fun (r, i) =>
    ⟨i, r, (t.start i).toMillis, script r ((regions.take i).count r)⟩

namespace Attempt

/-- The instant at which the attempt ends, if it does. -/
def due? (a : Attempt α) : Option Nat := a.entrant.outcome.delay?.map (a.started + ·)

/-- Whether the attempt has ended by an instant. -/
def isDue (time : Nat) (a : Attempt α) : Bool := a.due?.any (· ≤ time)

/-- The record of an attempt that ends by itself. -/
def completed (time : Nat) (a : Attempt α) : Call :=
  ⟨a.entrant.index, a.entrant.region, a.started, time,
    match a.entrant.outcome with
    | .success .. => .ok
    | _ => .error⟩

/-- The record of an attempt that is given up. -/
def cancelled (time : Nat) (a : Attempt α) : Call :=
  ⟨a.entrant.index, a.entrant.region, a.started, time, .cancelled⟩

end Attempt

/-- The failures of a batch before its first success, and that success. -/
def settle : List (Attempt α) → List (Attempt α × String) × Option (Attempt α × α)
  | [] => ([], none)
  | a :: rest =>
    match a.entrant.outcome with
    | .success _ v => ([], some (a, v))
    | .failure _ e => ((a, e) :: (settle rest).1, (settle rest).2)
    | .hang => settle rest

namespace State

/-- The state before anybody starts. -/
def ofEntrants (es : List (Entrant α)) : State α where
  waiting := es
  slots := es.map fun _ => none

/-- Starts every entrant whose start has come. -/
def launch (s : State α) : State α :=
  let due := s.waiting.takeWhile (·.start ≤ s.clock)
  { s with
    waiting := s.waiting.dropWhile (·.start ≤ s.clock)
    inFlight := s.inFlight ++ due.map fun e => ⟨e, s.clock⟩
    events := s.events ++ due.map fun e => (s.clock, .started e.region e.index e.start) }

/-- The next instant at which an attempt in flight ends. -/
def nextDue? (s : State α) : Option Nat := (s.inFlight.filterMap (·.due?)).min?

/-- The next instant at which an entrant starts. -/
def nextStart? (s : State α) : Option Nat := s.waiting.head?.map (·.start)

/-- What the race waits for; an end comes before a start at the same instant. -/
def turn (s : State α) : Turn :=
  match s.nextDue?, s.nextStart? with
  | some d, some o => if d ≤ o then .complete d else .start o
  | some d, none => .complete d
  | none, some o => .start o
  | none, none => if s.inFlight.isEmpty then .exhausted else .stalled

/-- Records a failure in the slot of its region. -/
def recordFailure (slots : List (Option Failure)) (f : Attempt α × String) :
    List (Option Failure) :=
  slots.set f.1.entrant.index (some ⟨f.1.entrant.region, f.2⟩)

/-- Handles all attempts that have ended at an instant; gives the winner, if one succeeded. -/
def complete (s : State α) (time : Nat) : State α × Option (Attempt α × α) :=
  let batch := s.inFlight.filter (·.isDue time)
  let (failed, winner) := settle batch
  ({ s with
      clock := time
      inFlight := s.inFlight.filter fun a => !a.isDue time
      slots := failed.foldl recordFailure s.slots
      calls := s.calls ++ batch.map (·.completed time)
      events := s.events ++ failed.map fun (a, e) =>
        (time, .failed a.entrant.region a.entrant.index e) },
    winner)

/-- Gives up whatever is in flight. -/
def cancel (s : State α) (time : Nat) : State α :=
  { s with
    clock := time
    inFlight := []
    calls := s.calls ++ s.inFlight.map (·.cancelled time) }

/-- The event of a victory at the instant of the clock. -/
def victory (s : State α) (a : Attempt α) : Event :=
  if a.entrant.index = 0 then .primaryWon a.entrant.region s.inFlight.length
  else .hedgeWon a.entrant.region a.entrant.index s.inFlight.length (s.clock - a.started)

/-- The failures in the order of the regions. -/
def failures (s : State α) : List Failure := s.slots.filterMap id

/-- Adds an event at the instant of the clock. -/
def emit (s : State α) (e : Event) : State α := { s with events := s.events ++ [(s.clock, e)] }

/-- Whether the race is over after a turn, and how. -/
inductive Progress (α : Type) where
  | again (s : State α)
  | over (s : State α) (v : Verdict α)

/-- The end of a race at its deadline, if it has one. -/
def giveUp (deadline : Option Nat) (s : State α) : Progress α :=
  match deadline with
  | some time => .over (s.cancel time) .dropped
  | none => .over s .unfinished

/-- One turn.  What lies after the deadline does not happen. -/
def step (deadline : Option Nat) (s : State α) : Progress α :=
  match s.turn with
  | .complete time =>
    if Report.isLate deadline time then giveUp deadline s
    else
      match s.complete time with
      | (s, some (a, v)) =>
        .over ((s.emit (s.victory a)).cancel time) (.won a.entrant.index a.entrant.region v)
      | (s, none) => .again s.launch
  | .start time =>
    if Report.isLate deadline time then giveUp deadline s
    else .again { s with clock := time }.launch
  | .exhausted =>
    .over (s.emit (.allFailed s.failures.length)) (.failed (.allFailed s.failures))
  | .stalled => giveUp deadline s

/-- What remains to be done: a start and an end for each that waits, an end for each in flight. -/
def work (s : State α) : Nat := 2 * s.waiting.length + s.inFlight.length

theorem length_waiting_launch (s : State α) :
    (s.waiting.takeWhile (·.start ≤ s.clock)).length + s.launch.waiting.length
      = s.waiting.length := by
  rw [launch, ← List.length_append, List.takeWhile_append_dropWhile]

/-- Each launch takes one off the work. -/
theorem work_launch (s : State α) :
    s.launch.work + (s.waiting.takeWhile (·.start ≤ s.clock)).length = s.work := by
  have h := length_waiting_launch s
  have hf : s.launch.inFlight.length
      = s.inFlight.length + (s.waiting.takeWhile (·.start ≤ s.clock)).length := by
    simp [launch]
  unfold work
  omega

theorem nextDue?_mem {s : State α} {time : Nat} (h : s.nextDue? = some time) :
    ∃ a ∈ s.inFlight, a.due? = some time := by
  obtain ⟨a, ha, hd⟩ := List.mem_filterMap.1 (List.min?_mem h)
  exact ⟨a, ha, hd⟩

/-- Handling the attempts that end leaves fewer in flight. -/
theorem work_complete_lt {s : State α} {time : Nat} (h : s.nextDue? = some time) :
    (s.complete time).1.work < s.work := by
  obtain ⟨a, ha, hd⟩ := nextDue?_mem h
  have hlt : (s.inFlight.filter fun a => !a.isDue time).length < s.inFlight.length := by
    refine List.length_filter_lt_length_iff_exists.2 ⟨a, ha, ?_⟩
    simp [Attempt.isDue, hd]
  simp only [complete, work]
  omega

theorem turn_complete {s : State α} {time : Nat} (h : s.turn = .complete time) :
    s.nextDue? = some time := by
  unfold turn at h
  split at h <;> try split at h
  all_goals simp_all

theorem turn_start {s : State α} {time : Nat} (h : s.turn = .start time) :
    s.nextStart? = some time := by
  unfold turn at h
  split at h <;> try split at h
  all_goals simp_all

/-- Moving the clock to a start launches at least one entrant. -/
theorem work_start_lt {s : State α} {time : Nat} (h : s.nextStart? = some time) :
    ({ s with clock := time } : State α).launch.work < s.work := by
  simp only [nextStart?, Option.map_eq_some_iff] at h
  obtain ⟨e, he, rfl⟩ := h
  obtain ⟨es, hes⟩ := List.head?_eq_some_iff.1 he
  have hpos : 0 < (s.waiting.takeWhile (·.start ≤ e.start)).length := by simp [hes]
  have hw : ({ s with clock := e.start } : State α).launch.work
      + (s.waiting.takeWhile (·.start ≤ e.start)).length = s.work :=
    work_launch { s with clock := e.start }
  omega

theorem giveUp_ne_again {deadline : Option Nat} {s s' : State α} :
    giveUp deadline s ≠ .again s' := by
  unfold giveUp
  split <;> simp

/-- Each turn that does not end the race leaves less work. -/
theorem work_step_lt {deadline : Option Nat} {s s' : State α} (h : s.step deadline = .again s') :
    s'.work < s.work := by
  unfold step at h
  split at h
  · rename_i time hturn
    split at h
    · exact absurd h giveUp_ne_again
    · have hlt := work_complete_lt (turn_complete hturn)
      split at h
      · simp at h
      · rename_i s1 hc
        obtain rfl : s1.launch = s' := by simpa using h
        have hl := work_launch s1
        rw [hc] at hlt
        simp only at hlt
        omega
  · rename_i time hturn
    split at h
    · exact absurd h giveUp_ne_again
    · obtain rfl := Progress.again.inj h
      exact work_start_lt (turn_start hturn)
  · simp at h
  · exact absurd h giveUp_ne_again

end State
end Race
end Hedging
