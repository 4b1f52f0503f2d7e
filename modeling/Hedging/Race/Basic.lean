import Hedging.Race.State

/-!
# Races

`run` sends an operation to a list of regions under a schedule and reports how it
ended.  A single region is tried without a schedule (`alone`) and without events;
two or more race (`contest`).
-/

namespace Hedging
namespace Race

variable {α : Type}

/-- Turns until the race is over. -/
def State.run (deadline : Option Nat) (s : State α) : State α × Verdict α :=
  match _h : s.step deadline with
  | .again s' => s'.run deadline
  | .over s' v => (s', v)
termination_by s.work
decreasing_by exact State.work_step_lt _h

/-- The calls in the order of the regions, which is that of their starts. -/
def State.callsInOrder (s : State α) : List Call :=
  (List.range s.slots.length).filterMap fun i => s.calls.find? (·.index = i)

/-- The report of a race that is over. -/
def State.report (s : State α) (v : Verdict α) : Report α :=
  ⟨v, s.clock, s.callsInOrder, s.events⟩

/-- A race of entrants from the start. -/
def contest (deadline : Option Nat) (es : List (Entrant α)) : Report α :=
  let (s, v) := (State.ofEntrants es).launch.run deadline
  s.report v

/-- A single attempt at once, without a schedule. -/
def alone (deadline : Option Nat) (r : Region) (o : Outcome α) : Report α :=
  match o, deadline with
  | .success d v, deadline =>
    if Report.isLate deadline d then dropped deadline
    else ⟨.won 0 r v, d, [⟨0, r, 0, d, .ok⟩], []⟩
  | .failure d e, deadline =>
    if Report.isLate deadline d then dropped deadline
    else ⟨.failed (.allFailed [⟨r, e⟩]), d, [⟨0, r, 0, d, .error⟩], []⟩
  | .hang, deadline => dropped deadline
where
  /-- The attempt is given up at the deadline, if there is one. -/
  dropped : Option Nat → Report α
    | some time => ⟨.dropped, time, [⟨0, r, 0, time, .cancelled⟩], []⟩
    | none => ⟨.unfinished, 0, [], []⟩

/-- Sends an operation to the regions, the first one at once and each later one when it is due. -/
def run (t : Thresholds) (regions : List Region) (script : Script α) (deadline : Option Nat) :
    Report α :=
  match regions with
  | [] => .immediate .noRegions
  | [r] => alone deadline r (script r 0)
  | _ => contest deadline (lineup t regions script)

/-- The first region fails early, the second one answers, and the third never starts. -/
example : run Thresholds.standard [⟨"a"⟩, ⟨"b"⟩, ⟨"c"⟩]
    (fun r _ => if r.name = "a" then .failure 50 "busy" else .success 60 r.name) none
      = ⟨.won 1 ⟨"b"⟩ "b", 560, [⟨0, ⟨"a"⟩, 0, 50, .error⟩, ⟨1, ⟨"b"⟩, 500, 560, .ok⟩],
        [(0, .started ⟨"a"⟩ 0 0), (50, .failed ⟨"a"⟩ 0 "busy"), (500, .started ⟨"b"⟩ 1 500),
          (560, .hedgeWon ⟨"b"⟩ 1 0 60)]⟩ := by
  decide +kernel

end Race
end Hedging
