import Hedging.Duration
import Hedging.Strategy.Thresholds

/-!
# The schedule of a race

The first region starts at once, the second after the first threshold, and each
later one a step after the one before it.  An offset that does not fit into a
duration is the longest duration; no region starts later than the horizon of
thirty years.
-/

namespace Hedging
namespace Thresholds

/-- The wait before the second region. -/
def firstWait (t : Thresholds) : Duration :=
  Duration.ofMillis t.first (by have := t.first_lt; omega)

/-- The wait before each later region. -/
def stepWait (t : Thresholds) : Duration :=
  Duration.ofMillis t.step (by have := t.step_lt; omega)

/-- How long after the start of a race the region at index `i` is due; steps have 32 bits. -/
def startOffset (t : Thresholds) (i : Nat) : Duration :=
  if i = 0 then Duration.zero
  else if i - 1 < 0x100000000 then
    ((t.stepWait.mul? (i - 1)).bind (·.add? t.firstWait)).getD Duration.longest
  else Duration.longest

/-- The latest start of a region: thirty years of 365 days. -/
def horizon : Duration := Duration.ofSeconds (86400 * 365 * 30)

/-- The start of the region at index `i`, at the horizon at the latest. -/
def start (t : Thresholds) (i : Nat) : Duration := min (t.startOffset i) horizon

/-- The starts of `n` regions. -/
def schedule (t : Thresholds) (n : Nat) : List Duration := (List.range n).map t.start

/-- The starts of four regions, and that of one whose step does not fit into 32 bits. -/
example : (standard.schedule 4).map Duration.toMillis = [0, 500, 600, 700] ∧
    standard.startOffset 4294967297 = Duration.longest ∧
    standard.start 4294967297 = horizon := by
  decide +kernel

@[simp]
theorem length_schedule (t : Thresholds) (n : Nat) : (t.schedule n).length = n := by
  simp [schedule]

end Thresholds
end Hedging
