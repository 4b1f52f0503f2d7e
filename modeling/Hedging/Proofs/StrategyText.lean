import Hedging.Proofs.Json.Integer
import Hedging.Proofs.Sources

/-!
# The text of a strategy determines it

The text of an active strategy holds its waits in milliseconds, rounded down, as two decimal
numbers.  A number is told from what follows it (`Json.Numeral.toDigits_append_inj`), so the text
determines both numbers of milliseconds (`Strategy.waitsText_eq_iff`); and the waits of thresholds
are whole milliseconds, so these determine the waits (`Duration.eq_of_toMillis_eq`) and the
strategy (`Strategy.text_determines_strategy`).
-/

namespace Hedging

namespace Duration

/-- The span is a whole number of milliseconds. -/
def IsWhole (d : Duration) : Prop := d.toNanos = d.toMillis * 1000000

theorem isWhole_ofMillis {n : Nat} (h : n < 1000 * 0x10000000000000000) :
    (ofMillis n h).IsWhole := by
  rw [IsWhole, toNanos_ofMillis, toMillis_ofMillis]

/-- Spans of whole milliseconds are known from their number. -/
theorem eq_of_toMillis_eq {d d' : Duration} (h : d.IsWhole) (h' : d'.IsWhole)
    (heq : d.toMillis = d'.toMillis) : d = d' := by
  apply toNanos_injective
  rw [h, h', heq]

end Duration

namespace Strategy

variable {t t' : Thresholds}

/-- How hedging after one wait and then another is reported: in milliseconds, rounded down. -/
def waitsText (first step : Duration) : String :=
  "cross-region hedging (threshold=" ++ toString first.toMillis ++ "ms, step="
    ++ toString step.toMillis ++ "ms)"

theorem text_active (t : Thresholds) : (active t).text = waitsText t.firstWait t.stepWait := by
  have hfirst : t.firstWait.toMillis = t.first := Duration.toMillis_ofMillis _
  have hstep : t.stepWait.toMillis = t.step := Duration.toMillis_ofMillis _
  unfold text waitsText
  rw [hfirst, hstep]

/-- Between the two numbers stands the unit of the first one. -/
theorem toList_waitsText (first step : Duration) :
    (waitsText first step).toList = 'c' :: ("ross-region hedging (threshold=".toList
      ++ (Nat.toDigits 10 first.toMillis ++ 'm' :: ("s, step=".toList
        ++ (Nat.toDigits 10 step.toMillis ++ 'm' :: "s)".toList)))) := by
  have hfront : "cross-region hedging (threshold=".toList
      = 'c' :: "ross-region hedging (threshold=".toList := rfl
  have hmiddle : "ms, step=".toList = 'm' :: "s, step=".toList := rfl
  have hback : "ms)".toList = 'm' :: "s)".toList := rfl
  unfold waitsText
  simp only [String.toList_append, Json.toList_toString_nat, hfront, hmiddle, hback,
    List.append_assoc, List.cons_append]

/-- **The text determines both numbers of milliseconds**, and nothing else of the waits. -/
theorem waitsText_eq_iff {first step first' step' : Duration} :
    waitsText first step = waitsText first' step' ↔
      first.toMillis = first'.toMillis ∧ step.toMillis = step'.toMillis := by
  constructor
  · intro h
    have hlist := congrArg String.toList h
    rw [toList_waitsText, toList_waitsText] at hlist
    have hnumbers := List.append_cancel_left (List.cons.inj hlist).2
    obtain ⟨hfirst, hrest⟩ :=
      Json.Numeral.toDigits_append_inj (Json.ends_cons _) (Json.ends_cons _) hnumbers
    have hnumber := List.append_cancel_left (List.cons.inj hrest).2
    obtain ⟨hstep, -⟩ :=
      Json.Numeral.toDigits_append_inj (Json.ends_cons _) (Json.ends_cons _) hnumber
    exact ⟨hfirst, hstep⟩
  · rintro ⟨hfirst, hstep⟩
    unfold waitsText
    rw [hfirst, hstep]

theorem isWhole_firstWait (t : Thresholds) : t.firstWait.IsWhole := Duration.isWhole_ofMillis _

theorem isWhole_stepWait (t : Thresholds) : t.stepWait.IsWhole := Duration.isWhole_ofMillis _

/-- **The text of an active strategy determines both waits.** -/
theorem text_active_eq_iff :
    (active t).text = (active t').text ↔ t.firstWait = t'.firstWait ∧ t.stepWait = t'.stepWait := by
  rw [text_active, text_active, waitsText_eq_iff]
  constructor
  · rintro ⟨hfirst, hstep⟩
    exact ⟨Duration.eq_of_toMillis_eq (isWhole_firstWait t) (isWhole_firstWait t') hfirst,
      Duration.eq_of_toMillis_eq (isWhole_stepWait t) (isWhole_stepWait t') hstep⟩
  · rintro ⟨hfirst, hstep⟩
    exact ⟨congrArg _ hfirst, congrArg _ hstep⟩

/-- Thresholds are known from their waits. -/
theorem eq_of_waits_eq (first : t.firstWait = t'.firstWait) (step : t.stepWait = t'.stepWait) :
    t = t' := by
  have hfirst := congrArg Duration.toMillis first
  have hstep := congrArg Duration.toMillis step
  simp only [Thresholds.firstWait, Thresholds.stepWait, Duration.toMillis_ofMillis] at hfirst hstep
  cases t
  cases t'
  simp only at hfirst hstep
  subst hfirst hstep
  rfl

/-- No strategy without thresholds has the text of one with them. -/
theorem text_active_ne {s : Strategy} (h : s.isActive = false) (t : Thresholds) :
    s.text ≠ (active t).text := by
  intro heq
  have hhead := congrArg (fun text => text.toList.head?) heq
  simp only [text_active, toList_waitsText, List.head?_cons] at hhead
  rcases s with - | - | t'
  · cases hhead
  · cases hhead
  · cases h

/-- **The text of a strategy determines it.**  Two strategies have the same text if and only if they
are the same; for active ones this is to say that both waits are the same, to the nanosecond.  The
text shows a wait in milliseconds, rounded down, so of any two spans it tells no more than these
numbers; but the waits of thresholds are whole milliseconds.  And all strategies there are come
from intents. -/
theorem text_determines_strategy :
    (∀ s s' : Strategy, s.text = s'.text ↔ s = s') ∧
    (∀ t t' : Thresholds, (active t).text = (active t').text ↔
      t.firstWait = t'.firstWait ∧ t.stepWait = t'.stepWait) ∧
    (∀ t : Thresholds, (active t).text = waitsText t.firstWait t.stepWait ∧
      t.firstWait.IsWhole ∧ t.stepWait.IsWhole) ∧
    (∀ first step first' step' : Duration, waitsText first step = waitsText first' step' ↔
      first.toMillis = first'.toMillis ∧ step.toMillis = step'.toMillis) ∧
    ∀ s : Strategy, ∃ raw, ofIntent raw = .ok s := by
  refine ⟨fun s s' => ⟨fun h => ?_, congrArg text⟩, fun _ _ => text_active_eq_iff,
    fun t => ⟨text_active t, isWhole_firstWait t, isWhole_stepWait t⟩,
    fun _ _ _ _ => waitsText_eq_iff, fun s => ⟨s.toIntent, ofIntent_toIntent s⟩⟩
  rcases s with - | - | t <;> rcases s' with - | - | t'
  case active.active =>
    obtain ⟨hfirst, hstep⟩ := text_active_eq_iff.1 h
    rw [eq_of_waits_eq hfirst hstep]
  case unset.active => exact absurd h (text_active_ne rfl t')
  case disabled.active => exact absurd h (text_active_ne rfl t')
  case active.unset => exact absurd h.symm (text_active_ne rfl t)
  case active.disabled => exact absurd h.symm (text_active_ne rfl t)
  case unset.disabled => exact absurd h (by decide)
  case disabled.unset => exact absurd h (by decide)
  case unset.unset => rfl
  case disabled.disabled => rfl

/-- A wait that is not whole would be reported as the whole milliseconds in it. -/
example : waitsText ⟨0, 1500000, by decide, by decide⟩ Duration.zero
    = waitsText ⟨0, 1000000, by decide, by decide⟩ Duration.zero :=
  waitsText_eq_iff.2 ⟨by decide, rfl⟩

end Strategy
end Hedging
