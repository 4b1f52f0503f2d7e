import Hedging.Proofs.Race.Decided

/-!
# What a victory leaves behind

The report of a victory at a tick says nothing of those who have not started by then
(`wonReport_filter_hasStarted`), and of those in flight it does not say how they would have
ended: two races whose entrants look alike by that tick have one report (`wonReport_map_eq`).
-/

namespace Hedging
namespace Race

variable {α : Type} {es : List (Entrant α)} {k : Nat}

/-! ### Those who have not started -/

theorem filter_filter_hasStarted {p : Entrant α → Bool}
    (h : ∀ e, p e = true → e.hasStarted k = true) :
    (es.filter (·.hasStarted k)).filter p = es.filter p := by
  rw [List.filter_filter]
  refine List.filter_congr fun e _ => ?_
  rw [Bool.eq_iff_iff, Bool.and_eq_true]
  exact ⟨fun hp => hp.1, fun hp => ⟨hp, h e hp⟩⟩

theorem hasStarted_of_endsAt {j : Nat} (hjk : j ≤ k) (e : Entrant α) (h : e.endsAt j = true) :
    e.hasStarted k = true :=
  Entrant.hasStarted_of_hasEnded (Entrant.hasEnded_iff.2 ⟨j, Entrant.endsAt_iff.1 h, hjk⟩)

theorem tickEvents_filter_hasStarted {j : Nat} (hjk : j ≤ k) :
    tickEvents (es.filter (·.hasStarted k)) j = tickEvents es j := by
  have hstarts : ∀ e : Entrant α, decide (e.startTick = j) = true → e.hasStarted k = true :=
    fun e he => Entrant.hasStarted_iff.2 (of_decide_eq_true he ▸ hjk)
  rw [tickEvents, tickEvents, filter_filter_hasStarted hstarts,
    filter_filter_hasStarted (hasStarted_of_endsAt hjk)]

theorem flyingCount_filter_hasStarted :
    flyingCount (es.filter (·.hasStarted k)) k = flyingCount es k := by
  have hflying : ∀ e : Entrant α, e.isFlying k = true → e.hasStarted k = true :=
    fun e he => Entrant.hasStarted_iff.2 (Entrant.isFlying_iff.1 he).1
  rw [flyingCount, flyingCount, filter_filter_hasStarted hflying]

/-- **The report of a victory says nothing of those who have not started.** -/
theorem wonReport_filter_hasStarted (es : List (Entrant α)) (w : Entrant α) (v : α) (k : Nat) :
    wonReport (es.filter (·.hasStarted k)) w v k = wonReport es w v k := by
  have hevents : (List.range k).flatMap (tickEvents (es.filter (·.hasStarted k)))
      = (List.range k).flatMap (tickEvents es) :=
    List.flatMap_congr fun j hj => tickEvents_filter_hasStarted (Nat.le_of_lt (List.mem_range.1 hj))
  have hfailed : failedAt (es.filter (·.hasStarted k)) k = failedAt es k := by
    rw [failedAt, failedAt, filter_filter_hasStarted (hasStarted_of_endsAt (Nat.le_refl k))]
  rw [wonReport, wonReport, winEvent, winEvent, flyingCount_filter_hasStarted, hevents, hfailed,
    filter_filter_hasStarted fun _ => id]

/-! ### Those who have not ended -/

/-- By tick `k` one entrant looks like the other: they have the same place and start, and have
ended alike or not at all. -/
structure AlikeBy (k : Nat) (e e' : Entrant α) : Prop where
  index : e'.index = e.index
  region : e'.region = e.region
  start : e'.start = e.start
  hasEnded : e'.hasEnded k = e.hasEnded k
  eq_of_hasEnded : e.hasEnded k = true → e' = e

theorem AlikeBy.refl (k : Nat) (e : Entrant α) : AlikeBy k e e := ⟨rfl, rfl, rfl, rfl, fun _ => rfl⟩

namespace AlikeBy

variable {e e' : Entrant α} (h : AlikeBy k e e')
include h

theorem startTick : e'.startTick = e.startTick := by
  rw [Entrant.startTick, Entrant.startTick, h.start]

theorem hasStarted (c : Nat) : e'.hasStarted c = e.hasStarted c := by
  rw [Entrant.hasStarted, Entrant.hasStarted, h.startTick]

theorem isFlying : e'.isFlying k = e.isFlying k := by
  rw [Entrant.isFlying, Entrant.isFlying, h.hasStarted, h.hasEnded]

theorem startEvent : e'.startEvent = e.startEvent := by
  rw [Entrant.startEvent, Entrant.startEvent, h.index, h.region, h.start]

theorem record : e'.record k = e.record k := by
  cases hended : e.hasEnded k with
  | true => rw [h.eq_of_hasEnded hended]
  | false =>
    have hended' : e'.hasEnded k = false := h.hasEnded.trans hended
    rw [Entrant.record, Entrant.record, hended, hended', if_neg Bool.false_ne_true,
      if_neg Bool.false_ne_true, Attempt.cancelled, Attempt.cancelled]
    simp only [Entrant.attempt, h.index, h.region, h.start]

/-- Whoever ends by the tick is the other. -/
theorem eq_of_endsAt {j : Nat} (hjk : j ≤ k) (hj : e.endsAt j = true) : e' = e :=
  h.eq_of_hasEnded (Entrant.hasEnded_iff.2 ⟨j, Entrant.endsAt_iff.1 hj, hjk⟩)

theorem endsAt {j : Nat} (hjk : j ≤ k) : e'.endsAt j = e.endsAt j := by
  rw [Bool.eq_iff_iff]
  constructor
  · intro hj
    have hended := Entrant.hasEnded_iff.2 ⟨j, Entrant.endsAt_iff.1 hj, hjk⟩
    rw [h.hasEnded] at hended
    rw [← h.eq_of_hasEnded hended]
    exact hj
  · intro hj
    rw [h.eq_of_endsAt hjk hj]
    exact hj

end AlikeBy

section
variable {ι : Type} {l : List ι} {f g : ι → Entrant α}

/-- What is made alike of those who pass alike is the same. -/
theorem map_filter_map_eq {β : Type} {p : Entrant α → Bool} {φ : Entrant α → β}
    (hp : ∀ i ∈ l, p (g i) = p (f i)) (hφ : ∀ i ∈ l, p (f i) = true → φ (g i) = φ (f i)) :
    ((l.map g).filter p).map φ = ((l.map f).filter p).map φ := by
  have hfilter : l.filter (p ∘ g) = l.filter (p ∘ f) := List.filter_congr hp
  rw [List.filter_map, List.filter_map, hfilter, List.map_map, List.map_map]
  refine List.map_congr_left fun i hi => ?_
  obtain ⟨hi, hpi⟩ := List.mem_filter.1 hi
  exact hφ i hi hpi

variable (h : ∀ i ∈ l, AlikeBy k (f i) (g i))
include h

theorem filter_endsAt_map_eq {j : Nat} (hjk : j ≤ k) :
    (l.map g).filter (·.endsAt j) = (l.map f).filter (·.endsAt j) := by
  have hmap := map_filter_map_eq (φ := id) (fun i hi => (h i hi).endsAt hjk)
    fun i hi hj => (h i hi).eq_of_endsAt hjk hj
  rwa [List.map_id, List.map_id] at hmap

theorem tickEvents_map_eq {j : Nat} (hjk : j ≤ k) :
    tickEvents (l.map g) j = tickEvents (l.map f) j := by
  have hstarts := map_filter_map_eq (p := (·.startTick = j))
    (fun i hi => by rw [(h i hi).startTick]) fun i hi _ => (h i hi).startEvent
  rw [tickEvents, tickEvents, hstarts, filter_endsAt_map_eq h hjk]

theorem flyingCount_map_eq : flyingCount (l.map g) k = flyingCount (l.map f) k := by
  have hflying := map_filter_map_eq (φ := (·.index)) (fun i hi => (h i hi).isFlying)
    fun i hi _ => (h i hi).index
  have hlength := congrArg List.length hflying
  rwa [List.length_map, List.length_map] at hlength

/-- **The report of a victory does not say how those in flight would have ended.** -/
theorem wonReport_map_eq (w : Entrant α) (v : α) :
    wonReport (l.map g) w v k = wonReport (l.map f) w v k := by
  have hcalls := map_filter_map_eq (fun i hi => (h i hi).hasStarted k)
    fun i hi _ => (h i hi).record
  have hevents : (List.range k).flatMap (tickEvents (l.map g))
      = (List.range k).flatMap (tickEvents (l.map f)) :=
    List.flatMap_congr fun j hj => tickEvents_map_eq h (Nat.le_of_lt (List.mem_range.1 hj))
  have hfailed : failedAt (l.map g) k = failedAt (l.map f) k := by
    rw [failedAt, failedAt, filter_endsAt_map_eq h (Nat.le_refl k)]
  rw [wonReport, wonReport, winEvent, winEvent, flyingCount_map_eq h, hevents, hfailed, hcalls]

end
end Race
end Hedging
