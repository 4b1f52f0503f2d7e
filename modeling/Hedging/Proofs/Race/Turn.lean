import Hedging.Proofs.Race.Batch

/-!
# Turns

Before each turn the race is at a snapshot after the starts of an instant.  What it
waits for is the next tick of an entrant: `nextDue?_snapshot` and `nextStart?_snapshot`
say which ends and starts are left, and `turned_step` says all that a turn can do with
them.
-/

namespace Hedging
namespace Race

variable {α : Type} {es : List (Entrant α)} {c k : Nat} {deadline : Option Nat}

/-! ### What is left -/

theorem mem_inFlight_snapshot {a : Attempt α} :
    a ∈ (snapshot es c).inFlight ↔ ∃ e ∈ es, e.isFlying c = true ∧ e.attempt = a := by
  simp only [snapshot, List.mem_map, List.mem_filter, and_assoc]

theorem mem_waiting_snapshot {e : Entrant α} :
    e ∈ (snapshot es c).waiting ↔ e ∈ es ∧ c < e.startTick := by
  simp only [snapshot, List.mem_filter, Bool.not_eq_true', hasStarted_eq_false_iff]

/-- The next end is the earliest of those in flight. -/
theorem nextDue?_snapshot {d : Nat} (h : (snapshot es c).nextDue? = some d) :
    (∃ e ∈ es, e.isFlying c = true ∧ e.finish? = some d) ∧
      ∀ e ∈ es, e.isFlying c = true → ∀ f, e.finish? = some f → d ≤ f := by
  obtain ⟨hmem, hle⟩ := List.min?_eq_some_iff.1 h
  constructor
  · obtain ⟨a, ha, hd⟩ := List.mem_filterMap.1 hmem
    obtain ⟨e, he, hf, rfl⟩ := mem_inFlight_snapshot.1 ha
    exact ⟨e, he, hf, hd⟩
  · intro e he hf f hfin
    exact hle f (List.mem_filterMap.2 ⟨e.attempt, mem_inFlight_snapshot.2 ⟨e, he, hf, rfl⟩, hfin⟩)

theorem finish?_of_nextDue?_none (h : (snapshot es c).nextDue? = none) {e : Entrant α} (he : e ∈ es)
    (hf : e.isFlying c = true) : e.finish? = none :=
  List.filterMap_eq_nil_iff.1 (List.min?_eq_none_iff.1 h) e.attempt
    (mem_inFlight_snapshot.2 ⟨e, he, hf, rfl⟩)

/-- The next start is the earliest of those that wait, who stand in order. -/
theorem nextStart?_snapshot (hes : InOrder es) {o : Nat} (h : (snapshot es c).nextStart? = some o) :
    (∃ e ∈ es, c < e.startTick ∧ e.start = o) ∧ ∀ e ∈ es, c < e.startTick → o ≤ e.start := by
  obtain ⟨e, he, rfl⟩ := Option.map_eq_some_iff.1 h
  obtain ⟨rest, hrest⟩ := List.head?_eq_some_iff.1 he
  have hsorted : (snapshot es c).waiting.Pairwise (·.start ≤ ·.start) := hes.sorted.filter _
  have hmem : e ∈ (snapshot es c).waiting := by rw [hrest]; exact List.mem_cons_self
  obtain ⟨hes, hc⟩ := mem_waiting_snapshot.1 hmem
  refine ⟨⟨e, hes, hc, rfl⟩, fun b hb hcb => ?_⟩
  have hwaits : b ∈ (snapshot es c).waiting := mem_waiting_snapshot.2 ⟨hb, hcb⟩
  rw [hrest] at hwaits hsorted
  rcases List.mem_cons.1 hwaits with rfl | hwaits
  · exact Nat.le_refl _
  · exact (List.pairwise_cons.1 hsorted).1 b hwaits

theorem startTick_le_of_nextStart?_none (h : (snapshot es c).nextStart? = none) {e : Entrant α}
    (he : e ∈ es) : e.startTick ≤ c := by
  have hnil := List.head?_eq_none_iff.1 (Option.map_eq_none_iff.1 h)
  refine Nat.not_lt.1 fun hc => ?_
  have hmem : e ∈ (snapshot es c).waiting := mem_waiting_snapshot.2 ⟨he, hc⟩
  rw [hnil] at hmem
  exact List.not_mem_nil hmem

/-- What a race waits for, in terms of what is left. -/
theorem turn_spec (s : State α) :
    match s.turn with
    | .complete d => s.nextDue? = some d ∧ ∀ o, s.nextStart? = some o → d ≤ o
    | .start o => s.nextStart? = some o ∧ ∀ d, s.nextDue? = some d → o < d
    | .exhausted => s.nextStart? = none ∧ s.inFlight = []
    | .stalled => s.nextDue? = none ∧ s.nextStart? = none ∧ s.inFlight ≠ [] := by
  unfold State.turn
  cases hd : s.nextDue? with
  | some d =>
    cases ho : s.nextStart? with
    | some o =>
      by_cases hle : d ≤ o
      · simp [hle]
      · simp only [hle, if_false, true_and, Option.some.injEq]
        omega
    | none => simp
  | none =>
    cases ho : s.nextStart? with
    | some o => simp
    | none =>
      by_cases hf : s.inFlight = []
      · simp [hf]
      · simp [hf]

/-- The race is exhausted where nothing is in flight and nobody is left to launch. -/
theorem State.turn_eq_exhausted_iff {s : State α} :
    s.turn = .exhausted ↔ s.inFlight = [] ∧ s.waiting = [] := by
  constructor
  · intro h
    have hspec := turn_spec s
    rw [h] at hspec
    exact ⟨hspec.2, List.head?_eq_none_iff.1 (Option.map_eq_none_iff.1 hspec.1)⟩
  · rintro ⟨hflight, hwaiting⟩
    have hdue : s.nextDue? = none := by rw [nextDue?, hflight]; rfl
    have hstart : s.nextStart? = none := by rw [nextStart?, hwaiting]; rfl
    rw [turn, hdue, hstart, hflight]
    rfl

/-! ### What a turn does -/

/-- The next tick of an entrant after `c` is `k`. -/
structure NextTick (es : List (Entrant α)) (c k : Nat) : Prop where
  lt : c < k
  quiet : Quiet es c (k - 1)
  tick : ∃ e ∈ es, e.startTick = k ∨ e.endTick? = some k

/-- The tick after the starts of the instant of `k`, or `k` itself if it is later. -/
def afterStarts (k : Nat) : Nat := if k % 3 = 0 then k + 1 else k

/-- An instant is not after the deadline, if there is one. -/
def InTime (deadline : Option Nat) (time : Nat) : Prop :=
  ∀ limit, deadline = some limit → time ≤ limit

/-- What a turn of a race after tick `c` leads to. -/
inductive Turned (es : List (Entrant α)) (deadline : Option Nat) (c : Nat) :
    State.Progress α → Prop
  /-- Entrants start, or a batch without a value ends. -/
  | again {k : Nat} (next : NextTick es c k) (inTime : InTime deadline (k / 3))
      (noValue : ∀ e ∈ es, e.endTick? = some k → e.value? = none) :
      Turned es deadline c (.again (snapshot es (afterStarts k)))
  /-- A batch with a value ends. -/
  | won {k : Nat} {w : Entrant α} {v : α} {slots : List (Option Failure)}
      (next : NextEnd es c k) (inTime : InTime deadline (k / 3)) (first : winnerAt? es k = some w)
      (value : w.value? = some v) (length : slots.length = es.length) :
      Turned es deadline c (.over
        (((afterBatch es k slots).emit ((afterBatch es k slots).victory w.attempt)).cancel (k / 3))
        (.won w.index w.region v))
  /-- Every attempt has ended. -/
  | exhausted (ended : ∀ e ∈ es, e.hasEnded c = true) :
      Turned es deadline c (.over
        ((snapshot es c).emit (.allFailed (snapshot es c).failures.length))
        (.failed (.allFailed (snapshot es c).failures)))
  /-- The deadline comes before the next tick, and some attempt has not ended by then. -/
  | dropped {limit : Nat} (hlimit : deadline = some limit) (quiet : Quiet es c (3 * limit + 2))
      (unended : ∃ e ∈ es, e.hasEnded (3 * limit + 2) = false) :
      Turned es deadline c (.over ((snapshot es c).cancel limit) .dropped)
  /-- Some attempt never ends, and nothing else is left. -/
  | unfinished (noLimit : deadline = none) (started : ∀ e ∈ es, e.startTick ≤ c)
      (ended : ∀ e ∈ es, ∀ k, e.endTick? = some k → k ≤ c)
      (hangs : ∃ e ∈ es, e.finish? = none) :
      Turned es deadline c (.over (snapshot es c) .unfinished)

theorem isLate_eq_false_iff {time : Nat} :
    Report.isLate deadline time = false ↔ InTime deadline time := by
  cases deadline <;> simp [Report.isLate, InTime]

theorem exists_of_isLate {time : Nat} (h : Report.isLate deadline time = true) :
    ∃ limit, deadline = some limit ∧ limit < time := by
  simpa only [Report.isLate, Option.any_eq_true, decide_eq_true_eq] using h

theorem NextEnd.nextTick (h : NextEnd es c k) : NextTick es c k :=
  ⟨h.lt, h.quiet, h.ends.imp fun _ he => ⟨he.1, .inr he.2⟩⟩

theorem hasEnded_eq_false_of_lt {e : Entrant α} (h : ∀ j, e.endTick? = some j → c < j) :
    e.hasEnded c = false := by
  rw [← Bool.not_eq_true, Entrant.hasEnded_iff]
  rintro ⟨j, hj, hjc⟩
  have := h j hj
  omega

/-- **The next end.**  If an attempt in flight ends at instant `d` and nothing else comes before,
then its tick is the next one. -/
theorem exists_nextEnd {d : Nat} (hd : (snapshot es c).nextDue? = some d)
    (ho : ∀ e ∈ es, c < e.startTick → d ≤ e.start) : ∃ k, k / 3 = d ∧ NextEnd es c k := by
  obtain ⟨⟨e, he, hf, hfin⟩, hle⟩ := nextDue?_snapshot hd
  obtain ⟨k, hk, hkd⟩ := Entrant.exists_endTick? hfin
  obtain ⟨hs, hck⟩ := Entrant.isFlying_iff.1 hf
  have hck := hck k hk
  have hmod := (Entrant.finish?_of_endTick? hk).2
  have hk0 : k % 3 = 0 ∨ c = k - 1 := by
    obtain ⟨delay, -, hkdelay⟩ := Entrant.endTick?_eq_some_iff.1 hk
    simp only [Entrant.startTick] at hs
    split at hkdelay <;> omega
  refine ⟨k, hkd, hck, fun b hb => ?_, e, he, hk⟩
  have hstart : b.startTick ≤ k - 1 → b.startTick ≤ c := fun hbk => by
    refine Nat.not_lt.1 fun hcb => ?_
    have := ho b hb hcb
    simp only [Entrant.startTick] at hbk hcb
    omega
  refine ⟨hstart, fun j hj hjk => Nat.not_lt.1 fun hcj => ?_⟩
  have hsj := Entrant.startTick_lt hj
  have hflying : b.isFlying c = true := Entrant.isFlying_iff.2 ⟨hstart (by omega), fun i hi => by
    rw [hj, Option.some.injEq] at hi
    omega⟩
  have := hle b hb hflying _ (Entrant.finish?_of_endTick? hj).1
  have := (Entrant.finish?_of_endTick? hj).2
  omega

/-- **The next start.**  If an entrant starts at instant `o` and no attempt in flight ends by
then, then its tick is the next one. -/
theorem nextTick_of_nextStart? (hes : InOrder es) {o : Nat}
    (ho : (snapshot es c).nextStart? = some o)
    (hd : ∀ e ∈ es, e.isFlying c = true → ∀ f, e.finish? = some f → o < f) :
    NextTick es c (3 * o + 1) := by
  obtain ⟨⟨e, he, hce, heo⟩, hle⟩ := nextStart?_snapshot hes ho
  have hs := startTick_eq_iff.2 heo
  refine ⟨by omega, fun b hb => ?_, e, he, .inl hs⟩
  have hstart : b.startTick ≤ 3 * o + 1 - 1 → b.startTick ≤ c := fun hbk => by
    refine Nat.not_lt.1 fun hcb => ?_
    have := hle b hb hcb
    simp only [Entrant.startTick] at hbk
    omega
  refine ⟨hstart, fun j hj hjk => Nat.not_lt.1 fun hcj => ?_⟩
  have hsj := Entrant.startTick_lt hj
  have hflying : b.isFlying c = true := Entrant.isFlying_iff.2 ⟨hstart (by omega), fun i hi => by
    rw [hj, Option.some.injEq] at hi
    omega⟩
  have := hd b hb hflying _ (Entrant.finish?_of_endTick? hj).1
  omega

/-- A turn that waits for ends waits for those of the next tick. -/
theorem exists_nextEnd_of_turn (hes : InOrder es) {d : Nat}
    (h : (snapshot es c).turn = .complete d) : ∃ k, k / 3 = d ∧ NextEnd es c k := by
  have hspec := turn_spec (snapshot es c)
  rw [h] at hspec
  obtain ⟨hd, ho⟩ := hspec
  refine exists_nextEnd hd fun e he hce => ?_
  cases hnext : (snapshot es c).nextStart? with
  | none => exact absurd (startTick_le_of_nextStart?_none hnext he) (Nat.not_le.2 hce)
  | some o => exact Nat.le_trans (ho o hnext) ((nextStart?_snapshot hes hnext).2 e he hce)

/-- A turn that waits for a start waits for the next tick. -/
theorem nextTick_of_turn (hes : InOrder es) {o : Nat} (h : (snapshot es c).turn = .start o) :
    NextTick es c (3 * o + 1) := by
  have hspec := turn_spec (snapshot es c)
  rw [h] at hspec
  obtain ⟨ho, hd⟩ := hspec
  refine nextTick_of_nextStart? hes ho fun e he hf f hfin => ?_
  cases hnext : (snapshot es c).nextDue? with
  | none =>
    rw [finish?_of_nextDue?_none hnext he hf] at hfin
    exact absurd hfin (by simp)
  | some d => exact Nat.lt_of_lt_of_le (hd d hnext) ((nextDue?_snapshot hnext).2 e he hf f hfin)

theorem launch_snapshot_afterStarts (hes : InOrder es) (k : Nat) :
    (snapshot es k).launch = snapshot es (afterStarts k) := by
  unfold afterStarts
  split
  · rename_i hk
    have hk' : k = 3 * (k / 3) := by omega
    rw [hk', launch_snapshot hes]
  · rename_i hk
    exact launch_snapshot_self hk

theorem Quiet.mono (h : Quiet es c k) {j : Nat} (hjk : j ≤ k) : Quiet es c j := fun e he =>
  ⟨fun hs => (h e he).1 (Nat.le_trans hs hjk),
    fun i hi hij => (h e he).2 i hi (Nat.le_trans hij hjk)⟩

/-- A next tick after the deadline is never reached. -/
theorem turned_dropped (next : NextTick es c k) (h : Report.isLate deadline (k / 3) = true) :
    Turned es deadline c (State.giveUp deadline (snapshot es c)) := by
  obtain ⟨limit, rfl, hlt⟩ := exists_of_isLate h
  refine .dropped rfl (next.quiet.mono (by omega)) ?_
  obtain ⟨e, he, htick⟩ := next.tick
  refine ⟨e, he, hasEnded_eq_false_of_lt fun j hj => ?_⟩
  have hsj := Entrant.startTick_lt hj
  rcases htick with hk | hk
  · omega
  · rw [hj, Option.some.injEq] at hk
    omega

theorem turned_complete (hes : InOrder es) (h : NextEnd es c k) :
    Turned es deadline c
      (if Report.isLate deadline (k / 3) then State.giveUp deadline (snapshot es c)
      else match (snapshot es c).complete (k / 3) with
        | (s, some (a, v)) =>
          .over ((s.emit (s.victory a)).cancel (k / 3)) (.won a.entrant.index a.entrant.region v)
        | (s, none) => .again s.launch) := by
  cases hlate : Report.isLate deadline (k / 3) with
  | true => exact turned_dropped h.nextTick hlate
  | false =>
    have hin := isLate_eq_false_iff.1 hlate
    rw [if_neg Bool.false_ne_true]
    cases hw : winnerAt? es k with
    | none =>
      have hv : ∀ e ∈ es, e.endTick? = some k → e.value? = none :=
        fun _ he hk => value?_of_winnerAt?_none hw he hk
      rw [complete_snapshot_of_no_value hes h hv]
      have hagain : Turned es deadline c (.again (snapshot es (afterStarts k))) :=
        .again h.nextTick hin hv
      rwa [← launch_snapshot_afterStarts hes] at hagain
    | some w =>
      obtain ⟨v, hv⟩ := exists_value_of_winnerAt? hw
      rw [complete_snapshot h, hw, Option.bind_some, hv, Option.map_some]
      exact .won h hin hw hv (length_slots_afterBatch es c k)

theorem turned_start (hes : InOrder es) {o : Nat} (h : NextTick es c (3 * o + 1)) :
    Turned es deadline c (if Report.isLate deadline o then State.giveUp deadline (snapshot es c)
      else .again { snapshot es c with clock := o }.launch) := by
  have hlt := h.lt
  have ho : (3 * o + 1) / 3 = o := by omega
  cases hlate : Report.isLate deadline o with
  | true => exact turned_dropped h (by rw [ho, hlate])
  | false =>
    have hdiv : 3 * o / 3 = o := by omega
    have hclock : snapshot es (3 * o) = { snapshot es c with clock := 3 * o / 3 } :=
      snapshot_of_quiet (by omega) (h.quiet.mono (by omega))
    have hafter : afterStarts (3 * o + 1) = 3 * o + 1 := if_neg (by omega)
    have hin : InTime deadline ((3 * o + 1) / 3) := by
      rw [ho]
      exact isLate_eq_false_iff.1 hlate
    rw [hdiv] at hclock
    rw [if_neg Bool.false_ne_true, ← hclock, launch_snapshot hes]
    have hagain : Turned es deadline c (.again (snapshot es (afterStarts (3 * o + 1)))) := by
      refine .again h hin fun e _ hk => ?_
      have := (Entrant.finish?_of_endTick? hk).2
      omega
    rwa [hafter] at hagain

theorem turned_exhausted (ho : (snapshot es c).nextStart? = none)
    (hf : (snapshot es c).inFlight = []) : ∀ e ∈ es, e.hasEnded c = true := by
  intro e he
  refine (Bool.not_eq_false _).mp fun hn => ?_
  have hflying : e.isFlying c = true := by
    rw [Entrant.isFlying, Entrant.hasStarted_iff.2 (startTick_le_of_nextStart?_none ho he), hn]
    rfl
  have hmem := mem_inFlight_snapshot.2 ⟨e, he, hflying, rfl⟩
  rw [hf] at hmem
  exact List.not_mem_nil hmem

theorem turned_stalled (hd : (snapshot es c).nextDue? = none)
    (ho : (snapshot es c).nextStart? = none) (hf : (snapshot es c).inFlight ≠ []) :
    Turned es deadline c (State.giveUp deadline (snapshot es c)) := by
  have hstarted : ∀ e ∈ es, e.startTick ≤ c := fun e he => startTick_le_of_nextStart?_none ho he
  have hended : ∀ e ∈ es, ∀ k, e.endTick? = some k → k ≤ c := fun e he k hk => by
    refine Nat.not_lt.1 fun hck => ?_
    have hflying : e.isFlying c = true := Entrant.isFlying_iff.2 ⟨hstarted e he, fun j hj => by
      rw [hk, Option.some.injEq] at hj
      omega⟩
    have hnone := finish?_of_nextDue?_none hd he hflying
    rw [(Entrant.finish?_of_endTick? hk).1] at hnone
    exact absurd hnone (by simp)
  obtain ⟨a, ha⟩ := List.exists_mem_of_ne_nil _ hf
  obtain ⟨e, he, hflying, -⟩ := mem_inFlight_snapshot.1 ha
  have hhang := finish?_of_nextDue?_none hd he hflying
  cases deadline with
  | none => exact .unfinished rfl hstarted hended ⟨e, he, hhang⟩
  | some limit =>
    refine .dropped rfl (fun b hb => ⟨fun _ => hstarted b hb, fun j hj _ => hended b hb j hj⟩)
      ⟨e, he, hasEnded_eq_false_of_lt fun j hj => ?_⟩
    rw [(Entrant.finish?_of_endTick? hj).1] at hhang
    exact absurd hhang (by simp)

/-- **All that a turn can do.** -/
theorem turned_step (hes : InOrder es) (deadline : Option Nat) (c : Nat) :
    Turned es deadline c ((snapshot es c).step deadline) := by
  have hspec := turn_spec (snapshot es c)
  unfold State.step
  cases hturn : (snapshot es c).turn with
  | complete d =>
    obtain ⟨k, rfl, hk⟩ := exists_nextEnd_of_turn hes hturn
    exact turned_complete hes hk
  | start o => exact turned_start hes (nextTick_of_turn hes hturn)
  | exhausted =>
    rw [hturn] at hspec
    exact .exhausted (turned_exhausted hspec.1 hspec.2)
  | stalled =>
    rw [hturn] at hspec
    exact turned_stalled hspec.1 hspec.2.1 hspec.2.2

end Race
end Hedging
