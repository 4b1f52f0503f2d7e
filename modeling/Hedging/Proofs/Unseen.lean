import Hedging.Proofs.Race.Trace
import Hedging.Proofs.Session

/-!
# What an operation does not see

An operation that is won sees the attempts that end by its victory, of those that it gives up
that they do not, and nothing of the attempts that it never makes.  So it cannot tell two
scripts apart which differ only where it does not look (`SameSeen`): their entrants look alike
by the tick of the victory (`SameSeen.alikeBy`), the same one wins (`Wins.of_alikeBy`), and
the whole report is the same (`run_eq_of_sameSeen`).
-/

namespace Hedging

variable {α : Type}

namespace Race

/-- An operation that leaves the report under the script `a` cannot tell the script `b` from it.
Attempts that it does not make may play anything. -/
structure SameSeen (t : Thresholds) (regions : List Region) (a b : Script α) (report : Report α) :
    Prop where
  /-- An attempt that ends by itself plays the same. -/
  ended : ∀ i : Fin regions.length, ∀ call ∈ report.calls, call.index = i →
    call.ending ≠ .cancelled → played regions b i = played regions a i
  /-- An attempt that is given up would end after the operation, if it ends at all. -/
  givenUp : ∀ i : Fin regions.length, ∀ call ∈ report.calls, call.index = i →
    call.ending = .cancelled → ∀ f, finishAt? t regions b i = some f → report.elapsed < f

section
variable {t : Thresholds} {regions : List Region} {a b : Script α} {w : Entrant α} {v : α} {k : Nat}

/-- By the tick of the victory those who have started look alike. -/
theorem SameSeen.alikeBy
    (h : SameSeen t regions a b (wonReport (lineup t regions a) w v k)) {i : Fin regions.length}
    (started : (entrantAt t regions a i).hasStarted k = true) :
    AlikeBy k (entrantAt t regions a i) (entrantAt t regions b i) := by
  have hcall : (entrantAt t regions a i).record k
      ∈ (wonReport (lineup t regions a) w v k).calls :=
    List.mem_map_of_mem (List.mem_filter.2 ⟨(mem_lineup t regions a).2 ⟨i, rfl⟩, started⟩)
  have hindex := index_record k (entrantAt t regions a i)
  cases hended : (entrantAt t regions a i).hasEnded k with
  | true =>
    have hplayed : played regions b i = played regions a i := by
      refine h.ended i _ hcall hindex fun hcancelled => ?_
      rw [ending_record_eq_cancelled_iff.1 hcancelled] at hended
      cases hended
    rw [entrantAt, entrantAt, hplayed]
    exact .refl k _
  | false =>
    have hlate := h.givenUp i _ hcall hindex (ending_record_eq_cancelled_iff.2 hended)
    have hended' : (entrantAt t regions b i).hasEnded k = false := by
      refine hasEnded_eq_false_of_lt fun j hj => ?_
      have hlt : k / 3 < j / 3 := hlate (j / 3) (Entrant.finish?_of_endTick? hj).1
      omega
    refine ⟨rfl, rfl, rfl, hended'.trans hended.symm, fun he => ?_⟩
    rw [hended] at he
    cases he

variable (alike : ∀ i, (entrantAt t regions a i).hasStarted k = true →
  AlikeBy k (entrantAt t regions a i) (entrantAt t regions b i))
include alike

/-- **Who wins among entrants wins among others that look alike by then.** -/
theorem Wins.of_alikeBy (h : Wins (lineup t regions a) w v k) :
    Wins (lineup t regions b) w v k := by
  have heq : ∀ i, (entrantAt t regions a i).hasEnded k = true →
      entrantAt t regions b i = entrantAt t regions a i := fun i hended =>
    (alike i (Entrant.hasStarted_of_hasEnded hended)).eq_of_hasEnded hended
  refine ⟨?_, h.value, h.tick, ?_⟩
  · obtain ⟨i, rfl⟩ := (mem_lineup t regions a).1 h.mem
    refine (mem_lineup t regions b).2 ⟨i, heq i ?_⟩
    exact Entrant.hasEnded_iff.2 ⟨k, h.tick, Nat.le_refl k⟩
  · intro e he hv j hj
    obtain ⟨i, rfl⟩ := (mem_lineup t regions b).1 he
    rcases Nat.lt_or_ge k j with hkj | hjk
    · exact .inl hkj
    · -- What has ended by the victory is an entrant of the first race too.
      have hended := Entrant.hasEnded_iff.2 ⟨j, hj, hjk⟩
      have hstarted : (entrantAt t regions b i).hasStarted k = true :=
        Entrant.hasStarted_of_hasEnded hended
      rw [(alike i hstarted).hasEnded] at hended
      rw [heq i hended] at hv hj ⊢
      exact h.least _ ((mem_lineup t regions a).2 ⟨i, rfl⟩) hv j hj

theorem wonReport_of_alikeBy :
    wonReport (lineup t regions b) w v k = wonReport (lineup t regions a) w v k := by
  have hstarted : ∀ script : Script α, (lineup t regions script).filter (·.hasStarted k)
      = ((List.finRange regions.length).filter fun i => (entrantAt t regions a i).hasStarted k).map
          (entrantAt t regions script) := fun script => by
    rw [lineup_eq, List.filter_map]
    rfl
  rw [← wonReport_filter_hasStarted (lineup t regions b),
    ← wonReport_filter_hasStarted (lineup t regions a), hstarted, hstarted]
  exact wonReport_map_eq (fun i hi => alike i (List.mem_filter.1 hi).2) w v

end

section
variable {t : Thresholds} {regions : List Region} {a b : Script α}

theorem SameSeen.of_heardFrom {report : Report α}
    (h : SameSeen t regions a b (report.heardFrom regions)) : SameSeen t regions a b report := by
  obtain ⟨ended, givenUp⟩ := h
  rw [Report.calls_heardFrom] at ended givenUp
  rw [Report.elapsed_heardFrom] at givenUp
  exact ⟨ended, givenUp⟩

/-- **An operation that is won is the same under a script that it cannot tell apart.** -/
theorem run_eq_of_sameSeen {deadline : Option Nat} {index : Nat} {region : Region} {v : α}
    (won : (run t regions a deadline).verdict = .won index region v)
    (h : SameSeen t regions a b (run t regions a deadline)) :
    run t regions b deadline = run t regions a deadline := by
  obtain ⟨w, k, wins, inTime, -, -, hrun⟩ := exists_wins_of_run won
  rw [hrun] at h ⊢
  have alike := fun i => h.of_heardFrom.alikeBy (i := i)
  rw [run_eq_of_wins (wins.of_alikeBy alike) inTime, wonReport_of_alikeBy alike]

end
end Race

/-- **An operation of a client that is won is the same under a script that it cannot tell apart.** -/
theorem Client.execute_eq_of_sameSeen {c : Client} {intent : Override} {strategy : Strategy}
    (h : c.effective intent = .ok strategy) {a b : Script α} {deadline : Option Nat} {index : Nat}
    {region : Region} {v : α}
    (won : (c.execute intent a deadline).verdict = .won index region v)
    (same : Race.SameSeen (strategy.thresholds?.getD .standard) (c.sent strategy) a b
      (c.execute intent a deadline)) :
    c.execute intent b deadline = c.execute intent a deadline := by
  rw [execute_of_ok h] at won same
  rw [execute_of_ok h, execute_of_ok h, Race.run_eq_of_sameSeen won ⟨same.ended, same.givenUp⟩]

/-- **What is given up or never made leaves no trace.**  An operation that is won under one script
has the same report under any other in which the attempts that have ended play the same, those
that were given up end after the victory or never, and those that were not made play anything;
and in a session it changes the ledger in the same way. -/
theorem unseen_leaves_no_trace (t : Thresholds) (regions : List Region) (s : Session)
    (intent : Override) (a b : Script α) (deadline : Option Nat) :
    (let report := Race.run t regions a deadline
      ∀ index region v, report.verdict = .won index region v →
        Race.SameSeen t regions a b report → Race.run t regions b deadline = report) ∧
    (let whole := s.execute ⟨intent, a, deadline⟩
      ∀ strategy, s.client.effective intent = .ok strategy →
        ∀ index region v, whole.1.verdict = .won index region v →
          Race.SameSeen (strategy.thresholds?.getD .standard) (s.client.sent strategy) a b
            whole.1 → s.execute ⟨intent, b, deadline⟩ = whole) := by
  constructor
  · intro report index region v won same
    exact Race.run_eq_of_sameSeen won same
  · intro whole strategy h index region v won same
    have hreport : s.client.execute intent b deadline = s.client.execute intent a deadline :=
      Client.execute_eq_of_sameSeen h won same
    show s.execute ⟨intent, b, deadline⟩ = s.execute ⟨intent, a, deadline⟩
    rw [Session.execute, Session.execute, Session.report, Session.report, hreport]

/-- The third attempt wins at the instant at which the fourth is due.  The fourth would succeed at
once, and the first would fail one millisecond later. -/
theorem unseen_leaves_no_trace_of_four :
    let regions : List Region := [⟨"a"⟩, ⟨"b"⟩, ⟨"c"⟩, ⟨"d"⟩]
    let s : Session :=
      ⟨⟨⟨"a"⟩, [⟨"b"⟩, ⟨"c"⟩, ⟨"d"⟩], .active .standard⟩, .ofRegions regions⟩
    let a : Script Nat := .ofTable [(⟨"a"⟩, [.success 800 7]), (⟨"b"⟩, [.failure 20 "busy"]),
      (⟨"c"⟩, [.success 100 8]), (⟨"d"⟩, [.hang])]
    let b : Script Nat := .ofTable [(⟨"a"⟩, [.failure 701 "late"]), (⟨"b"⟩, [.failure 20 "busy"]),
      (⟨"c"⟩, [.success 100 8]), (⟨"d"⟩, [.success 0 9])]
    (Race.run .standard regions a none).verdict = .won 2 ⟨"c"⟩ 8 ∧
      (Race.run .standard regions a none).elapsed = 700 ∧
      Race.run .standard regions b none = Race.run .standard regions a none ∧
      s.execute ⟨none, b, none⟩ = s.execute ⟨none, a, none⟩ := by
  intro regions s a b
  have hwon : (Race.run .standard regions a none).verdict = .won 2 ⟨"c"⟩ 8 := by decide +kernel
  have hended : ∀ i : Fin regions.length, ∀ call ∈ (Race.run .standard regions a none).calls,
      call.index = i → call.ending ≠ .cancelled →
        Race.played regions b i = Race.played regions a i := by decide +kernel
  have hlate : ∀ i : Fin regions.length, ∀ call ∈ (Race.run .standard regions a none).calls,
      call.index = i → call.ending = .cancelled → ∀ f ∈ Race.finishAt? .standard regions b i,
        (Race.run .standard regions a none).elapsed < f := by decide +kernel
  obtain ⟨hrun, hexecute⟩ := unseen_leaves_no_trace .standard regions s none a b none
  exact ⟨hwon, by decide +kernel, hrun 2 ⟨"c"⟩ 8 hwon ⟨hended, hlate⟩,
    hexecute (.active .standard) rfl 2 ⟨"c"⟩ 8 hwon ⟨hended, hlate⟩⟩

end Hedging
