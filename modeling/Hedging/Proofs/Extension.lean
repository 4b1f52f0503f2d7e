import Hedging.Proofs.Race.Trace
import Hedging.Proofs.Session

/-!
# More regions

The entrants of an operation on more regions are those of the shorter operation with others
behind them (`lineup_append`), which start no earlier than the first of them is due.  So the
winner of the shorter race still has its value in time, and is beaten only by somebody who is
earlier (`Wins.of_append`).  If nobody of the others has started by the victory, they leave no
trace (`run_append_of_before`).
-/

namespace Hedging
namespace Race

variable {α : Type}

/-! ### Longer races -/

section
variable {es rest : List (Entrant α)} {w w' : Entrant α} {v v' : α} {k k' : Nat}

/-- **In a longer race nobody wins later, and nobody else wins at the same instant.** -/
theorem Wins.of_append (hes : InOrder (es ++ rest)) (h : Wins es w v k)
    (h' : Wins (es ++ rest) w' v' k') : k' / 3 ≤ k / 3 ∧ (k' / 3 = k / 3 → w' = w ∧ v' = v) := by
  have hmem := List.mem_append_left rest h.mem
  have hfinish := (Entrant.finish?_of_endTick? h.tick).1
  have hle := h'.finish_le hes hmem h.isSome_value? hfinish
  refine ⟨by omega, fun heq => ?_⟩
  have hindex : w'.index ≤ w.index := by omega
  obtain rfl : w' = w := by
    -- Both are least among those in front, and whoever stands behind them has a later place.
    rcases List.mem_append.1 h'.mem with hw' | hw'
    · have hleast := h.least w' hw' h'.isSome_value? k' h'.tick
      have hleast' := h'.least w hmem h.isSome_value? k h.tick
      exact hes.eq_of_index_eq h'.mem hmem (by omega)
    · have hlt := (List.pairwise_append.1 hes.pairwise_index).2.2 w h.mem w' hw'
      omega
  exact ⟨rfl, Option.some.inj (h'.value.symm.trans h.value)⟩

/-- Those who have not started by the victory do not change it. -/
theorem Wins.append (h : Wins es w v k) (unstarted : ∀ e ∈ rest, e.hasStarted k = false) :
    Wins (es ++ rest) w v k := by
  refine ⟨List.mem_append_left rest h.mem, h.value, h.tick, fun e he hv j hj => ?_⟩
  rcases List.mem_append.1 he with he | he
  · exact h.least e he hv j hj
  · have hstart := hasStarted_eq_false_iff.1 (unstarted e he)
    exact .inl (Nat.lt_trans hstart (Entrant.startTick_lt hj))

/-- Those who have not started by the victory leave no trace. -/
theorem wonReport_append (unstarted : ∀ e ∈ rest, e.hasStarted k = false) :
    wonReport (es ++ rest) w v k = wonReport es w v k := by
  have hnone : rest.filter (·.hasStarted k) = [] :=
    List.filter_eq_nil_iff.2 fun e he => Bool.not_eq_true _ ▸ unstarted e he
  rw [← wonReport_filter_hasStarted, List.filter_append, hnone, List.append_nil,
    wonReport_filter_hasStarted]

end

/-! ### Operations on more regions -/

section
variable {t : Thresholds} {rs ss : List Region} {script : Script α} {deadline : Option Nat}

/-- **The entrants of more regions**: the same as before, and behind them others, none of whom is
due before the first of their regions. -/
theorem lineup_append (t : Thresholds) (rs ss : List Region) (script : Script α) :
    ∃ rest, lineup t (rs ++ ss) script = lineup t rs script ++ rest ∧
      ∀ e ∈ rest, (t.start rs.length).toMillis ≤ e.start := by
  unfold lineup
  rw [List.zipIdx_append, List.map_append, Nat.zero_add]
  refine ⟨_, congrArg (· ++ _) (List.map_congr_left fun x hx => ?_), ?_⟩
  · have hlt := List.snd_lt_of_mem_zipIdx hx
    obtain ⟨r, i⟩ := x
    have htake : (rs ++ ss).take i = rs.take i := List.take_append_of_le_length (Nat.le_of_lt hlt)
    simp only [htake]
  · intro e he
    obtain ⟨x, hx, rfl⟩ := List.mem_map.1 he
    exact t.toMillis_start_mono (List.le_snd_of_mem_zipIdx hx)

/-- **If the operation on fewer regions is won, so is the one on more**, and no later; at the same
instant it has the same winner. -/
theorem run_append_of_won {index : Nat} {region : Region} {v : α}
    (h : (run t rs script deadline).verdict = .won index region v) (ss : List Region) :
    let fewer := run t rs script deadline
    let more := run t (rs ++ ss) script deadline
    (∃ index' region' v', more.verdict = .won index' region' v') ∧
      more.elapsed ≤ fewer.elapsed ∧
      (more.elapsed = fewer.elapsed → more.verdict = .won index region v) := by
  intro fewer more
  obtain ⟨w, k, wins, inTime, rfl, rfl, hfewer⟩ := exists_wins_of_run h
  obtain ⟨rest, hlineup, -⟩ := lineup_append t rs ss script
  have hes := lineup_inOrder t (rs ++ ss) script
  have hmem : w ∈ lineup t (rs ++ ss) script := hlineup ▸ List.mem_append_left rest wins.mem
  obtain ⟨w', v', k', wins', inTime', -⟩ :=
    (contest_ending hes deadline).exists_wins hmem wins.isSome_value? wins.tick inTime
  have hmore : more = (wonReport (lineup t (rs ++ ss) script) w' v' k').heardFrom (rs ++ ss) :=
    run_eq_of_wins wins' inTime'
  have hfewer : fewer = (wonReport (lineup t rs script) w v k).heardFrom rs := hfewer
  rw [hlineup] at hes wins'
  obtain ⟨hle, hsame⟩ := wins.of_append hes wins'
  rw [hmore, hfewer, Report.verdict_heardFrom, Report.elapsed_heardFrom, Report.elapsed_heardFrom]
  refine ⟨⟨_, _, _, rfl⟩, hle, fun heq => ?_⟩
  obtain ⟨rfl, rfl⟩ := hsame heq
  rfl

/-- **Regions that are due after a victory change nothing**, nor do those that are due at its
instant if the winner has started before. -/
theorem run_append_of_before {index : Nat} {region : Region} {v : α}
    (h : (run t rs script deadline).verdict = .won index region v) (ss : List Region) :
    let fewer := run t rs script deadline
    let more := run t (rs ++ ss) script deadline
    let due := (t.start rs.length).toMillis
    fewer.elapsed < due ∨ fewer.elapsed = due ∧ (t.start index).toMillis < fewer.elapsed →
      more.verdict = fewer.verdict ∧ more.elapsed = fewer.elapsed ∧ more.calls = fewer.calls := by
  intro fewer more due before
  obtain ⟨w, k, wins, inTime, rfl, -, hfewer⟩ := exists_wins_of_run h
  obtain ⟨rest, hlineup, hdue⟩ := lineup_append t rs ss script
  have hfewer : fewer = (wonReport (lineup t rs script) w v k).heardFrom rs := hfewer
  have helapsed : fewer.elapsed = k / 3 := by
    rw [hfewer, Report.elapsed_heardFrom]
    rfl
  have hstart : w.start = (t.start w.index).toMillis := by
    obtain ⟨i, rfl⟩ := (mem_lineup t rs script).1 wins.mem
    exact dueAt_eq t rs i
  have hunstarted : ∀ e ∈ rest, e.hasStarted k = false := by
    intro e he
    have hle : due ≤ e.start := hdue e he
    rw [← Bool.not_eq_true, Entrant.hasStarted_iff_of_winner wins.tick]
    omega
  have hmore : more = (wonReport (lineup t rs script) w v k).heardFrom (rs ++ ss) := by
    have hwins := wins.append hunstarted
    rw [← hlineup] at hwins
    rw [← wonReport_append hunstarted, ← hlineup]
    exact run_eq_of_wins hwins inTime
  rw [hmore, hfewer]
  simp only [Report.verdict_heardFrom, Report.elapsed_heardFrom, Report.calls_heardFrom, and_self]

end
end Race

/-! ### Operations of a client -/

section
variable {c c' : Client} {intent intent' : Override} {t : Thresholds} {strategy : Strategy}

/-- **Hedging never hurts an operation that succeeds without it**: it succeeds, no later, and makes
no other attempt if the primary answers before the first hedge or with it. -/
theorem Client.execute_hedged_of_won (same : c'.regions = c.regions)
    (hedging : c.effective intent = .ok (.active t)) (h : c'.effective intent' = .ok strategy)
    (single : strategy.isActive = false) {script : Script α} {deadline : Option Nat} {index : Nat}
    {region : Region} {v : α}
    (won : (c'.execute intent' script deadline).verdict = .won index region v) :
    let hedged := c.execute intent script deadline
    let alone := c'.execute intent' script deadline
    (∃ index' region' v', hedged.verdict = .won index' region' v') ∧
      hedged.elapsed ≤ alone.elapsed ∧
      (alone.elapsed ≤ (t.start 1).toMillis → hedged.calls = alone.calls) := by
  intro hedged alone
  have hprimary : c'.primary = c.primary := (List.cons.inj same).1
  have halone : alone = (Race.run t [c.primary] script deadline).after
      (0, .operation strategy.text c'.regions.length) := by
    rw [← hprimary]
    exact execute_of_direct h (.inl single) t script deadline
  have hhedged : hedged = (Race.run t ([c.primary] ++ c.others) script deadline).after
      (0, .operation (Strategy.active t).text c.regions.length) :=
    execute_of_ok hedging script deadline
  have hwon : (Race.run t [c.primary] script deadline).verdict = .won index region v := by
    rw [← won, show c'.execute intent' script deadline = alone from rfl, halone]
    rfl
  obtain ⟨hmore, hle, -⟩ := Race.run_append_of_won hwon c.others
  rw [halone, hhedged]
  refine ⟨hmore, hle, fun before => (Race.run_append_of_before hwon c.others ?_).2.2⟩
  -- The primary is the only one who can have won alone, and it started before any hedge.
  have hindex : index = 0 := by
    obtain ⟨w, _, wins, -, rfl, -⟩ := Race.exists_wins_of_run hwon
    have hmem := wins.mem
    rw [Race.lineup_singleton] at hmem
    rw [List.mem_singleton.1 hmem]
    rfl
  have hpos := t.toMillis_start_pos Nat.one_pos
  have hbefore : (Race.run t [c.primary] script deadline).elapsed ≤ (t.start 1).toMillis := before
  rw [hindex, t.toMillis_start_zero, List.length_singleton]
  omega

end

/-- **More regions never hurt.**  If an operation on some regions is won, so is the one on these and
others behind them, no later, and if at the same instant then by the same attempt; where the
others are due after the victory, or with it and after the start of the winner, nothing else
changes.  So a client whose strategy is active succeeds wherever one without hedging does,
no later, and with the same calls if the primary answers by the start of the first hedge. -/
theorem more_regions_never_hurt (t : Thresholds) (rs ss : List Region) (script : Script α)
    (deadline : Option Nat) (c c' : Client) (intent intent' : Override) (strategy : Strategy) :
    (let fewer := Race.run t rs script deadline
      let more := Race.run t (rs ++ ss) script deadline
      let due := (t.start rs.length).toMillis
      ∀ index region v, fewer.verdict = .won index region v →
        (∃ index' region' v', more.verdict = .won index' region' v') ∧
        more.elapsed ≤ fewer.elapsed ∧
        (more.elapsed = fewer.elapsed → more.verdict = .won index region v) ∧
        (fewer.elapsed < due ∨ fewer.elapsed = due ∧ (t.start index).toMillis < fewer.elapsed →
          more.verdict = fewer.verdict ∧ more.elapsed = fewer.elapsed ∧
            more.calls = fewer.calls)) ∧
    (c'.regions = c.regions → c.effective intent = .ok (.active t) →
      c'.effective intent' = .ok strategy → strategy.isActive = false →
      let hedged := c.execute intent script deadline
      let alone := c'.execute intent' script deadline
      ∀ index region v, alone.verdict = .won index region v →
        (∃ index' region' v', hedged.verdict = .won index' region' v') ∧
        hedged.elapsed ≤ alone.elapsed ∧
        (alone.elapsed ≤ (t.start 1).toMillis → hedged.calls = alone.calls)) := by
  constructor
  · intro fewer more due index region v h
    obtain ⟨hmore, hle, hsame⟩ := Race.run_append_of_won h ss
    exact ⟨hmore, hle, hsame, Race.run_append_of_before h ss⟩
  · intro same hedging h single hedged alone index region v won
    exact Client.execute_hedged_of_won same hedging h single won

/-- A second attempt to the primary is due at the instant at which the first of two wins; a hedge
wins before a slow primary; and a primary that answers with the first hedge is alone. -/
theorem more_regions_never_hurt_of_two :
    let rs : List Region := [⟨"a"⟩, ⟨"b"⟩]
    let tie : Script Nat := .ofTable [(⟨"a"⟩, [.success 600 7, .success 0 8]), (⟨"b"⟩, [.hang])]
    let slow : Script Nat := .ofTable [(⟨"a"⟩, [.success 900 7]), (⟨"b"⟩, [.success 100 8])]
    let prompt : Script Nat := .ofTable [(⟨"a"⟩, [.success 500 7]), (⟨"b"⟩, [.success 0 8])]
    let c : Client := ⟨⟨"a"⟩, [⟨"b"⟩], .active .standard⟩
    let fewer := Race.run .standard rs tie none
    let more := Race.run .standard (rs ++ [⟨"a"⟩]) tie none
    (fewer.verdict = .won 0 ⟨"a"⟩ 7 ∧ fewer.elapsed = 600 ∧ more.verdict = fewer.verdict ∧
      more.elapsed = fewer.elapsed ∧ more.calls = fewer.calls) ∧
    ((Race.run .standard [⟨"a"⟩] slow none).verdict = .won 0 ⟨"a"⟩ 7 ∧
      (Race.run .standard ([⟨"a"⟩] ++ [⟨"b"⟩]) slow none).elapsed
        ≤ (Race.run .standard [⟨"a"⟩] slow none).elapsed) ∧
    (c.execute none prompt none).calls = (c.execute (some (.enabled false)) prompt none).calls := by
  intro rs tie slow prompt c fewer more
  have hfewer : fewer.verdict = .won 0 ⟨"a"⟩ 7 := by decide +kernel
  have helapsed : fewer.elapsed = 600 := by decide +kernel
  have hslow : (Race.run .standard [⟨"a"⟩] slow none).verdict = .won 0 ⟨"a"⟩ 7 := by decide +kernel
  have halone : (c.execute (some (.enabled false)) prompt none).verdict = .won 0 ⟨"a"⟩ 7 := by
    decide +kernel
  obtain ⟨-, -, -, hsame⟩ :=
    (more_regions_never_hurt .standard rs [⟨"a"⟩] tie none c c none none .unset).1 0 ⟨"a"⟩ 7 hfewer
  obtain ⟨-, hsooner, -⟩ :=
    (more_regions_never_hurt .standard [⟨"a"⟩] [⟨"b"⟩] slow none c c none none .unset).1
      0 ⟨"a"⟩ 7 hslow
  obtain ⟨-, -, hcalls⟩ :=
    (more_regions_never_hurt .standard [⟨"a"⟩] [⟨"b"⟩] prompt none c c none
      (some (.enabled false)) .disabled).2 rfl rfl rfl rfl 0 ⟨"a"⟩ 7 halone
  exact ⟨⟨hfewer, helapsed, hsame (by decide +kernel)⟩, ⟨hslow, hsooner⟩, hcalls (by decide +kernel)⟩

end Hedging
