import Hedging.Demo.Rounds
import Hedging.Proofs.Dispatch

/-!
# Who serves the five rounds

All attempts of a round succeed, so a round is served by whoever answers first.  That is the
first region of the list that is not slow, since those behind it start later, unless the slow
primary answers before it or with it (`Demo.fastest`, `Demo.run_roundScript`).  Without hedging it
is the primary (`Demo.service`).  `Demo.rounds_served` says what the demonstration writes, and what
the ledger holds at its end, for every environment that is not refused.
-/

namespace Hedging
namespace Demo

/-- Which place serves a round of a race, and after how many milliseconds: the first region that is
not slow, if it answers before a slow primary, and the primary otherwise. -/
def fastest (t : Thresholds) (regions : List Region) (round : Nat) : Nat × Nat :=
  match regions.findIdx? (!isSlow round ·) with
  | some i => if (t.start i).toMillis + 60 < 400 then (i, (t.start i).toMillis + 60) else (0, 400)
  | none => (0, 400)

/-- Which place serves a round of a client, and after how many milliseconds. -/
def service (c : Client) (round : Nat) : Nat × Nat :=
  match c.strategy with
  | .active t => fastest t c.regions round
  | _ => (0, if isSlow round c.primary then 400 else 60)

/-- The region that serves a round of a client. -/
def server (c : Client) (round : Nat) : Region := c.regions.getD (service c round).1 c.primary

/-! ### One race -/

section
variable (t : Thresholds) (regions : List Region) (round : Nat)

/-- When the attempt to the region at a place answers in a round. -/
def answerAt (i : Fin regions.length) : Nat :=
  (t.start i).toMillis + if isSlow round regions[i] then 400 else 60

variable {t regions round}

/-- Every attempt of a round succeeds with its number. -/
theorem succeedsAt_roundScript {i : Fin regions.length} {f v : Nat} :
    Race.SucceedsAt t regions (roundScript round) i f v ↔
      f = answerAt t regions round i ∧ v = round := by
  have hplayed : Race.played regions (roundScript round) i
      = .success (if isSlow round regions[i] then 400 else 60) round := rfl
  simp only [Race.SucceedsAt, hplayed, Race.dueAt_eq, answerAt, Outcome.success.injEq]
  constructor
  · rintro ⟨d, ⟨rfl, rfl⟩, rfl⟩
    exact ⟨rfl, rfl⟩
  · rintro ⟨rfl, rfl⟩
    exact ⟨_, ⟨rfl, rfl⟩, rfl⟩

/-- No attempt of a round fails. -/
theorem errors_roundScript (r : Region) :
    (Race.run t regions (roundScript round) none).errors r = 0 := by
  rw [Race.errors_run, Race.failuresIn, List.countP_eq_zero]
  intro i _
  simp [Race.failsIn, Race.played, roundScript]

/-- Nobody answers before its start, or sooner than 60 milliseconds after it. -/
theorem le_answerAt {i j : Fin regions.length} (h : i ≤ j) :
    (t.start i).toMillis + 60 ≤ answerAt t regions round j := by
  have hstart := t.toMillis_start_mono (Fin.le_def.1 h)
  unfold answerAt
  split <;> omega

theorem answerAt_of_slow {i : Fin regions.length} (h : isSlow round regions[i] = true) :
    answerAt t regions round i = (t.start i).toMillis + 400 := by
  rw [answerAt, if_pos h]

/-- A slow primary answers after 400 milliseconds. -/
theorem answerAt_primary (hpos : 0 < regions.length) (h : isSlow round regions[0] = true) :
    answerAt t regions round ⟨0, hpos⟩ = 400 := by
  rw [answerAt_of_slow h, t.toMillis_start_zero, Nat.zero_add]

/-- **The fastest region answers first**, and of several at one instant stands first. -/
theorem exists_fastest (t : Thresholds) (round : Nat) (h : regions ≠ []) :
    ∃ i : Fin regions.length, (i.val, answerAt t regions round i) = fastest t regions round ∧
      ∀ j, answerAt t regions round i < answerAt t regions round j ∨
        answerAt t regions round i = answerAt t regions round j ∧ i ≤ j := by
  have hpos : 0 < regions.length := List.length_pos_iff.2 h
  unfold fastest
  cases hfirst : regions.findIdx? (!isSlow round ·) with
  | none =>
    have hslow : ∀ j : Fin regions.length, isSlow round regions[j] = true := fun j => by
      have hnot := List.findIdx?_eq_none_iff.1 hfirst regions[j] (List.getElem_mem _)
      simpa using hnot
    have hprimary := answerAt_primary (t := t) hpos (hslow ⟨0, hpos⟩)
    refine ⟨⟨0, hpos⟩, by rw [hprimary], fun j => ?_⟩
    have hj := answerAt_of_slow (t := t) (hslow j)
    simp only [Fin.le_def]
    omega
  | some i =>
    obtain ⟨hi, hprompt, hslow⟩ := List.findIdx?_eq_some_iff_getElem.1 hfirst
    have hanswer : answerAt t regions round ⟨i, hi⟩ = (t.start i).toMillis + 60 := by
      rw [answerAt, if_neg (by simpa using hprompt)]
    -- Those in front of it are slow, and those behind it start later.
    have hfront : ∀ j : Fin regions.length, j.val < i →
        answerAt t regions round j = (t.start j).toMillis + 400 := fun j hj =>
      answerAt_of_slow (by simpa using hslow j hj)
    have hbehind : ∀ j : Fin regions.length, i ≤ j.val →
        (t.start i).toMillis + 60 ≤ answerAt t regions round j := fun j hj =>
      le_answerAt (i := ⟨i, hi⟩) hj
    simp only
    split
    · refine ⟨⟨i, hi⟩, by rw [hanswer], fun j => ?_⟩
      have hj := hfront j
      have hj' := hbehind j
      simp only [Fin.le_def]
      omega
    · have hzero := t.toMillis_start_zero
      have hlate : 0 < i := Nat.pos_of_ne_zero fun h0 => by
        subst h0
        omega
      have hprimary := (hfront ⟨0, hpos⟩ hlate).trans (by rw [hzero])
      refine ⟨⟨0, hpos⟩, by rw [hprimary], fun j => ?_⟩
      have hj := hfront j
      have hj' := hbehind j
      simp only [Fin.le_def]
      omega

/-- **The fastest region serves a round of a race.** -/
theorem run_roundScript (t : Thresholds) (round : Nat) (h : regions ≠ []) :
    let report := Race.run t regions (roundScript round) none
    ∃ region, regions[(fastest t regions round).1]? = some region ∧
      report.verdict = .won (fastest t regions round).1 region round ∧
      report.elapsed = (fastest t regions round).2 := by
  intro report
  obtain ⟨i, hi, hleast⟩ := exists_fastest t round h
  have hmin : ∀ j g u, Race.SucceedsAt t regions (roundScript round) j g u →
      toLex (answerAt t regions round i, i) ≤ toLex (g, j) := by
    intro j g u hj
    obtain ⟨rfl, -⟩ := succeedsAt_roundScript.1 hj
    exact Prod.Lex.toLex_le_toLex.2 (hleast j)
  obtain ⟨hverdict, helapsed⟩ := Race.run_of_least (succeedsAt_roundScript.2 ⟨rfl, rfl⟩) hmin
  rw [← hi]
  exact ⟨regions.get i, List.getElem?_eq_getElem i.isLt, hverdict, helapsed⟩

/-- A region alone serves its rounds. -/
theorem fastest_singleton (t : Thresholds) (r : Region) (round : Nat) :
    fastest t [r] round = (0, if isSlow round r then 400 else 60) := by
  have hzero := t.toMillis_start_zero
  cases hslow : isSlow round r <;> simp [fastest, hslow, hzero]

end

/-! ### One operation -/

section
variable (c : Client) (round : Nat)

/-- An operation without hedging is a race of the primary alone. -/
theorem service_eq_fastest :
    service c round
      = fastest (c.strategy.thresholds?.getD .standard) (c.sent c.strategy) round := by
  obtain ⟨primary, others, - | - | t⟩ := c
  · exact (fastest_singleton _ primary round).symm
  · exact (fastest_singleton _ primary round).symm
  · rfl

/-- **A round succeeds with its number**, and no attempt fails. -/
theorem execute_roundScript :
    let report := c.execute none (roundScript round) none
    c.regions[(service c round).1]? = some (server c round) ∧
      report.verdict = .won (service c round).1 (server c round) round ∧
      report.elapsed = (service c round).2 ∧ ∀ r, report.errors r = 0 := by
  intro report
  have hunset : Strategy.ofIntent none = .ok .unset := rfl
  have heffective : c.effective none = .ok c.strategy := by
    rw [Client.effective_of_ok hunset, Strategy.overriddenBy_unset]
  have hreport : report = _ := Client.execute_of_ok heffective (roundScript round) none
  obtain ⟨region, hregion, hverdict, helapsed⟩ :=
    run_roundScript (c.strategy.thresholds?.getD .standard) round (c.sent_ne_nil c.strategy)
  rw [← service_eq_fastest] at hregion hverdict helapsed
  have hplace : c.regions[(service c round).1]? = some region := by
    obtain ⟨rest, hrest⟩ := c.sent_prefix c.strategy
    rw [← hrest, List.getElem?_append_left (List.getElem?_eq_some_iff.1 hregion).1, hregion]
  have hserver : server c round = region := by
    rw [server, List.getD_eq_getElem?_getD, hplace, Option.getD_some]
  rw [hserver, hreport]
  exact ⟨hplace, hverdict, helapsed, errors_roundScript⟩

/-- The line of a round. -/
def roundLine : String :=
  "round " ++ toString round ++ ": " ++ toString round ++ " from " ++ (server c round).name
    ++ " in " ++ timeMark

theorem roundText_execute :
    roundText round (c.execute none (roundScript round) none) = [roundLine c round] := by
  rw [roundText, answerText, (execute_roundScript c round).2.1, roundLine]

end

/-! ### Five rounds -/

theorem zipIdx_map_range {β : Type} (f : Nat → β) (n : Nat) :
    ((List.range n).map f).zipIdx = (List.range n).map fun i => (f i, i) :=
  List.ext_getElem (by simp) fun i _ _ => by simp

section
variable (s : Session)

/-- The report of each round is that of its operation alone. -/
theorem reports_rounds : (s.executeAll roundOperations).1
    = (List.range roundCount).map fun round => s.client.execute none (roundScript round) none := by
  rw [Session.executeAll_eq, roundOperations, List.map_map]
  rfl

/-- The rounds won by a region are those that it serves. -/
theorem countP_isWonBy_rounds (r : Region) :
    (s.executeAll roundOperations).1.countP (·.isWonBy r)
      = (List.range roundCount).countP fun round => server s.client round = r := by
  rw [reports_rounds, List.countP_map]
  refine List.countP_congr fun round _ => ?_
  rw [Function.comp_apply, Report.isWonBy, (execute_roundScript s.client round).2.1]
  simp [Verdict.winner?]

/-- Every round is won. -/
theorem countP_isWon_rounds : (s.executeAll roundOperations).1.countP (·.isWon) = roundCount := by
  rw [reports_rounds, List.countP_map]
  refine (List.countP_eq_length.2 fun round _ => ?_).trans List.length_range
  rw [Function.comp_apply, Report.isWon, (execute_roundScript s.client round).2.1]
  rfl

/-- No attempt fails in any round. -/
theorem errors_rounds (r : Region) :
    ((s.executeAll roundOperations).1.map (·.errors r)).sum = 0 := by
  have hnone : ∀ n ∈ (s.executeAll roundOperations).1.map (·.errors r), n = 0 := by
    rw [reports_rounds, List.map_map]
    exact List.forall_mem_map.2 fun round _ => (execute_roundScript s.client round).2.2.2 r
  exact List.sum_eq_zero hnone

/-- **What the rounds write.** -/
theorem roundsOf_eq : roundsOf s =
    { out := flatten ((List.range roundCount).map (roundLine s.client))
        ++ ["", "=== region stats ==="]
        ++ (flatten ((s.executeAll roundOperations).2.ledger.rows.map tallyText)).mergeSort
          fun a b => decide (a ≤ b)
      err := flatten (greeting s.client) } := by
  have hlines : ((s.executeAll roundOperations).1.zipIdx.flatMap fun x => roundText x.2 x.1)
      = (List.range roundCount).map (roundLine s.client) := by
    rw [reports_rounds, zipIdx_map_range, List.flatMap_map]
    simp only [roundText_execute]
    exact List.map_eq_flatMap.symm
  rw [← hlines]
  rfl

end

/-- **Each of the five rounds is served with its number**, by the first region that is not slow
where the client hedges and this region answers before a slow primary, and by the primary
otherwise, at the instant that `service` gives.  Each region has won the rounds that it served,
five altogether, and no attempt has failed.  This holds for every environment from which there is
a client, and the demonstration writes it. -/
theorem rounds_served {env : Environment} {settings : Settings} {s : Session}
    (henv : env.settings = .ok settings) (hs : Session.ofSettings settings = .ok s) :
    let c := s.client
    let reports := (s.executeAll roundOperations).1
    let ledger := (s.executeAll roundOperations).2.ledger
    c.regions = settings.regions ∧ Strategy.ofIntent settings.intent = .ok c.strategy ∧
    reports.length = 5 ∧
    (∀ round < 5, ∃ report, reports[round]? = some report ∧
      report.verdict = .won (service c round).1 (server c round) round ∧
      c.regions[(service c round).1]? = some (server c round) ∧
      report.elapsed = (service c round).2) ∧
    ledger.regions.Nodup ∧ (∀ r, r ∈ ledger.regions ↔ r ∈ settings.regions) ∧
    (∀ row ∈ ledger.rows,
      row.2.wins = (List.range 5).countP (fun round => server c round = row.1) ∧
      row.2.errors = 0) ∧
    (ledger.rows.map (·.2.wins)).sum = 5 ∧
    rounds env =
      { out := flatten ((List.range 5).map (roundLine c)) ++ ["", "=== region stats ==="]
          ++ (flatten (ledger.rows.map tallyText)).mergeSort fun a b => decide (a ≤ b)
        err := flatten (greeting c) } := by
  intro c reports ledger
  have hreports : reports = (List.range 5).map fun round =>
      c.execute none (roundScript round) none := reports_rounds s
  have few : roundOperations.length < 2 ^ 64 := by decide
  refine ⟨(Session.ofSettings_eq_ok hs).1,
    Client.strategy_of_settings (Session.client_of_settings hs), ?length, ?served,
    Session.nodup_regions_executeAll hs _, Session.mem_regions_executeAll hs _, ?rows, ?sum,
    ?written⟩
  case length => rw [hreports, List.length_map, List.length_range]
  case served =>
    intro round hround
    obtain ⟨hplace, hverdict, helapsed, -⟩ := execute_roundScript c round
    refine ⟨_, ?_, hverdict, hplace, helapsed⟩
    rw [hreports, List.getElem?_map, List.getElem?_range hround, Option.map_some]
  case rows =>
    intro row hrow
    obtain ⟨hwins, herrors, -⟩ := Session.row_executeAll hs roundOperations few hrow
    rw [errors_rounds s row.1] at herrors
    exact ⟨hwins.trans (countP_isWonBy_rounds s row.1), herrors⟩
  case sum =>
    exact (Session.sum_wins_executeAll hs roundOperations few).trans (countP_isWon_rounds s)
  case written =>
    rw [rounds, henv]
    simp only [hs]
    exact roundsOf_eq s

/-- In round 2 the two regions in front are slow, and the third one answers 60 milliseconds after
its start; with a longer wait it answers together with the primary, which serves the round. -/
theorem rounds_served_of_three :
    let env (first : String) : Environment :=
      ⟨some "eu, us, eus".toUTF8, some ("\x7b\"threshold_ms\": " ++ first ++ "\x7d").toUTF8⟩
    let settings (first : Int64) : Settings :=
      ⟨[⟨"eu"⟩, ⟨"us"⟩, ⟨"eus"⟩], some (.thresholds ⟨some first, none⟩)⟩
    let answers (first : Int64) (verdict : Verdict Nat) (elapsed : Nat) : Prop :=
      ∃ s report, Session.ofSettings (settings first) = .ok s ∧
        (s.executeAll roundOperations).1[2]? = some report ∧
        report.verdict = verdict ∧ report.elapsed = elapsed
    (env "150").settings = .ok (settings 150) ∧ answers 150 (.won 2 ⟨"eus"⟩ 2) 310 ∧
      (env "240").settings = .ok (settings 240) ∧ answers 240 (.won 0 ⟨"eu"⟩ 2) 400 := by
  intro env settings answers
  have henv : (env "150").settings = .ok (settings 150) := by decide +kernel
  have henv' : (env "240").settings = .ok (settings 240) := by decide +kernel
  obtain ⟨-, -, -, hserved, -⟩ := rounds_served henv rfl
  obtain ⟨-, -, -, hserved', -⟩ := rounds_served henv' rfl
  obtain ⟨report, hreport, hverdict, -, helapsed⟩ := hserved 2 (by decide)
  obtain ⟨report', hreport', hverdict', -, helapsed'⟩ := hserved' 2 (by decide)
  exact ⟨henv, ⟨_, report, rfl, hreport, hverdict, helapsed⟩,
    henv', _, report', rfl, hreport', hverdict', helapsed'⟩

end Demo
end Hedging
