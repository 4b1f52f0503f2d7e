import Hedging.Proofs.Ledger
import Mathlib.Algebra.BigOperators.Group.List.Basic
import Mathlib.Data.List.Nodup

/-!
# What a session knows after any number of operations

The operations of a session do not influence each other (`executeAll_eq`), each goes to
all regions or to the primary alone (`Client.attempt_eq_run`), and its ledger counts what
they did: `ledger_of_session` says which rows there are and what each of them holds.
-/

namespace Hedging

variable {α : Type}

/-! ### Winners -/

/-- The winner is one of the regions to which the operation was sent. -/
theorem Race.winner_mem {t : Thresholds} {regions : List Region} {script : Script α}
    {deadline : Option Nat} {r : Region}
    (h : (run t regions script deadline).verdict.winner? = some r) : r ∈ regions := by
  have hruns := runsTo_run t regions script deadline
  generalize run t regions script deadline = report at h hruns
  cases hruns with
  | none => cases h
  | single hsingle =>
    cases hsingle with
    | won _ _ =>
      obtain rfl := Option.some.inj h
      exact List.mem_singleton_self _
    | failed _ _ => cases h
    | dropped _ _ => cases h
    | unfinished _ _ => cases h
  | race _ hending =>
    cases hending with
    | won wins _ =>
      obtain ⟨i, rfl, -⟩ := wins.exists_succeedsAt
      obtain rfl : regions.get i = r := Option.some.inj h
      exact List.get_mem _ _
    | failed _ _ => cases h
    | dropped _ _ _ => cases h
    | unfinished _ _ _ _ _ => cases h

theorem sum_map_ite (p : Region → Bool) (rs : List Region) :
    (rs.map fun r => if p r = true then 1 else 0).sum = rs.countP p := by
  induction rs with
  | nil => rfl
  | cons r rs ih => rw [List.map_cons, List.sum_cons, ih, List.countP_cons, Nat.add_comm]

/-- A report with a winner counts for one of the regions, if they are all different. -/
theorem countP_isWonBy {rs : List Region} (nodup : rs.Nodup) {report : Report α}
    (winner : ∀ r, report.verdict.winner? = some r → r ∈ rs) :
    (rs.countP fun r => report.isWonBy r) = if report.isWon = true then 1 else 0 := by
  unfold Report.isWonBy Report.isWon
  cases hw : report.verdict.winner? with
  | none => simp
  | some s =>
    have hcount : (rs.countP fun r => decide (some s = some r)) = rs.count s := by
      refine List.countP_congr fun r _ => ?_
      rw [decide_eq_true_iff, Option.some.injEq, beq_iff_eq]
      exact eq_comm
    rw [hcount, List.count_eq_one_of_mem nodup (winner s hw)]
    rfl

/-- **The victories of all regions are all victories.** -/
theorem sum_countP_isWonBy {rs : List Region} (nodup : rs.Nodup) {reports : List (Report α)}
    (winners : ∀ report ∈ reports, ∀ r, report.verdict.winner? = some r → r ∈ rs) :
    (rs.map fun r => reports.countP (·.isWonBy r)).sum = reports.countP (·.isWon) := by
  induction reports with
  | nil => simp
  | cons report reports ih =>
    have hrest := ih fun report' h => winners report' (List.mem_cons_of_mem _ h)
    have hone := countP_isWonBy nodup (winners report List.mem_cons_self)
    simp only [List.countP_cons, List.sum_map_add, hrest, sum_map_ite, hone]

/-! ### Operations of a client -/

/-- The report with an event in front of all others. -/
def Report.after (event : Nat × Event) (report : Report α) : Report α :=
  { report with events := event :: report.events }

namespace Client

/-- The regions to which an operation under a strategy may go. -/
def sent (c : Client) : Strategy → List Region
  | .active _ => c.regions
  | _ => [c.primary]

/-- An operation without hedging is one on the primary alone. -/
theorem attempt_eq_run (c : Client) (s : Strategy) (script : Script α) (deadline : Option Nat) :
    c.attempt s script deadline
      = Race.run (s.thresholds?.getD .standard) (c.sent s) script deadline := by
  cases s <;> rfl

theorem sent_ne_nil (c : Client) (s : Strategy) : c.sent s ≠ [] := by
  cases s <;> exact List.cons_ne_nil _ _

/-- An operation under a strategy announces itself and is sent to its regions. -/
theorem execute_of_ok {c : Client} {intent : Override} {s : Strategy}
    (h : c.effective intent = .ok s) (script : Script α) (deadline : Option Nat) :
    c.execute intent script deadline
      = (Race.run (s.thresholds?.getD .standard) (c.sent s) script deadline).after
          (0, .operation s.text c.regions.length) := by
  unfold execute
  rw [h, ← attempt_eq_run]
  rfl

/-- An operation goes to the primary alone for want of hedging or of other regions. -/
theorem sent_eq_singleton {c : Client} {s : Strategy} (h : s.isActive = false ∨ c.others = []) :
    c.sent s = [c.primary] := by
  cases s with
  | active t => rw [sent, regions, h.resolve_left Bool.noConfusion]
  | unset => rfl
  | disabled => rfl

/-- An operation that goes to the primary alone announces itself; no schedule matters. -/
theorem execute_of_direct {c : Client} {intent : Override} {s : Strategy}
    (h : c.effective intent = .ok s) (direct : s.isActive = false ∨ c.others = [])
    (t : Thresholds) (script : Script α) (deadline : Option Nat) :
    c.execute intent script deadline
      = (Race.run t [c.primary] script deadline).after
          (0, .operation s.text c.regions.length) := by
  rw [execute_of_ok h, sent_eq_singleton direct]
  rfl

theorem sent_sublist (c : Client) (s : Strategy) : (c.sent s).Sublist c.regions := by
  cases s with
  | active t => exact List.Sublist.refl _
  | unset => exact (List.nil_sublist _).cons_cons _
  | disabled => exact (List.nil_sublist _).cons_cons _

/-- The winner of an operation is one of the regions of the client. -/
theorem winner_mem (c : Client) (op : Operation α) {r : Region}
    (h : (c.execute op.intent op.script op.deadline).verdict.winner? = some r) : r ∈ c.regions := by
  unfold execute at h
  cases hs : c.effective op.intent with
  | error e =>
    rw [hs] at h
    cases h
  | ok s =>
    rw [hs] at h
    have hwon : (c.attempt s op.script op.deadline).verdict.winner? = some r := h
    rw [attempt_eq_run] at hwon
    exact (c.sent_sublist s).subset (Race.winner_mem hwon)

theorem regions_of_settings {settings : Settings} {c : Client}
    (h : Client.ofSettings settings = .ok c) : c.regions = settings.regions := by
  unfold Client.ofSettings at h
  split at h
  · cases h
  · rename_i r rs hrs
    cases hs : Strategy.ofIntent settings.intent with
    | error e =>
      rw [hs] at h
      cases h
    | ok strategy =>
      rw [hs] at h
      obtain rfl := Except.ok.inj h
      exact hrs.symm

end Client

/-! ### Sessions -/

namespace Session

/-- **Operations do not influence each other**, and each enters its report. -/
theorem executeAll_eq (s : Session) (ops : List (Operation α)) :
    s.executeAll ops = (ops.map s.report,
      { s with ledger := (ops.map s.report).foldl Ledger.add s.ledger }) := by
  induction ops generalizing s with
  | nil => rfl
  | cons op ops ih =>
    rw [executeAll, execute]
    simp only [ih]
    rfl

theorem client_of_settings {settings : Settings} {s : Session}
    (h : Session.ofSettings settings = .ok s) : Client.ofSettings settings = .ok s.client := by
  unfold Session.ofSettings at h
  cases hc : Client.ofSettings settings with
  | error e =>
    rw [hc] at h
    cases h
  | ok c =>
    rw [hc] at h
    obtain rfl := Except.ok.inj h
    rfl

theorem ofSettings_eq_ok {settings : Settings} {s : Session}
    (h : Session.ofSettings settings = .ok s) :
    s.client.regions = settings.regions ∧ s.ledger = .ofRegions s.client.regions := by
  unfold Session.ofSettings at h
  cases hc : Client.ofSettings settings with
  | error e =>
    rw [hc] at h
    cases h
  | ok c =>
    rw [hc] at h
    obtain rfl := Except.ok.inj h
    exact ⟨Client.regions_of_settings hc, rfl⟩

/-- The rows of a ledger after some operations. -/
theorem rows_executeAll {settings : Settings} {s : Session}
    (h : Session.ofSettings settings = .ok s) (ops : List (Operation α)) :
    (s.executeAll ops).2.ledger.rows = (Region.distinct settings.regions).map fun r =>
      (r, (ops.map s.report).foldl (Tally.enter r) {}) := by
  obtain ⟨hregions, hledger⟩ := ofSettings_eq_ok h
  rw [executeAll_eq, Ledger.rows_foldl_add, hledger, hregions, Ledger.ofRegions, List.map_map]
  rfl

/-- The regions of the ledger are those of the settings, each one once. -/
theorem regions_executeAll {settings : Settings} {s : Session}
    (h : Session.ofSettings settings = .ok s) (ops : List (Operation α)) :
    (s.executeAll ops).2.ledger.regions = Region.distinct settings.regions := by
  rw [Ledger.regions, rows_executeAll h, List.map_map]
  exact List.map_id _

theorem nodup_regions_executeAll {settings : Settings} {s : Session}
    (h : Session.ofSettings settings = .ok s) (ops : List (Operation α)) :
    (s.executeAll ops).2.ledger.regions.Nodup := by
  rw [regions_executeAll h]
  exact Region.nodup_distinct _

theorem mem_regions_executeAll {settings : Settings} {s : Session}
    (h : Session.ofSettings settings = .ok s) (ops : List (Operation α)) (r : Region) :
    r ∈ (s.executeAll ops).2.ledger.regions ↔ r ∈ settings.regions := by
  rw [regions_executeAll h]
  exact Region.mem_distinct

theorem winner_mem_distinct {settings : Settings} {s : Session}
    (h : Session.ofSettings settings = .ok s) {ops : List (Operation α)} {report : Report α}
    (hreport : report ∈ ops.map s.report) {r : Region} (hr : report.verdict.winner? = some r) :
    r ∈ Region.distinct settings.regions := by
  obtain ⟨op, -, rfl⟩ := List.mem_map.1 hreport
  rw [Region.mem_distinct, ← (ofSettings_eq_ok h).1]
  exact s.client.winner_mem op hr

/-- What a row of the ledger holds after some operations. -/
theorem row_executeAll {settings : Settings} {s : Session}
    (h : Session.ofSettings settings = .ok s) (ops : List (Operation α))
    (few : ops.length < 2 ^ 64) {row : Region × Tally}
    (hrow : row ∈ (s.executeAll ops).2.ledger.rows) :
    row.2.wins = (s.executeAll ops).1.countP (·.isWonBy row.1) ∧
      row.2.errors = ((s.executeAll ops).1.map (·.errors row.1)).sum % 2 ^ 64 ∧
      row.2.total = ((s.executeAll ops).1.filter (·.isWonBy row.1)).foldl
        (fun x report => x + latency report.elapsed) 0 := by
  rw [rows_executeAll h] at hrow
  obtain ⟨r, -, rfl⟩ := List.mem_map.1 hrow
  rw [executeAll_eq]
  refine ⟨Tally.wins_foldl_enter r _ ?_, Tally.errors_foldl_enter r _,
    Tally.total_foldl_enter r _ {}⟩
  rwa [List.length_map]

/-- All victories are in the ledger. -/
theorem sum_wins_executeAll {settings : Settings} {s : Session}
    (h : Session.ofSettings settings = .ok s) (ops : List (Operation α))
    (few : ops.length < 2 ^ 64) :
    ((s.executeAll ops).2.ledger.rows.map (·.2.wins)).sum
      = (s.executeAll ops).1.countP (·.isWon) := by
  have hwins : (s.executeAll ops).2.ledger.rows.map (·.2.wins)
      = (s.executeAll ops).2.ledger.regions.map fun r =>
          (s.executeAll ops).1.countP (·.isWonBy r) := by
    rw [Ledger.regions, List.map_map]
    exact List.map_congr_left fun row hrow => (row_executeAll h ops few hrow).1
  have hwinners : ∀ report ∈ (s.executeAll ops).1, ∀ r, report.verdict.winner? = some r →
      r ∈ Region.distinct settings.regions := by
    intro report hreport r hr
    rw [executeAll_eq] at hreport
    exact winner_mem_distinct h hreport hr
  rw [hwins, regions_executeAll h, sum_countP_isWonBy (Region.nodup_distinct _) hwinners]

end Session

end Hedging
