/-
# Lists in order

On a list in which the elements that pass a test stand in front of the others, the
test cuts the list in two: `takeWhile` and `dropWhile` are filters
(`takeWhile_eq_filter`, `dropWhile_eq_filter`), those that pass it have the first places
(`lt_length_filter_iff`), and a filter by either of two tests is one filter after the
other (`filter_or_eq_append`).  With a key that never goes
back, the elements of key `0`, then those of key `1` and so on are the list itself
(`flatMap_range_filter`).
-/

namespace Hedging
namespace Ordered

variable {β γ : Type} {p q : β → Bool}

theorem takeWhile_eq_filter {l : List β}
    (h : l.Pairwise fun a b => p b = true → p a = true) : l.takeWhile p = l.filter p := by
  induction l with
  | nil => rfl
  | cons a l ih =>
    obtain ⟨ha, hl⟩ := List.pairwise_cons.1 h
    cases hp : p a with
    | true => rw [List.takeWhile_cons_of_pos hp, List.filter_cons_of_pos hp, ih hl]
    | false =>
      have hnone : l.filter p = [] :=
        List.filter_eq_nil_iff.2 fun b hb hpb => by simp [ha b hb hpb] at hp
      rw [List.takeWhile_cons_of_neg (by simp [hp]), List.filter_cons_of_neg (by simp [hp]), hnone]

theorem dropWhile_eq_filter {l : List β}
    (h : l.Pairwise fun a b => p b = true → p a = true) : l.dropWhile p = l.filter (!p ·) := by
  induction l with
  | nil => rfl
  | cons a l ih =>
    obtain ⟨ha, hl⟩ := List.pairwise_cons.1 h
    cases hp : p a with
    | true => rw [List.dropWhile_cons_of_pos hp, List.filter_cons_of_neg (by simp [hp]), ih hl]
    | false =>
      have hall : l.filter (!p ·) = l := by
        refine List.filter_eq_self.2 fun b hb => ?_
        cases hpb : p b with
        | true => simp [ha b hb hpb] at hp
        | false => rfl
      rw [List.dropWhile_cons_of_neg (by simp [hp]), List.filter_cons_of_pos (by simp [hp]), hall]

theorem filter_append_filter_not {l : List β}
    (h : l.Pairwise fun a b => p b = true → p a = true) : l.filter p ++ l.filter (!p ·) = l := by
  rw [← takeWhile_eq_filter h, ← dropWhile_eq_filter h, List.takeWhile_append_dropWhile]

/-- As many stand in front as pass the test. -/
theorem lt_length_filter_iff {l : List β} (h : l.Pairwise fun a b => p b = true → p a = true)
    {i : Nat} (hi : i < l.length) : i < (l.filter p).length ↔ p l[i] = true := by
  have hcut := filter_append_filter_not h
  have hget : l[i]? = (l.filter p ++ l.filter (!p ·))[i]? := by rw [hcut]
  rw [List.getElem?_eq_getElem hi] at hget
  constructor
  · intro hlt
    rw [List.getElem?_append_left hlt] at hget
    exact (List.mem_filter.1 (List.mem_of_getElem? hget.symm)).2
  · intro hp
    refine Nat.lt_of_not_le fun hle => ?_
    rw [List.getElem?_append_right hle] at hget
    have hnot := (List.mem_filter.1 (List.mem_of_getElem? hget.symm)).2
    rw [hp] at hnot
    cases hnot

/-- Those that pass the first test stand in front of those that pass the second. -/
theorem filter_or_eq_append {l : List β} (hd : ∀ a ∈ l, p a = true → q a = false)
    (h : l.Pairwise fun a b => q a = true → p b = false) :
    l.filter (fun a => p a || q a) = l.filter p ++ l.filter q := by
  induction l with
  | nil => rfl
  | cons a l ih =>
    obtain ⟨ha, hl⟩ := List.pairwise_cons.1 h
    have ih := ih (fun b hb => hd b (List.mem_cons_of_mem _ hb)) hl
    cases hp : p a with
    | true =>
      have hq := hd a List.mem_cons_self hp
      rw [List.filter_cons_of_pos (by simp [hp]), List.filter_cons_of_pos hp,
        List.filter_cons_of_neg (by simp [hq]), ih, List.cons_append]
    | false =>
      cases hq : q a with
      | true =>
        have hnone : l.filter p = [] := List.filter_eq_nil_iff.2 fun b hb => by simp [ha b hb hq]
        rw [List.filter_cons_of_pos (by simp [hq]), List.filter_cons_of_neg (by simp [hp]),
          List.filter_cons_of_pos hq, ih, hnone, List.nil_append, List.nil_append]
      | false =>
        rw [List.filter_cons_of_neg (by simp [hp, hq]), List.filter_cons_of_neg (by simp [hp]),
          List.filter_cons_of_neg (by simp [hq]), ih]

/-- Taking the elements key by key gives them in their order. -/
theorem flatMap_range_filter {l : List β} {key : β → Nat} (h : l.Pairwise (key · ≤ key ·))
    (n : Nat) :
    (List.range n).flatMap (fun k => l.filter (key · = k)) = l.filter (key · < n) := by
  induction n with
  | zero => simp
  | succ n ih =>
    have hcut : l.filter (key · < n + 1)
        = l.filter (fun a => decide (key a < n) || decide (key a = n)) := by
      refine List.filter_congr fun a _ => ?_
      rw [← Bool.decide_or, decide_eq_decide]
      omega
    rw [List.range_succ, List.flatMap_append, ih, hcut, filter_or_eq_append]
    · simp
    · intro a _ ha
      simp only [decide_eq_true_eq, decide_eq_false_iff_not] at ha ⊢
      omega
    · refine h.imp fun {a b} hab ha => ?_
      simp only [decide_eq_true_eq, decide_eq_false_iff_not] at ha ⊢
      omega

/-- Numbers at which nothing happens can be left out. -/
theorem flatMap_range_of_nil {f : Nat → List γ} {m n : Nat} (hmn : m ≤ n)
    (h : ∀ k, m ≤ k → k < n → f k = []) : (List.range n).flatMap f = (List.range m).flatMap f := by
  obtain ⟨d, rfl⟩ := Nat.exists_eq_add_of_le hmn
  induction d with
  | zero => rfl
  | succ d ih =>
    have hd := ih (by omega) fun k hk hkd => h k hk (by omega)
    rw [← Nat.add_assoc, List.range_succ, List.flatMap_append, hd, List.flatMap_singleton,
      h (m + d) (by omega) (by omega), List.append_nil]

end Ordered
end Hedging
