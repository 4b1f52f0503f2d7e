import Hedging.Json.Reading
import Mathlib.Data.List.Forall2
import Mathlib.Data.List.Induction

/-!
# Members of an object

What a reader learns from the members of an object it learns key by key: a fold that fills two
fields is two folds, one over the values of each key (`Fills.foldlM_eq_ok_iff`).  A value has
merged its members: of each key it keeps the last value alone (`valuesAt_mergeMembers`).

A value that was read to some depth is read to any depth that the nesting of its document fits
into (`Document.value?_of_nesting_le`).
-/

namespace Hedging
namespace Json

/-! ### The values of a key -/

section ValuesAt

variable {κ α β : Type} [DecidableEq κ]

/-- The values that members give to a key, in order. -/
def valuesAt (k : κ) (ms : List (κ × α)) : List α :=
  ms.filterMap fun m => if m.1 = k then some m.2 else none

@[simp] theorem valuesAt_nil (k : κ) : valuesAt k ([] : List (κ × α)) = [] := rfl

@[simp] theorem valuesAt_cons_self (k : κ) (a : α) (ms : List (κ × α)) :
    valuesAt k ((k, a) :: ms) = a :: valuesAt k ms := by
  simp [valuesAt]

theorem valuesAt_cons_of_ne {k k' : κ} (h : k' ≠ k) (a : α) (ms : List (κ × α)) :
    valuesAt k ((k', a) :: ms) = valuesAt k ms := by
  simp [valuesAt, h]

theorem valuesAt_append (k : κ) (ms ms' : List (κ × α)) :
    valuesAt k (ms ++ ms') = valuesAt k ms ++ valuesAt k ms' :=
  List.filterMap_append

theorem valuesAt_map (f : α → β) (k : κ) (ms : List (κ × α)) :
    valuesAt k (ms.map fun m => (m.1, f m.2)) = (valuesAt k ms).map f := by
  induction ms with
  | nil => rfl
  | cons m ms ih =>
    obtain ⟨k', a⟩ := m
    by_cases h : k' = k
    · subst h
      simp [ih]
    · simp only [List.map_cons, valuesAt_cons_of_ne h, ih]

theorem valuesAt_map_some (f : α → β) (k : κ) (ms : List (κ × α)) :
    valuesAt (some k) (ms.map fun m => (some m.1, f m.2)) = (valuesAt k ms).map f := by
  induction ms with
  | nil => rfl
  | cons m ms ih =>
    obtain ⟨k', a⟩ := m
    by_cases h : k' = k
    · subst h
      simp [ih]
    · have hsome : some k' ≠ some k := fun e => h (Option.some.inj e)
      simp only [List.map_cons, valuesAt_cons_of_ne h, valuesAt_cons_of_ne hsome, ih]

theorem valuesAt_eq_nil {k : κ} {ms : List (κ × α)} (h : ∀ m ∈ ms, m.1 ≠ k) :
    valuesAt k ms = [] := by
  induction ms with
  | nil => rfl
  | cons m ms ih =>
    rw [valuesAt_cons_of_ne (h m List.mem_cons_self),
      ih fun m' hm' => h m' (List.mem_cons_of_mem _ hm')]

end ValuesAt

/-- A step over members that fills two fields, each from the values of a key of its own, skips
other keys and fails at a key that could not be read. -/
structure Fills {σ α β δ ε : Type} (add : σ → Option String × δ → Except ε σ) (mk : α → β → σ)
    (k₁ k₂ : String) (f : α → δ → Except ε α) (g : β → δ → Except ε β) : Prop where
  keys_ne : k₁ ≠ k₂
  inj : ∀ {a b a' b'}, mk a b = mk a' b' → a = a' ∧ b = b'
  first : ∀ a b d, add (mk a b) (some k₁, d) = (f a d).map (mk · b)
  second : ∀ a b d, add (mk a b) (some k₂, d) = (g b d).map (mk a)
  other : ∀ s k d, k ≠ k₁ → k ≠ k₂ → add s (some k, d) = .ok s
  unreadable : ∀ s d, ∃ e, add s (none, d) = .error e

/-- **A fold over members is a fold over the values of each key.** -/
theorem Fills.foldlM_eq_ok_iff {σ α β δ ε : Type} {add : σ → Option String × δ → Except ε σ}
    {mk : α → β → σ} {k₁ k₂ : String} {f : α → δ → Except ε α} {g : β → δ → Except ε β}
    (h : Fills add mk k₁ k₂ f g) (ms : List (Option String × δ)) (a : α) (b : β) (a' : α) (b' : β) :
    ms.foldlM add (mk a b) = .ok (mk a' b') ↔
      (∀ m ∈ ms, m.1 ≠ none) ∧ (valuesAt (some k₁) ms).foldlM f a = .ok a' ∧
        (valuesAt (some k₂) ms).foldlM g b = .ok b' := by
  induction ms generalizing a b with
  | nil =>
    simp only [List.foldlM_nil, valuesAt_nil, pure, Except.pure, Except.ok.injEq,
      List.not_mem_nil, false_implies, implies_true, true_and]
    exact ⟨h.inj, fun hab => by rw [hab.1, hab.2]⟩
  | cons m ms ih =>
    obtain ⟨key, d⟩ := m
    cases key with
    | none =>
      obtain ⟨e, he⟩ := h.unreadable (mk a b) d
      simp [List.foldlM_cons, he, bind, Except.bind]
    | some k =>
      -- At a key of one field the step leaves the other field, and its values, as they are.
      by_cases hk₁ : k = k₁
      · subst hk₁
        have hne : some k ≠ some k₂ := fun e => h.keys_ne (Option.some.inj e)
        rw [List.foldlM_cons, h.first, valuesAt_cons_self, valuesAt_cons_of_ne hne,
          List.foldlM_cons]
        cases f a d with
        | error e => simp [bind, Except.bind, Except.map]
        | ok a₁ => simpa [bind, Except.bind, Except.map] using ih _ _
      by_cases hk₂ : k = k₂
      · subst hk₂
        have hne : some k ≠ some k₁ := fun e => h.keys_ne (Option.some.inj e).symm
        rw [List.foldlM_cons, h.second, valuesAt_cons_self, valuesAt_cons_of_ne hne,
          List.foldlM_cons]
        cases g b d with
        | error e => simp [bind, Except.bind, Except.map]
        | ok b₁ => simpa [bind, Except.bind, Except.map] using ih _ _
      · have hne₁ : some k ≠ some k₁ := fun e => hk₁ (Option.some.inj e)
        have hne₂ : some k ≠ some k₂ := fun e => hk₂ (Option.some.inj e)
        rw [List.foldlM_cons, h.other _ k d hk₁ hk₂, valuesAt_cons_of_ne hne₁,
          valuesAt_cons_of_ne hne₂]
        simpa [bind, Except.bind] using ih _ _

/-! ### Folds over the values of a key -/

/-- A fold that changes nothing. -/
theorem foldlM_ok {α β ε : Type} (a : α) (bs : List β) :
    bs.foldlM (fun a _ => (.ok a : Except ε α)) a = .ok a := by
  induction bs with
  | nil => rfl
  | cons b bs ih => exact ih

/-- The last value alone reads as all of them do. -/
theorem foldlM_getLast? {α β ε : Type} {read : α → Except ε β} {as : List α} {b : β} :
    ∀ {b₀ : β}, as.foldlM (fun _ a => read a) b₀ = .ok b →
      as.getLast?.toList.foldlM (fun _ a => read a) b₀ = .ok b := by
  induction as with
  | nil => exact fun h => h
  | cons a as ih =>
    intro b₀ h
    rw [List.foldlM_cons] at h
    cases ha : read a with
    | error e =>
      rw [ha] at h
      cases h
    | ok b₁ =>
      rw [ha] at h
      have hrest := ih h
      -- Only where `a` is the last one does it matter where the fold starts.
      cases as with
      | nil => simpa [ha, bind, Except.bind] using h
      | cons a' as => exact hrest

theorem getLast?_toList_of_length_le_one {α : Type} {as : List α} (h : as.length ≤ 1) :
    as.getLast?.toList = as := by
  match as, h with
  | [], _ => rfl
  | [a], _ => rfl

/-! ### Merged members -/

/-- Members in the order of their keys, no key twice. -/
def InKeyOrder (ms : List (String × Value)) : Prop := ms.Pairwise fun m m' => m.1 < m'.1

theorem mem_insertMember {k : String} {v : Value} {ms : List (String × Value)}
    {m : String × Value} (h : m ∈ insertMember k v ms) : m = (k, v) ∨ m ∈ ms := by
  fun_induction insertMember k v ms with
  | case1 => exact .inl (List.mem_singleton.1 h)
  | case2 v' rest =>
    rcases List.mem_cons.1 h with h | h
    · exact .inl h
    · exact .inr (List.mem_cons_of_mem _ h)
  | case3 => exact List.mem_cons.1 h
  | case4 k' v' rest hne hlt ih =>
    rcases List.mem_cons.1 h with h | h
    · exact .inr (h ▸ List.mem_cons_self)
    · exact (ih h).imp_right (List.mem_cons_of_mem _)

theorem inKeyOrder_insertMember {k : String} {v : Value} {ms : List (String × Value)}
    (h : InKeyOrder ms) : InKeyOrder (insertMember k v ms) := by
  fun_induction insertMember k v ms with
  | case1 => exact List.pairwise_singleton _ _
  | case2 v' rest => exact List.pairwise_cons.2 (List.pairwise_cons.1 h)
  | case3 k' v' rest hne hlt =>
    refine List.pairwise_cons.2 ⟨fun m hm => ?_, h⟩
    rcases List.mem_cons.1 hm with rfl | hm
    · exact hlt
    · exact String.lt_trans hlt ((List.pairwise_cons.1 h).1 m hm)
  | case4 k' v' rest hne hlt ih =>
    obtain ⟨hhead, htail⟩ := List.pairwise_cons.1 h
    refine List.pairwise_cons.2 ⟨fun m hm => ?_, ih htail⟩
    rcases mem_insertMember hm with rfl | hm
    · exact String.not_le.1 fun hle => hne (String.le_antisymm (String.not_lt.1 hlt) hle).symm
    · exact hhead m hm

theorem valuesAt_insertMember_self {k : String} {v : Value} {ms : List (String × Value)}
    (h : InKeyOrder ms) : valuesAt k (insertMember k v ms) = [v] := by
  have later : ∀ {ms : List (String × Value)}, (∀ m ∈ ms, k < m.1) → valuesAt k ms = [] :=
    fun hlt => valuesAt_eq_nil fun m hm e => String.lt_irrefl k (e ▸ hlt m hm)
  fun_induction insertMember k v ms with
  | case1 => simp
  | case2 v' rest => rw [valuesAt_cons_self, later (List.pairwise_cons.1 h).1]
  | case3 k' v' rest hne hlt =>
    rw [valuesAt_cons_self, later]
    intro m hm
    rcases List.mem_cons.1 hm with rfl | hm
    · exact hlt
    · exact String.lt_trans hlt ((List.pairwise_cons.1 h).1 m hm)
  | case4 k' v' rest hne hlt ih =>
    rw [valuesAt_cons_of_ne (Ne.symm hne), ih (List.pairwise_cons.1 h).2]

theorem valuesAt_insertMember_of_ne {k k' : String} (h : k ≠ k') (v : Value)
    (ms : List (String × Value)) : valuesAt k' (insertMember k v ms) = valuesAt k' ms := by
  fun_induction insertMember k v ms with
  | case1 => rw [valuesAt_cons_of_ne h]
  | case2 v' rest => rw [valuesAt_cons_of_ne h, valuesAt_cons_of_ne h]
  | case3 => rw [valuesAt_cons_of_ne h]
  | case4 k'' v' rest hne hlt ih =>
    by_cases hk : k'' = k'
    · subst hk
      rw [valuesAt_cons_self, valuesAt_cons_self, ih]
    · rw [valuesAt_cons_of_ne hk, valuesAt_cons_of_ne hk, ih]

theorem mergeMembers_append_singleton (ms : List (String × Value)) (m : String × Value) :
    mergeMembers (ms ++ [m]) = insertMember m.1 m.2 (mergeMembers ms) := by
  rw [mergeMembers, List.foldl_append]
  rfl

theorem inKeyOrder_mergeMembers (ms : List (String × Value)) : InKeyOrder (mergeMembers ms) := by
  induction ms using List.reverseRecOn with
  | nil => exact List.Pairwise.nil
  | append_singleton ms m ih =>
    rw [mergeMembers_append_singleton]
    exact inKeyOrder_insertMember ih

/-- **Merging keeps the last value of each key.** -/
theorem valuesAt_mergeMembers (k : String) (ms : List (String × Value)) :
    valuesAt k (mergeMembers ms) = (valuesAt k ms).getLast?.toList := by
  induction ms using List.reverseRecOn with
  | nil => rfl
  | append_singleton ms m ih =>
    obtain ⟨k', v⟩ := m
    rw [mergeMembers_append_singleton, valuesAt_append]
    by_cases hk : k' = k
    · subst hk
      rw [valuesAt_insertMember_self (inKeyOrder_mergeMembers ms)]
      simp
    · rw [valuesAt_insertMember_of_ne hk, ih, valuesAt_cons_of_ne hk, valuesAt_nil,
        List.append_nil]

/-! ### Reading values -/

theorem mapM_eq_some_iff {α β : Type} {f : α → Option β} {as : List α} :
    ∀ {bs : List β}, as.mapM f = some bs ↔ List.Forall₂ (fun a b => f a = some b) as bs := by
  induction as with
  | nil =>
    intro bs
    simp [eq_comm]
  | cons a as ih =>
    intro bs
    cases bs with
    | nil => simp [List.mapM_cons, Option.bind_eq_some_iff]
    | cons b bs => simp [List.mapM_cons, Option.bind_eq_some_iff, ← ih]

namespace Document

theorem value?_array_iff {n : Nat} {items : List Document} {v : Value} :
    (array items).value? n = some v ↔
      ∃ m vs, n = m + 1 ∧ List.Forall₂ (fun d w => d.value? m = some w) items vs ∧
        v = .array vs := by
  cases n with
  | zero => simp [value?]
  | succ n =>
    simp only [value?, Option.bind_eq_bind, Option.bind_eq_some_iff, Option.pure_def,
      Option.some.injEq, mapM_eq_some_iff]
    constructor
    · rintro ⟨vs, hvs, rfl⟩
      exact ⟨n, vs, rfl, hvs, rfl⟩
    · rintro ⟨m, vs, hm, hvs, rfl⟩
      obtain rfl := Nat.succ.inj hm
      exact ⟨vs, hvs, rfl⟩

theorem value?_object_iff {n : Nat} {members : List (Option String × Document)} {v : Value} :
    (object members).value? n = some v ↔
      ∃ m ms, n = m + 1 ∧
        List.Forall₂ (fun d w => d.1 = some w.1 ∧ d.2.value? m = some w.2) members ms ∧
        v = .object (mergeMembers ms) := by
  have hmember : ∀ {n : Nat} {d : Option String × Document} {w : String × Value},
      (d.1.bind fun k => (d.2.value? n).bind fun u => some (k, u)) = some w ↔
        d.1 = some w.1 ∧ d.2.value? n = some w.2 := by
    rintro n d ⟨k, u⟩
    simp [Option.bind_eq_some_iff]
  cases n with
  | zero => simp [value?]
  | succ n =>
    simp only [value?, Option.bind_eq_bind, Option.bind_eq_some_iff, Option.pure_def,
      Option.some.injEq, mapM_eq_some_iff, hmember]
    constructor
    · rintro ⟨ms, hms, rfl⟩
      exact ⟨n, ms, rfl, hms, rfl⟩
    · rintro ⟨m, ms, hm, hms, rfl⟩
      obtain rfl := Nat.succ.inj hm
      exact ⟨ms, hms, rfl⟩

/-- A value has the head of its document. -/
theorem met?_of_value? {n : Nat} {d : Document} {v : Value} (h : d.value? n = some v) :
    d.met? = some v.met := by
  cases d with
  | null => cases n <;> obtain rfl := Option.some.inj h <;> rfl
  | bool b => cases n <;> obtain rfl := Option.some.inj h <;> rfl
  | number x =>
    have hx : x.map Value.number = some v := by cases n <;> exact h
    obtain ⟨y, rfl, rfl⟩ := Option.map_eq_some_iff.1 hx
    rfl
  | string s =>
    have hs : s.map Value.string = some v := by cases n <;> exact h
    obtain ⟨y, rfl, rfl⟩ := Option.map_eq_some_iff.1 hs
    rfl
  | array items =>
    obtain ⟨_, _, -, -, rfl⟩ := value?_array_iff.1 h
    rfl
  | object members =>
    obtain ⟨_, _, -, -, rfl⟩ := value?_object_iff.1 h
    rfl

/-- The members of an object as a reader meets them are those of its value before merging. -/
theorem map_met?_eq {n : Nat} {members : List (Option String × Document)}
    {ms : List (String × Value)}
    (h : List.Forall₂ (fun d w => d.1 = some w.1 ∧ d.2.value? n = some w.2) members ms) :
    (members.map fun m => (m.1, m.2.met?)) = ms.map fun m => (some m.1, some m.2.met) := by
  induction h with
  | nil => rfl
  | cons hhead _ ih => rw [List.map_cons, List.map_cons, ih, hhead.1, met?_of_value? hhead.2]

mutual

/-- How deep the arrays and objects of a document are nested. -/
def nesting : Document → Nat
  | .array items => itemsNesting items + 1
  | .object members => membersNesting members + 1
  | _ => 0

/-- How deep the deepest of some items is nested. -/
def itemsNesting : List Document → Nat
  | [] => 0
  | d :: ds => max d.nesting (itemsNesting ds)

/-- How deep the deepest of some members is nested. -/
def membersNesting : List (Option String × Document) → Nat
  | [] => 0
  | (_, d) :: ms => max d.nesting (membersNesting ms)

end

/-- **The depth to which a document is read does not matter while the document fits.** -/
theorem value?_of_nesting_le {m n : Nat} {d : Document} {v : Value} (h : d.value? m = some v)
    (hn : d.nesting ≤ n) : d.value? n = some v := by
  induction m generalizing n d v with
  | zero =>
    cases d with
    | null | bool | number | string => cases n <;> exact h
    | array | object => cases h
  | succ m ih =>
    cases d with
    | null | bool | number | string => cases n <;> exact h
    | array items =>
      obtain ⟨m', vs, hm, hvs, rfl⟩ := value?_array_iff.1 h
      obtain rfl := Nat.succ.inj hm
      obtain ⟨n, rfl⟩ : ∃ n', n = n' + 1 := ⟨n - 1, by rw [nesting] at hn; omega⟩
      have hitems : itemsNesting items ≤ n := by rw [nesting] at hn; omega
      refine value?_array_iff.2 ⟨n, vs, rfl, ?_, rfl⟩
      -- The bound on the depth goes from the items to each of them, and to its induction.
      clear h hn
      induction hvs with
      | nil => exact .nil
      | cons hhead _ ihs =>
        rw [itemsNesting] at hitems
        exact .cons (ih hhead (by omega)) (ihs (by omega))
    | object members =>
      obtain ⟨m', ms, hm, hms, rfl⟩ := value?_object_iff.1 h
      obtain rfl := Nat.succ.inj hm
      obtain ⟨n, rfl⟩ : ∃ n', n = n' + 1 := ⟨n - 1, by rw [nesting] at hn; omega⟩
      have hmembers : membersNesting members ≤ n := by rw [nesting] at hn; omega
      refine value?_object_iff.2 ⟨n, ms, rfl, ?_, rfl⟩
      clear h hn
      induction hms with
      | nil => exact .nil
      | cons hhead _ ihs =>
        rw [membersNesting] at hmembers
        exact .cons ⟨hhead.1, ih hhead.2 (by omega)⟩ (ihs (by omega))

end Document
end Json
end Hedging
