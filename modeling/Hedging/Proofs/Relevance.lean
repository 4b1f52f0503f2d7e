import Hedging.Proofs.Grammar
import Mathlib.Data.List.Perm.Basic

/-!
# Which members of an object matter

Readers of thresholds skip members with other keys (`ThresholdRequest.Padded`), and those of a
value see its members merged, in the order of the keys and the last one of each
(`ThresholdRequest.ofValueMembers_mergeMembers_congr`).  The readers of a document take all members
in turn: each one with the key of a threshold has to be `null` or an integer, and the last one
stays (`ThresholdRequest.ofDocument_object_eq_ok_iff`).  What this means for texts that differ by
other members or by their order is `relevant_members`.
-/

namespace Hedging

open Json

/-! ### Members of a value -/

namespace Json

/-- **Members in the order of their keys are determined by the values of each key.** -/
theorem eq_of_valuesAt_eq {ms ms' : List (String × Value)} (h : InKeyOrder ms)
    (h' : InKeyOrder ms') (heq : ∀ k, valuesAt k ms = valuesAt k ms') : ms = ms' := by
  have nodup : ∀ {l : List (String × Value)}, InKeyOrder l → l.Nodup := by
    intro l hl
    refine List.Pairwise.imp (fun {m m'} hlt e => ?_) hl
    rw [e] at hlt
    exact String.lt_irrefl _ hlt
  have hmem : ∀ m, m ∈ ms ↔ m ∈ ms' := fun m => by
    rw [show m = (m.1, m.2) from rfl, ← mem_valuesAt, heq, mem_valuesAt]
  refine ((List.perm_ext_iff_of_nodup (nodup h) (nodup h')).2 hmem).eq_of_pairwise ?_ h h'
  exact fun m m' _ _ hlt hgt => absurd (String.lt_trans hlt hgt) (String.lt_irrefl _)

theorem valuesAt_filter_of_pos {α : Type} {p : String → Bool} {k : String} (hk : p k = true)
    (ms : List (String × α)) : valuesAt k (ms.filter fun m => p m.1) = valuesAt k ms := by
  simp only [valuesAt, List.filterMap_filter]
  refine List.filterMap_congr fun m _ => ?_
  by_cases hm : m.1 = k
  · rw [hm, hk, if_pos rfl]
  · rw [if_neg hm, ite_self]

/-- The value of a member of an object that is read to a depth. -/
def IsMember (n : Nat) (m : Option String × Document) (w : String × Value) : Prop :=
  m.1 = some w.1 ∧ m.2.value? n = some w.2

/-- The values of a key of the members are the values of the documents of this key. -/
theorem forall₂_valuesAt {n : Nat} {members : List (Option String × Document)}
    {ws : List (String × Value)} (h : List.Forall₂ (IsMember n) members ws) (k : String) :
    List.Forall₂ (fun d v => Document.value? n d = some v) (valuesAt (some k) members)
      (valuesAt k ws) := by
  induction h with
  | nil => exact .nil
  | @cons m w members ws hhead _ ih =>
    obtain ⟨key, d⟩ := m
    obtain ⟨k', v⟩ := w
    obtain ⟨rfl, hv⟩ := hhead
    by_cases hk : k' = k
    · subst hk
      rw [valuesAt_cons_self, valuesAt_cons_self]
      exact .cons hv ih
    · rw [valuesAt_cons_of_ne hk, valuesAt_cons_of_ne fun e => hk (Option.some.inj e)]
      exact ih

theorem valuesAt_congr {n : Nat} {members members' : List (Option String × Document)}
    {ws ws' : List (String × Value)} {k : String}
    (heq : valuesAt (some k) members' = valuesAt (some k) members)
    (h : List.Forall₂ (IsMember n) members ws) (h' : List.Forall₂ (IsMember n) members' ws') :
    valuesAt k ws' = valuesAt k ws := by
  have hmap := mapM_eq_some_iff.2 (forall₂_valuesAt h k)
  have hmap' := mapM_eq_some_iff.2 (forall₂_valuesAt h' k)
  rw [heq] at hmap'
  exact Option.some.inj (hmap'.symm.trans hmap)

theorem exists_forall₂ {α β : Type} {r : α → β → Prop} {as : List α} (h : ∀ a ∈ as, ∃ b, r a b) :
    ∃ bs, List.Forall₂ r as bs := by
  induction as with
  | nil => exact ⟨[], .nil⟩
  | cons a as ih =>
    obtain ⟨b, hb⟩ := h a List.mem_cons_self
    obtain ⟨bs, hbs⟩ := ih fun a' ha' => h a' (List.mem_cons_of_mem _ ha')
    exact ⟨b :: bs, .cons hb hbs⟩

theorem exists_of_forall₂ {α β : Type} {r : α → β → Prop} {as : List α} {bs : List β}
    (h : List.Forall₂ r as bs) : ∀ a ∈ as, ∃ b, r a b := by
  induction h with
  | nil => exact fun a ha => absurd ha List.not_mem_nil
  | cons hhead _ ih => exact List.forall_mem_cons.2 ⟨⟨_, hhead⟩, ih⟩

theorem Document.exists_value?_object_iff {n : Nat} {members : List (Option String × Document)} :
    (∃ v, (object members).value? (n + 1) = some v) ↔ ∀ m ∈ members, ∃ w, IsMember n m w := by
  constructor
  · rintro ⟨v, hv⟩ m hm
    obtain ⟨_, ws, hn, hws, -⟩ := value?_object_iff.1 hv
    obtain rfl := Nat.succ.inj hn
    exact exists_of_forall₂ hws m hm
  · intro h
    obtain ⟨ws, hws⟩ := exists_forall₂ h
    exact ⟨_, value?_object_iff.2 ⟨n, ws, rfl, hws, rfl⟩⟩

/-- A reader of values sees no difference between two objects if it sees none between their
merged members and both can be read or neither. -/
theorem Document.map_value?_object_congr {β : Type} {n : Nat}
    {members members' : List (Option String × Document)} {read : Value → β}
    (hall : (∀ m ∈ members', ∃ w, IsMember n m w) ↔ ∀ m ∈ members, ∃ w, IsMember n m w)
    (hread : ∀ ws ws', List.Forall₂ (IsMember n) members ws →
      List.Forall₂ (IsMember n) members' ws' →
        read (.object (mergeMembers ws')) = read (.object (mergeMembers ws))) :
    ((object members').value? (n + 1)).map read = ((object members).value? (n + 1)).map read := by
  by_cases h : ∀ m ∈ members, ∃ w, IsMember n m w
  · obtain ⟨ws, hws⟩ := exists_forall₂ h
    obtain ⟨ws', hws'⟩ := exists_forall₂ (hall.2 h)
    rw [value?_object_iff.2 ⟨n, ws, rfl, hws, rfl⟩, value?_object_iff.2 ⟨n, ws', rfl, hws', rfl⟩,
      Option.map_some, Option.map_some, hread ws ws' hws hws']
  · have hnone : (object members).value? (n + 1) = none :=
      Option.eq_none_iff_forall_ne_some.2 fun v hv => h (exists_value?_object_iff.1 ⟨v, hv⟩)
    have hnone' : (object members').value? (n + 1) = none :=
      Option.eq_none_iff_forall_ne_some.2 fun v hv =>
        h (hall.1 (exists_value?_object_iff.1 ⟨v, hv⟩))
    rw [hnone, hnone']

/-- A text is read as another one if their documents are and both are JSON or neither is. -/
theorem readText_congr {α : Type} {read : Document → Except Refusal α} {S T : String}
    {d d' : Document} (hS : Document.ofText? S = some d) (hT : Document.ofText? T = some d')
    (hread : read d' = read d)
    (hvalue : (d'.value? maxDepth).isSome = (d.value? maxDepth).isSome) :
    readText read T = readText read S := by
  simp only [readText, hS, hT, hread, hvalue]

end Json

/-! ### Members without meaning -/

namespace ThresholdRequest

/-- Whether a key is the one of a threshold. -/
def isKey (key : String) : Bool := key = firstKey || key = stepKey

theorem isKey_iff {key : String} : isKey key = true ↔ key = firstKey ∨ key = stepKey := by
  simp [isKey]

/-- The members `members'` are `members`, in their order, and between them others, whose keys are
not those of a threshold and whose values are JSON, nested at most `n` deep. -/
inductive Padded (n : Nat) : List (Option String × Document) → List (Option String × Document) →
    Prop
  | nil : Padded n [] []
  | keep {members members' : List (Option String × Document)} (m : Option String × Document)
    (h : Padded n members members') : Padded n (m :: members) (m :: members')
  | insert {members members' : List (Option String × Document)} {key : String} {d : Document}
    {v : Value} (unknown : isKey key = false) (json : d.value? n = some v)
    (h : Padded n members members') : Padded n members ((some key, d) :: members')

theorem addMember_of_unknown {key : String} (h : isKey key = false) (r : ThresholdRequest)
    (met : Option Met) : addMember r (some key, met) = .ok r := by
  simp only [isKey, Bool.or_eq_false_iff, decide_eq_false_iff_not] at h
  simp [addMember, h.1, h.2]

namespace Padded

variable {n : Nat} {members members' : List (Option String × Document)}

/-- **Typed readers pass over members without meaning**, whatever they answer. -/
theorem ofDocument_eq (h : Padded n members members') :
    ofDocument (.object members') = ofDocument (.object members) := by
  have hfold : ∀ r, (members'.map fun m => (m.1, m.2.met?)).foldlM addMember r
      = (members.map fun m => (m.1, m.2.met?)).foldlM addMember r := by
    induction h with
    | nil => exact fun r => rfl
    | keep m _ ih =>
      intro r
      rw [List.map_cons, List.map_cons, List.foldlM_cons, List.foldlM_cons]
      exact congrArg _ (funext ih)
    | insert unknown _ _ ih =>
      intro r
      rw [List.map_cons, List.foldlM_cons, addMember_of_unknown unknown]
      exact ih r
  exact hfold {}

theorem valuesAt_eq (h : Padded n members members') {key : String} (known : isKey key = true) :
    valuesAt (some key) members' = valuesAt (some key) members := by
  induction h with
  | nil => rfl
  | keep m _ ih => simp only [valuesAt, List.filterMap_cons] at ih ⊢; rw [ih]
  | @insert _ _ key' _ _ unknown _ _ ih =>
    have hne : some key' ≠ some key := by
      rintro ⟨⟩
      rw [known] at unknown
      cases unknown
    rw [valuesAt_cons_of_ne hne, ih]

theorem forall_isMember_iff (h : Padded n members members') :
    (∀ m ∈ members', ∃ w, IsMember n m w) ↔ ∀ m ∈ members, ∃ w, IsMember n m w := by
  induction h with
  | nil => rfl
  | keep m _ ih => rw [List.forall_mem_cons, List.forall_mem_cons, ih]
  | @insert _ _ key _ v _ json _ ih =>
    rw [List.forall_mem_cons, ih]
    exact and_iff_right ⟨(key, v), rfl, json⟩

end Padded

/-- The thresholds of an object are read from the members that have their keys. -/
theorem ofValueMembers_filter (ms : List (String × Value)) :
    ofValueMembers (ms.filter fun m => isKey m.1) = ofValueMembers ms := by
  have hfold : ∀ r, ((ms.filter fun m => isKey m.1).map fun m => (some m.1, some m.2.met)).foldlM
      addMember r = (ms.map fun m => (some m.1, some m.2.met)).foldlM addMember r := by
    induction ms with
    | nil => exact fun r => rfl
    | cons m ms ih =>
      intro r
      cases hkey : isKey m.1 with
      | true =>
        rw [List.filter_cons, if_pos hkey, List.map_cons, List.map_cons, List.foldlM_cons,
          List.foldlM_cons]
        exact congrArg _ (funext ih)
      | false =>
        rw [List.filter_cons, if_neg (by simp [hkey]), List.map_cons, List.foldlM_cons,
          addMember_of_unknown hkey]
        exact ih r
  exact hfold {}

/-- **Of a merged object the thresholds are read from the last value of each of their keys**,
whatever is answered. -/
theorem ofValueMembers_mergeMembers_congr {ms ms' : List (String × Value)}
    (h : ∀ key, isKey key = true → valuesAt key ms' = valuesAt key ms) :
    ofValueMembers (mergeMembers ms') = ofValueMembers (mergeMembers ms) := by
  rw [← ofValueMembers_filter (mergeMembers ms'), ← ofValueMembers_filter (mergeMembers ms)]
  refine congrArg _ (eq_of_valuesAt_eq ((inKeyOrder_mergeMembers ms').filter _)
    ((inKeyOrder_mergeMembers ms).filter _) fun key => ?_)
  cases hkey : isKey key with
  | true =>
    rw [valuesAt_filter_of_pos hkey, valuesAt_filter_of_pos hkey, valuesAt_mergeMembers,
      valuesAt_mergeMembers, h key hkey]
  | false =>
    have hnil : ∀ l : List (String × Value), valuesAt key (l.filter fun m => isKey m.1) = [] := by
      refine fun l => valuesAt_eq_nil fun m hm e => ?_
      have hm := (List.mem_filter.1 hm).2
      rw [e, hkey] at hm
      cases hm
    rw [hnil, hnil]

/-! ### The last value of a threshold -/

/-- What a document says for a threshold: `null` gives none, and an integer of 64 bits itself. -/
inductive Says : Document → Option Int64 → Prop
  | null : Says .null none
  | integer (n : Int64) : Says (.number (some (.integer n.toInt))) (some n)

/-- What the last one of some documents says for a threshold, nothing if there is none. -/
def SaysLast (ds : List Document) (o : Option Int64) : Prop :=
  match ds.getLast? with
  | none => o = none
  | some d => Says d o

theorem saysLast_append_singleton {ds : List Document} {d : Document} {o : Option Int64} :
    SaysLast (ds ++ [d]) o ↔ Says d o := by
  rw [SaysLast, List.getLast?_concat]

theorem readOptionalInt64_met?_eq_ok_iff {d : Document} {o : Option Int64} :
    readOptionalInt64 d.met? = .ok o ↔ Says d o := by
  rw [readOptionalInt64_eq_ok_iff]
  constructor
  · intro h
    cases d with
    | null =>
      rcases h with ⟨-, rfl⟩ | ⟨n, hmet, -⟩
      · exact .null
      · cases hmet
    | number x =>
      rcases h with ⟨hmet, -⟩ | ⟨n, hmet, rfl⟩
      · obtain ⟨y, -, hy⟩ := Option.map_eq_some_iff.1 hmet
        cases hy
      · obtain ⟨y, rfl, hy⟩ := Option.map_eq_some_iff.1 hmet
        obtain rfl := Met.number.inj hy
        exact .integer n
    | bool | string | array | object => simp [Document.met?] at h
  · rintro (- | n)
    · exact .inl ⟨rfl, rfl⟩
    · exact .inr ⟨n, rfl, rfl⟩

theorem exists_saysLast {ds : List Document} (h : ∀ d ∈ ds, ∃ o, Says d o) :
    ∃ o, SaysLast ds o := by
  induction ds using List.reverseRecOn with
  | nil => exact ⟨none, rfl⟩
  | append_singleton ds d _ =>
    obtain ⟨o, ho⟩ := h d (List.mem_append_right ds (List.mem_singleton_self d))
    exact ⟨o, saysLast_append_singleton.2 ho⟩

/-- **The documents of a threshold are read if each of them is**, and the last one stays. -/
theorem foldlM_met?_eq_ok_iff {ds : List Document} {o : Option Int64} :
    (ds.map Document.met?).foldlM (fun _ met => readOptionalInt64 met) none = .ok o ↔
      (∀ d ∈ ds, ∃ o, Says d o) ∧ SaysLast ds o := by
  induction ds using List.reverseRecOn generalizing o with
  | nil =>
    constructor
    · intro h
      obtain rfl := Except.ok.inj h
      exact ⟨fun d hd => absurd hd List.not_mem_nil, rfl⟩
    · rintro ⟨-, rfl⟩
      rfl
  | append_singleton ds d ih =>
    rw [List.map_append, List.foldlM_append, bind_eq_ok_iff, saysLast_append_singleton,
      List.forall_mem_append, List.forall_mem_singleton]
    simp only [List.map_cons, List.map_nil, List.foldlM_cons, List.foldlM_nil, bind_pure,
      readOptionalInt64_met?_eq_ok_iff, ih]
    constructor
    · rintro ⟨_, ⟨hall, -⟩, hd⟩
      exact ⟨⟨hall, o, hd⟩, hd⟩
    · rintro ⟨⟨hall, -⟩, hd⟩
      obtain ⟨o', ho'⟩ := exists_saysLast hall
      exact ⟨o', ⟨hall, ho'⟩, hd⟩

/-- **What an object says for its thresholds.** -/
theorem ofDocument_object_eq_ok_iff {members : List (Option String × Document)}
    {o : ThresholdRequest} : ofDocument (.object members) = .ok o ↔
      (∀ m ∈ members, m.1 ≠ none) ∧
      (∀ key d, isKey key = true → (some key, d) ∈ members → ∃ o, Says d o) ∧
      SaysLast (valuesAt (some firstKey) members) o.first ∧
      SaysLast (valuesAt (some stepKey) members) o.step := by
  have hfold := fills_addMember.foldlM_eq_ok_iff (members.map fun m => (m.1, m.2.met?))
    none none o.first o.step
  simp only [valuesAt_map, foldlM_met?_eq_ok_iff, List.forall_mem_map, mem_valuesAt] at hfold
  refine hfold.trans (and_congr_right fun _ => ?_)
  constructor
  · rintro ⟨⟨hfirst, hfirstLast⟩, hstep, hstepLast⟩
    refine ⟨fun key d hkey hd => ?_, hfirstLast, hstepLast⟩
    rcases isKey_iff.1 hkey with rfl | rfl
    · exact hfirst d hd
    · exact hstep d hd
  · rintro ⟨hall, hfirstLast, hstepLast⟩
    exact ⟨⟨fun d hd => hall firstKey d rfl hd, hfirstLast⟩,
      fun d hd => hall stepKey d rfl hd, hstepLast⟩

/-- Whether a member with the key of a threshold says nothing for it. -/
def Misfit (members : List (Option String × Document)) : Prop :=
  ∃ key d, isKey key = true ∧ (some key, d) ∈ members ∧ ∀ o, ¬Says d o

/-- **An object whose keys can be read is refused exactly for such a member**, whether it is the
last one of its key or not. -/
theorem exists_ofDocument_object_eq_ok_iff {members : List (Option String × Document)}
    (keys : ∀ m ∈ members, m.1 ≠ none) :
    (∃ o, ofDocument (.object members) = .ok o) ↔ ¬Misfit members := by
  constructor
  · rintro ⟨o, ho⟩ ⟨key, d, hkey, hd, hnone⟩
    obtain ⟨-, hall, -⟩ := ofDocument_object_eq_ok_iff.1 ho
    obtain ⟨x, hx⟩ := hall key d hkey hd
    exact hnone x hx
  · intro hfit
    have hall : ∀ key d, isKey key = true → (some key, d) ∈ members → ∃ o, Says d o := by
      intro key d hkey hd
      by_contra hnone
      exact hfit ⟨key, d, hkey, hd, fun o ho => hnone ⟨o, ho⟩⟩
    have hlast : ∀ key, isKey key = true → ∃ o, SaysLast (valuesAt (some key) members) o :=
      fun key hkey => exists_saysLast fun d hd => hall key d hkey (mem_valuesAt.1 hd)
    obtain ⟨a, ha⟩ := hlast firstKey rfl
    obtain ⟨b, hb⟩ := hlast stepKey rfl
    exact ⟨⟨a, b⟩, ofDocument_object_eq_ok_iff.2 ⟨keys, hall, ha, hb⟩⟩

/-! ### The order of members -/

/-- The members `members'` are `members` in an order that leaves those of one key as they
stood. -/
def Reordered (members members' : List (Option String × Document)) : Prop :=
  ∀ key, valuesAt key members' = valuesAt key members

namespace Reordered

variable {members members' : List (Option String × Document)}

theorem mem_iff (h : Reordered members members') (m : Option String × Document) :
    m ∈ members' ↔ m ∈ members := by
  rw [show m = (m.1, m.2) from rfl, ← mem_valuesAt, h, mem_valuesAt]

/-- Neighbours of different keys may change places. -/
theorem swap {m m' : Option String × Document} (hne : m.1 ≠ m'.1) :
    Reordered (m :: m' :: members) (m' :: m :: members) := by
  intro key
  obtain ⟨k, d⟩ := m
  obtain ⟨k', d'⟩ := m'
  by_cases hk : k = key
  · subst hk
    rw [valuesAt_cons_of_ne hne.symm, valuesAt_cons_self, valuesAt_cons_self,
      valuesAt_cons_of_ne hne.symm]
  · rw [valuesAt_cons_of_ne hk d (_ :: members)]
    by_cases hk' : k' = key
    · subst hk'
      rw [valuesAt_cons_self, valuesAt_cons_self, valuesAt_cons_of_ne hk]
    · rw [valuesAt_cons_of_ne hk', valuesAt_cons_of_ne hk', valuesAt_cons_of_ne hk]

/-- **Typed readers accept members in any order**, those of one key in theirs, as the same. -/
theorem ofDocument_eq_ok_iff (h : Reordered members members') {o : ThresholdRequest} :
    ofDocument (.object members') = .ok o ↔ ofDocument (.object members) = .ok o := by
  simp only [ofDocument_object_eq_ok_iff, h.mem_iff, h (some _)]

end Reordered
end ThresholdRequest

/-! ### All readers -/

open ThresholdRequest (Padded Reordered Says SaysLast Misfit isKey firstKey stepKey)

section Values

variable {n : Nat} {members members' : List (Option String × Document)}

/-- **Readers of values look at the thresholds of all members that are JSON.** -/
theorem map_ofValue_object_congr
    (hall : (∀ m ∈ members', ∃ w, IsMember n m w) ↔ ∀ m ∈ members, ∃ w, IsMember n m w)
    (hkeys : ∀ key, isKey key = true →
      valuesAt (some key) members' = valuesAt (some key) members) :
    let value := (Document.object members).value? (n + 1)
    let value' := (Document.object members').value? (n + 1)
    value'.isSome = value.isSome ∧ value'.map Intent.ofValue = value.map Intent.ofValue ∧
      value'.map Thresholds.ofValue = value.map Thresholds.ofValue := by
  have hmembers : ∀ ws ws', List.Forall₂ (IsMember n) members ws →
      List.Forall₂ (IsMember n) members' ws' →
        ThresholdRequest.ofValueMembers (mergeMembers ws') =
          ThresholdRequest.ofValueMembers (mergeMembers ws) :=
    fun ws ws' hws hws' => ThresholdRequest.ofValueMembers_mergeMembers_congr fun key hkey =>
      valuesAt_congr (hkeys key hkey) hws hws'
  intro value value'
  refine ⟨?some, ?intent, ?thresholds⟩
  case some =>
    have hunit : (value'.map fun _ => ()) = value.map fun _ => () :=
      Document.map_value?_object_congr hall fun _ _ _ _ => rfl
    simpa only [Option.isSome_map] using congrArg Option.isSome hunit
  case intent =>
    refine Document.map_value?_object_congr hall fun ws ws' hws hws' => ?_
    rw [Intent.ofValue, Intent.ofValue, hmembers ws ws' hws hws']
  case thresholds =>
    refine Document.map_value?_object_congr hall fun ws ws' hws hws' => ?_
    rw [Thresholds.ofValue, Thresholds.ofValue, hmembers ws ws' hws hws']

namespace Intent

theorem ofDocument_object_eq_ok_iff {i : Intent} : ofDocument n (.object members) = .ok i ↔
    ((Document.object members).value? n).isSome = true ∧
      ∃ o, ThresholdRequest.ofDocument (.object members) = .ok o ∧ i = thresholds o := by
  cases hv : (Document.object members).value? n with
  | none => simp [ofDocument, hv]
  | some v => simp [ofDocument, hv, ThresholdRequest.ofDocument, ofReading_eq_ok_iff]

theorem ofDocument_object_congr
    (hvalue : ((Document.object members').value? n).isSome =
      ((Document.object members).value? n).isSome)
    (hread : ThresholdRequest.ofDocument (.object members') =
      ThresholdRequest.ofDocument (.object members)) :
    ofDocument n (.object members') = ofDocument n (.object members) := by
  have hread : ofReading (ThresholdRequest.ofDocument (.object members')) =
    ofReading (ThresholdRequest.ofDocument (.object members)) := congrArg _ hread
  cases hv : (Document.object members).value? n with
  | none =>
    rw [hv, Option.isSome_none, Option.isSome_eq_false_iff, Option.isNone_iff_eq_none] at hvalue
    rw [ofDocument, ofDocument, hv, hvalue]
  | some v =>
    rw [hv, Option.isSome_some, Option.isSome_iff_exists] at hvalue
    obtain ⟨v', hv'⟩ := hvalue
    rw [ofDocument, ofDocument, hv, hv']
    exact hread

end Intent
end Values

/-- All readers of thresholds answer two texts alike: those of a document, with a request or an
intent, and those of the value, if the text has one. -/
structure SameAnswers (S T : String) : Prop where
  request : ThresholdRequest.ofText T = ThresholdRequest.ofText S
  intent : Intent.ofText T = Intent.ofText S
  intentOfValue : (Value.ofText? T).map Intent.ofValue = (Value.ofText? S).map Intent.ofValue
  ofValue : (Value.ofText? T).map Thresholds.ofValue = (Value.ofText? S).map Thresholds.ofValue

section Texts

variable {S T : String} {members members' : List (Option String × Document)}

theorem readText_eq_ok_iff_of_eq_some {α : Type} {read : Document → Except Refusal α}
    {d : Document} (hd : Document.ofText? S = some d) {a : α} :
    readText read S = .ok a ↔ read d = .ok a := by
  rw [readText_eq_ok_iff, hd]
  simp

theorem valueOfText?_eq (hS : Document.ofText? S = some (.object members)) :
    Value.ofText? S = (Document.object members).value? maxDepth := by
  rw [Value.ofText?, hS]
  rfl

theorem Intent.ofText_eq_ok_iff_of_object (hS : Document.ofText? S = some (.object members))
    {i : Intent} : Intent.ofText S = .ok i ↔
      (Value.ofText? S).isSome = true ∧
        ∃ o, ThresholdRequest.ofText S = .ok o ∧ i = .thresholds o := by
  rw [Intent.ofText, ThresholdRequest.ofText, valueOfText?_eq hS,
    readText_eq_ok_iff_of_eq_some hS, Intent.ofDocument_object_eq_ok_iff]
  simp only [readText_eq_ok_iff_of_eq_some hS]

/-- Readers of the values of two texts answer alike if each threshold has the same documents. -/
theorem map_ofValue_ofText?_congr (hS : Document.ofText? S = some (.object members))
    (hT : Document.ofText? T = some (.object members'))
    (hall : (∀ m ∈ members', ∃ w, IsMember (maxDepth - 1) m w) ↔
      ∀ m ∈ members, ∃ w, IsMember (maxDepth - 1) m w)
    (hkeys : ∀ key, isKey key = true →
      valuesAt (some key) members' = valuesAt (some key) members) :
    (Value.ofText? T).isSome = (Value.ofText? S).isSome ∧
      (Value.ofText? T).map Intent.ofValue = (Value.ofText? S).map Intent.ofValue ∧
      (Value.ofText? T).map Thresholds.ofValue = (Value.ofText? S).map Thresholds.ofValue := by
  rw [valueOfText?_eq hS, valueOfText?_eq hT]
  exact map_ofValue_object_congr hall hkeys

/-- **Members with other keys change no answer.** -/
theorem sameAnswers_of_padded (hS : Document.ofText? S = some (.object members))
    (hT : Document.ofText? T = some (.object members'))
    (h : Padded (maxDepth - 1) members members') : SameAnswers S T := by
  obtain ⟨hvalue, hintent, hthresholds⟩ :=
    map_ofValue_ofText?_congr hS hT h.forall_isMember_iff fun key hkey => h.valuesAt_eq hkey
  rw [valueOfText?_eq hS, valueOfText?_eq hT] at hvalue
  exact
    { request := readText_congr hS hT h.ofDocument_eq hvalue
      intent := readText_congr hS hT (Intent.ofDocument_object_congr hvalue h.ofDocument_eq) hvalue
      intentOfValue := hintent
      ofValue := hthresholds }

theorem ThresholdRequest.ofText_eq_ok_iff_of_object
    (hS : Document.ofText? S = some (.object members)) {o : ThresholdRequest} :
    ThresholdRequest.ofText S = .ok o ↔ ThresholdRequest.ofDocument (.object members) = .ok o :=
  readText_eq_ok_iff_of_eq_some hS

/-- **An object that is JSON is refused as a request exactly if a threshold does not fit.** -/
theorem ThresholdRequest.exists_ofText_eq_error_iff
    (hS : Document.ofText? S = some (.object members)) (hvalue : (Value.ofText? S).isSome = true) :
    (∃ e, ThresholdRequest.ofText S = .error e) ↔ Misfit members := by
  have hkeys : ∀ m ∈ members, m.1 ≠ none := by
    obtain ⟨v, hv⟩ := Option.isSome_iff_exists.1 hvalue
    rw [valueOfText?_eq hS] at hv
    intro m hm
    obtain ⟨w, hw, -⟩ := Document.exists_value?_object_iff.1 ⟨v, hv⟩ m hm
    rw [hw]
    exact Option.some_ne_none _
  simp only [exists_error_iff, ThresholdRequest.ofText_eq_ok_iff_of_object hS,
    ThresholdRequest.exists_ofDocument_object_eq_ok_iff hkeys, not_not]

/-- It is refused as an intent exactly then. -/
theorem Intent.exists_ofText_eq_error_iff (hS : Document.ofText? S = some (.object members))
    (hvalue : (Value.ofText? S).isSome = true) :
    (∃ e, Intent.ofText S = .error e) ↔ Misfit members := by
  rw [← ThresholdRequest.exists_ofText_eq_error_iff hS hvalue, exists_error_iff, exists_error_iff,
    not_iff_not]
  simp only [Intent.ofText_eq_ok_iff_of_object hS, hvalue, true_and]
  constructor
  · rintro ⟨_, o, ho, -⟩
    exact ⟨o, ho⟩
  · rintro ⟨o, ho⟩
    exact ⟨_, o, ho, rfl⟩

/-- **Which members of an object matter to the readers of thresholds.**  Let `S` be the text of an
object.  Members with other keys, of any values that are JSON, may be put anywhere without a change
in any answer.  Another order of the members changes no answer of the readers of a value, as long
as those of one key stay in theirs, and the readers of a document accept the same then.  What
these accept are the last values of each key; and an object that is JSON they refuse exactly if
one of its members with the key of a threshold is neither `null` nor an integer of 64 bits,
whether it is the last one or not. -/
theorem relevant_members (hS : Document.ofText? S = some (.object members)) :
    (∀ T members', Document.ofText? T = some (.object members') →
      Padded (maxDepth - 1) members members' → SameAnswers S T) ∧
    (∀ T members', Document.ofText? T = some (.object members') → Reordered members members' →
      (Value.ofText? T).map Intent.ofValue = (Value.ofText? S).map Intent.ofValue ∧
      (Value.ofText? T).map Thresholds.ofValue = (Value.ofText? S).map Thresholds.ofValue ∧
      (∀ o, ThresholdRequest.ofText T = .ok o ↔ ThresholdRequest.ofText S = .ok o) ∧
      ∀ i, Intent.ofText T = .ok i ↔ Intent.ofText S = .ok i) ∧
    (∀ o, ThresholdRequest.ofText S = .ok o ∨ Intent.ofText S = .ok (.thresholds o) →
      SaysLast (valuesAt (some firstKey) members) o.first ∧
      SaysLast (valuesAt (some stepKey) members) o.step) ∧
    (∀ b, Intent.ofText S ≠ .ok (.enabled b)) ∧
    ((Value.ofText? S).isSome = true →
      ((∃ e, ThresholdRequest.ofText S = .error e) ↔ Misfit members) ∧
      ((∃ e, Intent.ofText S = .error e) ↔ Misfit members)) := by
  refine ⟨fun T members' hT h => sameAnswers_of_padded hS hT h, ?order, ?accepted, ?boolean,
    fun hvalue => ⟨ThresholdRequest.exists_ofText_eq_error_iff hS hvalue,
      Intent.exists_ofText_eq_error_iff hS hvalue⟩⟩
  case order =>
    intro T members' hT h
    obtain ⟨hvalue, hintent, hthresholds⟩ := map_ofValue_ofText?_congr hS hT
      (forall_congr' fun m => by rw [h.mem_iff]) fun key _ => h (some key)
    have hread : ∀ o, ThresholdRequest.ofText T = .ok o ↔ ThresholdRequest.ofText S = .ok o := by
      intro o
      rw [ThresholdRequest.ofText_eq_ok_iff_of_object hT,
        ThresholdRequest.ofText_eq_ok_iff_of_object hS, h.ofDocument_eq_ok_iff]
    refine ⟨hintent, hthresholds, hread, fun i => ?_⟩
    rw [Intent.ofText_eq_ok_iff_of_object hT, Intent.ofText_eq_ok_iff_of_object hS, hvalue]
    simp only [hread]
  case accepted =>
    intro o ho
    have ho : ThresholdRequest.ofText S = .ok o := by
      rcases ho with ho | ho
      · exact ho
      · obtain ⟨-, o', ho', heq⟩ := (Intent.ofText_eq_ok_iff_of_object hS).1 ho
        rwa [Intent.thresholds.inj heq]
    rw [ThresholdRequest.ofText_eq_ok_iff_of_object hS] at ho
    exact (ThresholdRequest.ofDocument_object_eq_ok_iff.1 ho).2.2
  case boolean =>
    intro b hb
    obtain ⟨-, o, -, ho⟩ := (Intent.ofText_eq_ok_iff_of_object hS).1 hb
    cases ho

end Texts

/-- A hint in front changes nothing, nor does the second threshold in front of the first one, which
comes twice. -/
theorem relevant_members_of_hint :
    let S := objectText [(firstKey, "7"), (stepKey, "5"), (firstKey, "9")]
    ThresholdRequest.ofText S = .ok ⟨some 9, some 5⟩ ∧
      SameAnswers S (objectText [("hint", "1"), (firstKey, "7"), (stepKey, "5"), (firstKey, "9")]) ∧
      ThresholdRequest.ofText (objectText [(stepKey, "5"), (firstKey, "7"), (firstKey, "9")]) =
        .ok ⟨some 9, some 5⟩ := by
  intro S
  let number (i : Int) : Document := .number (some (.integer i))
  have h1 : Document.ofText? "1" = some (number 1) :=
    Document.ofText?_toString (i := 1) (by decide) (by decide)
  have h5 : Document.ofText? "5" = some (number 5) :=
    Document.ofText?_toString (i := 5) (by decide) (by decide)
  have h7 : Document.ofText? "7" = some (number 7) :=
    Document.ofText?_toString (i := 7) (by decide) (by decide)
  have h9 : Document.ofText? "9" = some (number 9) :=
    Document.ofText?_toString (i := 9) (by decide) (by decide)
  have hS : Document.ofText? S = some (.object
      [(some firstKey, number 7), (some stepKey, number 5), (some firstKey, number 9)]) :=
    Document.ofText?_objectText (.cons ⟨rfl, h7⟩ (.cons ⟨rfl, h5⟩ (.cons ⟨rfl, h9⟩ .nil)))
  have hread : ThresholdRequest.ofText S = .ok ⟨some 9, some 5⟩ :=
    (readText_eq_ok_iff_of_eq_some hS).2 rfl
  obtain ⟨hpadded, horder, -⟩ := relevant_members hS
  refine ⟨hread, hpadded _ ((some "hint", number 1) :: _) ?hint
    (.insert (v := .number (.integer 1)) rfl rfl (.keep _ (.keep _ (.keep _ .nil)))), ?order⟩
  case hint =>
    exact Document.ofText?_objectText
      (.cons ⟨rfl, h1⟩ (.cons ⟨rfl, h7⟩ (.cons ⟨rfl, h5⟩ (.cons ⟨rfl, h9⟩ .nil))))
  case order =>
    have hU : Document.ofText? (objectText [(stepKey, "5"), (firstKey, "7"), (firstKey, "9")]) =
        some (.object
          [(some stepKey, number 5), (some firstKey, number 7), (some firstKey, number 9)]) :=
      Document.ofText?_objectText (.cons ⟨rfl, h5⟩ (.cons ⟨rfl, h7⟩ (.cons ⟨rfl, h9⟩ .nil)))
    exact ((horder _ _ hU (.swap (by decide))).2.2.1 _).2 hread

end Hedging
