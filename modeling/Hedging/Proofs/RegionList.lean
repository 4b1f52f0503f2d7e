import Hedging.Proofs.Grammar
import Mathlib.Data.List.TakeWhile

/-!
# Regions in the environment

A text lists some names if it is made of pieces between commas, each of them blank or one of the
names with blank characters around it (`Environment.Lists`); the regions that are read from a text
are the names that it lists (`Environment.regionsOf_eq_iff`).  So the names that are read can be
joined by commas and read again, and what the two variables give can be said for all bytes
(`Environment.regions_round_trip`).
-/

namespace Hedging

open Json

/-! ### Trimming -/

namespace Text

/-- No blank character stands at either end of a text. -/
structure IsTight (cs : List Char) : Prop where
  head : ∀ c, cs.head? = some c → isBlank c = false
  last : ∀ c, cs.getLast? = some c → isBlank c = false

instance : DecidablePred IsTight := fun cs =>
  decidable_of_iff (cs.head?.all (!isBlank ·) = true ∧ cs.getLast?.all (!isBlank ·) = true) <| by
    simp only [Option.all_eq_true, Bool.not_eq_true']
    exact ⟨fun h => ⟨h.1, h.2⟩, fun h => ⟨h.head, h.last⟩⟩

theorem dropWhile_isBlank_of_head? {cs : List Char}
    (h : ∀ c, cs.head? = some c → isBlank c = false) : cs.dropWhile isBlank = cs := by
  match cs with
  | [] => rfl
  | c :: cs => exact List.dropWhile_cons_of_neg (by simp [h c rfl])

theorem head?_dropWhile_isBlank {cs : List Char} {c : Char}
    (h : (cs.dropWhile isBlank).head? = some c) : isBlank c = false := by
  have hnot := List.head?_dropWhile_not isBlank cs
  rwa [h] at hnot

/-- **Trimming takes away what is put around a text.** -/
theorem trim_append {l cs r : List Char} (hl : ∀ c ∈ l, isBlank c = true) (h : IsTight cs)
    (hr : ∀ c ∈ r, isBlank c = true) : trim (l ++ cs ++ r) = cs := by
  match cs with
  | [] =>
    rw [List.append_nil, trim_eq_nil_iff]
    exact List.forall_mem_append.2 ⟨hl, hr⟩
  | c :: cs =>
    have hfront : (l ++ (c :: cs) ++ r).dropWhile isBlank = c :: cs ++ r := by
      rw [List.append_assoc, List.dropWhile_append_of_pos hl]
      exact dropWhile_isBlank_of_head? fun c' hc' => h.head c' hc'
    have hback : (c :: cs).reverse.dropWhile isBlank = (c :: cs).reverse := by
      refine dropWhile_isBlank_of_head? fun c' hc' => h.last c' ?_
      rwa [List.head?_reverse] at hc'
    rw [trim, hfront, List.reverse_append,
      List.dropWhile_append_of_pos fun c' hc' => hr c' (List.mem_reverse.1 hc'), hback,
      List.reverse_reverse]

/-- **What trimming takes away is blank**, and no blank character is left at either end. -/
theorem exists_trim (cs : List Char) :
    IsTight (trim cs) ∧ ∃ l r, cs = l ++ trim cs ++ r ∧ (∀ c ∈ l, isBlank c = true) ∧
      ∀ c ∈ r, isBlank c = true := by
  set ds := cs.dropWhile isBlank with hds
  have hback : trim cs ++ (ds.reverse.takeWhile isBlank).reverse = ds := by
    rw [trim, ← hds, ← List.reverse_append, List.takeWhile_append_dropWhile, List.reverse_reverse]
  refine ⟨⟨fun c hc => ?_, fun c hc => ?_⟩, cs.takeWhile isBlank,
    (ds.reverse.takeWhile isBlank).reverse, ?_, fun c hc => ?_, fun c hc => ?_⟩
  · have hhead : (cs.dropWhile isBlank).head? = some c := by
      rw [← hds, ← hback, List.head?_append, hc, Option.some_or]
    exact head?_dropWhile_isBlank hhead
  · rw [trim, List.getLast?_reverse] at hc
    exact head?_dropWhile_isBlank hc
  · rw [List.append_assoc, hback, List.takeWhile_append_dropWhile]
  · exact List.mem_takeWhile_imp hc
  · exact List.mem_takeWhile_imp (List.mem_reverse.1 hc)

end Text

namespace Environment

/-! ### Pieces -/

theorem pieces_eq_splitOn (cs : List Char) : pieces cs = cs.splitOn ',' := by
  fun_induction pieces cs with
  | case1 => rfl
  | case2 cs ih => rw [List.splitOn_cons_eq_if_modifyHead, if_pos (beq_self_eq_true _), ih]
  | case3 c cs hc hnil => exact absurd hnil (pieces_ne_nil cs)
  | case4 c cs hc p ps hps ih =>
    rw [List.splitOn_cons_eq_if_modifyHead, if_neg (by simpa using hc), ← ih, hps]
    rfl

theorem comma_not_mem_of_mem_pieces {cs : List Char} : ∀ p ∈ pieces cs, ',' ∉ p := by
  fun_induction pieces cs with
  | case1 => simp
  | case2 cs ih => exact List.forall_mem_cons.2 ⟨List.not_mem_nil, ih⟩
  | case3 c cs hc hnil => exact absurd hnil (pieces_ne_nil cs)
  | case4 c cs hc p ps hps ih =>
    rw [hps] at ih
    obtain ⟨hp, hrest⟩ := List.forall_mem_cons.1 ih
    refine List.forall_mem_cons.2 ⟨fun hmem => ?_, hrest⟩
    rcases List.mem_cons.1 hmem with h | h
    · exact hc h.symm
    · exact hp h

/-- Whether a text has blank characters only. -/
def IsBlank (s : String) : Prop := ∀ c ∈ s.toList, Text.isBlank c = true

instance : DecidablePred IsBlank := fun s =>
  decidable_of_iff (s.toList.all Text.isBlank = true) List.all_eq_true

/-- A name that a list can hold: not empty, without commas, and no blank character at either
end. -/
structure IsName (name : String) : Prop where
  ne_empty : name ≠ ""
  no_comma : ',' ∉ name.toList
  tight : Text.IsTight name.toList

instance : DecidablePred IsName := fun name =>
  decidable_of_iff (name ≠ "" ∧ ',' ∉ name.toList ∧ Text.IsTight name.toList)
    ⟨fun h => ⟨h.1, h.2.1, h.2.2⟩, fun h => ⟨h.ne_empty, h.no_comma, h.tight⟩⟩

/-- The texts between commas that list some names: each is blank or the next name with blank
characters around it. -/
inductive Lists : List String → List String → Prop
  | nil : Lists [] []
  | blank {p : String} {ps names : List String} (hp : IsBlank p) (h : Lists ps names) :
    Lists (p :: ps) names
  | padded {l name r : String} {ps names : List String} (hl : IsBlank l) (hr : IsBlank r)
    (h : Lists ps names) : Lists ((l ++ name ++ r) :: ps) (name :: names)

theorem isBlank_comma : Text.isBlank ',' = false := by decide

theorem comma_not_mem_of_isBlank {s : String} (h : IsBlank s) : ',' ∉ s.toList := by
  intro hmem
  have hblank := h _ hmem
  rw [isBlank_comma] at hblank
  cases hblank

namespace Lists

variable {ps names : List String}

theorem self : ∀ names, Lists names names
  | [] => .nil
  | name :: names => by
    have hempty : IsBlank "" := fun c hc => absurd hc List.not_mem_nil
    have h : Lists (("" ++ name ++ "") :: names) (name :: names) :=
      .padded hempty hempty (self names)
    simpa using h

theorem of_isBlank (h : ∀ p ∈ ps, IsBlank p) : Lists ps [] := by
  induction ps with
  | nil => exact .nil
  | cons p ps ih =>
    obtain ⟨hp, hps⟩ := List.forall_mem_cons.1 h
    exact .blank hp (ih hps)

theorem isBlank_of_nil (h : Lists ps []) : ∀ p ∈ ps, IsBlank p := by
  generalize hnames : ([] : List String) = names at h
  induction h with
  | nil => exact fun p hp => absurd hp List.not_mem_nil
  | blank hp _ ih => exact List.forall_mem_cons.2 ⟨hp, ih hnames⟩
  | padded => cases hnames

theorem comma_not_mem (h : Lists ps names) (hnames : ∀ name ∈ names, IsName name) :
    ∀ p ∈ ps, ',' ∉ p.toList := by
  induction h with
  | nil => exact fun p hp => absurd hp List.not_mem_nil
  | blank hp _ ih => exact List.forall_mem_cons.2 ⟨comma_not_mem_of_isBlank hp, ih hnames⟩
  | @padded l name r _ _ hl hr _ ih =>
    obtain ⟨hname, hnames⟩ := List.forall_mem_cons.1 hnames
    refine List.forall_mem_cons.2 ⟨?_, ih hnames⟩
    simp only [String.toList_append, List.mem_append, not_or]
    exact ⟨⟨comma_not_mem_of_isBlank hl, hname.no_comma⟩, comma_not_mem_of_isBlank hr⟩

/-- **Trimming leaves the names that are listed.** -/
theorem filter_map_trim (h : Lists ps names) (hnames : ∀ name ∈ names, IsName name) :
    ((ps.map String.toList).map Text.trim).filter (· ≠ []) = names.map String.toList := by
  induction h with
  | nil => rfl
  | blank hp _ ih =>
    rw [List.map_cons, List.map_cons, Text.trim_eq_nil_iff.2 hp, ← ih hnames]
    rfl
  | @padded l name r _ _ hl hr _ ih =>
    obtain ⟨hname, hnames⟩ := List.forall_mem_cons.1 hnames
    have hne : name.toList ≠ [] := fun h => hname.ne_empty (String.toList_eq_nil_iff.1 h)
    rw [List.map_cons, List.map_cons, String.toList_append, String.toList_append,
      Text.trim_append hl hname.tight hr, List.map_cons, ← ih hnames]
    exact List.filter_cons_of_pos (by simpa using hne)

/-- **Pieces list what is left of them after trimming.** -/
theorem trimmed (ps : List (List Char)) : Lists (ps.map String.ofList)
    (((ps.map Text.trim).filter (· ≠ [])).map String.ofList) := by
  induction ps with
  | nil => exact .nil
  | cons p ps ih =>
    rw [List.map_cons, List.map_cons]
    by_cases hnil : Text.trim p = []
    · rw [List.filter_cons_of_neg (by simpa using hnil)]
      refine .blank (fun c hc => ?_) ih
      rw [String.toList_ofList] at hc
      exact Text.trim_eq_nil_iff.1 hnil c hc
    · obtain ⟨-, l, r, hp, hl, hr⟩ := Text.exists_trim p
      rw [List.filter_cons_of_pos (by simpa using hnil), List.map_cons,
        show String.ofList p = String.ofList l ++ String.ofList (Text.trim p) ++ String.ofList r
          from by rw [← String.ofList_append, ← String.ofList_append, ← hp]]
      exact .padded (by rwa [IsBlank, String.toList_ofList]) (by rwa [IsBlank, String.toList_ofList])
        ih

end Lists

theorem isName_trim {p : List Char} (hp : ',' ∉ p) (hne : Text.trim p ≠ []) :
    IsName (String.ofList (Text.trim p)) := by
  obtain ⟨htight, l, r, hsplit, -⟩ := Text.exists_trim p
  refine ⟨fun h => hne ?_, fun hmem => hp ?_, ?_⟩
  · simpa using congrArg String.toList h
  · rw [String.toList_ofList] at hmem
    rw [hsplit]
    exact List.mem_append_left _ (List.mem_append_right _ hmem)
  · rwa [String.toList_ofList]

theorem intercalate_pieces (s : String) :
    String.intercalate "," ((pieces s.toList).map String.ofList) = s := by
  rw [← String.toList_inj, String.toList_intercalate, List.map_map, pieces_eq_splitOn,
    show String.toList ∘ String.ofList = id from funext fun cs => String.toList_ofList, List.map_id]
  exact List.intercalate_splitOn ','

theorem pieces_intercalate {ps : List String} (hne : ps ≠ []) (h : ∀ p ∈ ps, ',' ∉ p.toList) :
    pieces (String.intercalate "," ps).toList = ps.map String.toList := by
  rw [pieces_eq_splitOn, String.toList_intercalate]
  exact List.splitOn_intercalate ',' (List.forall_mem_map.2 h) (by simpa using hne)

theorem regionsOf_eq_map (s : String) : regionsOf s =
    ((((pieces s.toList).map Text.trim).filter (· ≠ [])).map String.ofList).map Region.mk := by
  rw [List.map_map]
  rfl

/-- **The regions of a text are the names that it lists.** -/
theorem regionsOf_eq_iff {s : String} {names : List String} :
    regionsOf s = names.map Region.mk ↔
      (∀ name ∈ names, IsName name) ∧ ∃ ps, s = String.intercalate "," ps ∧ Lists ps names := by
  constructor
  · intro h
    rw [regionsOf_eq_map] at h
    obtain rfl := List.map_injective_iff.2 (fun a b hab => Region.mk.inj hab) h
    refine ⟨fun name hname => ?_, _, (intercalate_pieces s).symm, .trimmed _⟩
    obtain ⟨t, ht, rfl⟩ := List.mem_map.1 hname
    obtain ⟨ht, hne⟩ := List.mem_filter.1 ht
    obtain ⟨p, hp, rfl⟩ := List.mem_map.1 ht
    exact isName_trim (comma_not_mem_of_mem_pieces p hp) (by simpa using hne)
  · rintro ⟨hnames, ps, rfl, h⟩
    by_cases hps : ps = []
    · subst hps
      cases h
      rfl
    · rw [regionsOf_eq_map, pieces_intercalate hps (h.comma_not_mem hnames),
        h.filter_map_trim hnames, List.map_map (g := String.ofList),
        show String.ofList ∘ String.toList = id from funext fun s => String.ofList_toList,
        List.map_id]

theorem exists_regionsOf (s : String) : ∃ names : List String, regionsOf s = names.map Region.mk :=
  ⟨_, regionsOf_eq_map s⟩

/-! ### The two variables -/

/-- Whether a variable is not set to a text: it is not set, or its bytes are not UTF-8. -/
def HasNoText (bytes : Option ByteArray) : Prop :=
  bytes = none ∨ ∃ b, bytes = some b ∧ ¬b.IsValidUTF8

theorem text?_eq_none_iff {bytes : Option ByteArray} : text? bytes = none ↔ HasNoText bytes := by
  cases bytes <;> simp [text?, HasNoText, String.fromUTF8?]

theorem text?_eq_some_iff {bytes : Option ByteArray} {s : String} :
    text? bytes = some s ↔ bytes = some s.toUTF8 := by
  constructor
  · intro h
    obtain ⟨b, rfl, hb⟩ := Option.bind_eq_some_iff.1 h
    unfold String.fromUTF8? at hb
    split at hb
    · obtain rfl := Option.some.inj hb
      rfl
    · cases hb
  · rintro rfl
    exact fromUTF8?_toUTF8 s

/-- What the variable of the intent gives: nothing if it has no text or a blank one, and otherwise
what the value of the text stands for, blank characters at its ends included. -/
inductive GivesIntent (bytes : Option ByteArray) : Option Intent → Prop
  | noText (h : HasNoText bytes) : GivesIntent bytes none
  | blank {s : String} (h : bytes = some s.toUTF8) (hblank : IsBlank s) : GivesIntent bytes none
  | value {s : String} {v : Value} {x : Option Intent} (h : bytes = some s.toUTF8)
    (hblank : ¬IsBlank s) (hv : Value.ofText? s = some v) (hx : Intent.Denoted v x) :
    GivesIntent bytes x

/-- The variable of the intent is set to a text that is not blank and, as a whole, is not JSON or
has a value that stands for no intent. -/
def HasBadIntent (bytes : Option ByteArray) : Prop :=
  ∃ s : String, bytes = some s.toUTF8 ∧ ¬IsBlank s ∧
    (Value.ofText? s = none ∨ ∃ v, Value.ofText? s = some v ∧ ∀ x, ¬Intent.Denoted v x)

/-- What is read from the variable of the intent. -/
def readIntent (bytes : Option ByteArray) : Except ConfigError (Option Intent) :=
  match text? bytes with
  | none => .ok none
  | some s => intentOf s

theorem isMerged_of_ofText? {s : String} {v : Value} (h : Value.ofText? s = some v) :
    v.IsMerged := by
  obtain ⟨d, -, hd⟩ := Option.bind_eq_some_iff.1 h
  exact Document.isMerged_of_value? hd

theorem intentOf_of_isBlank {s : String} (h : IsBlank s) : intentOf s = .ok none :=
  if_pos (Text.trim_eq_nil_iff.2 h)

theorem intentOf_of_not_isBlank {s : String} (h : ¬IsBlank s) :
    intentOf s =
      match Value.ofText? s with
      | none => .error (.malformed (.environment intentName))
      | some v =>
        match Intent.ofValue v with
        | .ok x => .ok x
        | .error r => .error (.malformed (.refused r)) :=
  if_neg fun htrim => h (Text.trim_eq_nil_iff.1 htrim)

theorem intentOf_eq_ok_iff {s : String} {x : Option Intent} (h : ¬IsBlank s) :
    intentOf s = .ok x ↔ ∃ v, Value.ofText? s = some v ∧ Intent.Denoted v x := by
  rw [intentOf_of_not_isBlank h]
  cases hv : Value.ofText? s with
  | none => simp
  | some v =>
    simp only [Option.some.injEq, exists_eq_left', ← Intent.ofValue_eq_ok_iff (isMerged_of_ofText? hv)]
    cases Intent.ofValue v <;> simp

theorem intentOf_eq_error {s : String} {e : ConfigError} (h : intentOf s = .error e) :
    ∃ cause, e = .malformed cause := by
  unfold intentOf at h
  split at h
  · cases h
  · split at h
    · exact ⟨_, (Except.error.inj h).symm⟩
    · split at h
      · cases h
      · exact ⟨_, (Except.error.inj h).symm⟩

theorem readIntent_eq_ok_iff {bytes : Option ByteArray} {x : Option Intent} :
    readIntent bytes = .ok x ↔ GivesIntent bytes x := by
  constructor
  · intro h
    unfold readIntent at h
    split at h
    · next hnone =>
      obtain rfl := Except.ok.inj h
      exact .noText (text?_eq_none_iff.1 hnone)
    · next s hs =>
      rw [text?_eq_some_iff] at hs
      by_cases hblank : IsBlank s
      · rw [intentOf_of_isBlank hblank] at h
        obtain rfl := Except.ok.inj h
        exact .blank hs hblank
      · obtain ⟨v, hv, hx⟩ := (intentOf_eq_ok_iff hblank).1 h
        exact .value hs hblank hv hx
  · rintro (hnone | ⟨hs, hblank⟩ | ⟨hs, hblank, hv, hx⟩)
    · rw [readIntent, text?_eq_none_iff.2 hnone]
    · rw [readIntent, text?_eq_some_iff.2 hs]
      exact intentOf_of_isBlank hblank
    · rw [readIntent, text?_eq_some_iff.2 hs]
      exact (intentOf_eq_ok_iff hblank).2 ⟨_, hv, hx⟩

theorem exists_readIntent_eq_error_iff {bytes : Option ByteArray} :
    (∃ e, readIntent bytes = .error e) ↔ HasBadIntent bytes := by
  rw [exists_error_iff]
  simp only [readIntent_eq_ok_iff]
  constructor
  · intro hnone
    cases hs : text? bytes with
    | none => exact absurd ⟨none, .noText (text?_eq_none_iff.1 hs)⟩ hnone
    | some s =>
      rw [text?_eq_some_iff] at hs
      have hblank : ¬IsBlank s := fun hblank => hnone ⟨none, .blank hs hblank⟩
      refine ⟨s, hs, hblank, ?_⟩
      cases hv : Value.ofText? s with
      | none => exact .inl rfl
      | some v => exact .inr ⟨v, rfl, fun x hx => hnone ⟨x, .value hs hblank hv hx⟩⟩
  · rintro ⟨s, hs, hblank, hbad⟩ ⟨x, hx⟩
    rw [← readIntent_eq_ok_iff, readIntent, text?_eq_some_iff.2 hs] at hx
    obtain ⟨v, hv, hx⟩ := (intentOf_eq_ok_iff hblank).1 hx
    rcases hbad with hnone | ⟨v', hv', hbad⟩
    · cases hnone.symm.trans hv
    · obtain rfl := Option.some.inj (hv.symm.trans hv')
      exact hbad x hx

theorem readIntent_eq_error {bytes : Option ByteArray} {e : ConfigError}
    (h : readIntent bytes = .error e) : ∃ cause, e = .malformed cause := by
  unfold readIntent at h
  split at h
  · cases h
  · exact intentOf_eq_error h

/-- Whether a variable is set to a text that has only blank pieces between its commas. -/
def HasNoRegions (bytes : Option ByteArray) : Prop :=
  ∃ ps, bytes = some (String.intercalate "," ps).toUTF8 ∧ ∀ p ∈ ps, IsBlank p

section Settings

variable {env : Environment} {regions : String}

theorem not_hasNoText {bytes : Option ByteArray} {s : String} (h : bytes = some s.toUTF8) :
    ¬HasNoText bytes := by
  rw [← text?_eq_none_iff, text?_eq_some_iff.2 h]
  exact Option.some_ne_none s

/-- A list has no regions exactly if all of its pieces are blank. -/
theorem regionsOf_eq_nil_iff (h : env.regions = some regions.toUTF8) :
    regionsOf regions = [] ↔ HasNoRegions env.regions := by
  rw [show [] = ([] : List String).map Region.mk from rfl, regionsOf_eq_iff]
  constructor
  · rintro ⟨-, ps, rfl, hps⟩
    exact ⟨ps, h, hps.isBlank_of_nil⟩
  · rintro ⟨ps, hps, hblank⟩
    have htext := (text?_eq_some_iff.2 h).symm.trans (text?_eq_some_iff.2 hps)
    exact ⟨fun name hname => absurd hname List.not_mem_nil, ps, Option.some.inj htext,
      .of_isBlank hblank⟩

theorem settings_of_hasNoText (h : HasNoText env.regions) :
    env.settings = .error (.missingVariable regionsName) := by
  rw [settings, text?_eq_none_iff.2 h]

theorem settings_of_hasNoRegions (h : HasNoRegions env.regions) :
    env.settings = .error .noRegions := by
  obtain ⟨ps, hps, -⟩ := id h
  simp only [settings, text?_eq_some_iff.2 hps, (regionsOf_eq_nil_iff hps).2 h]

/-- **The regions are there whatever the other variable holds**, which alone is read then. -/
theorem settings_of_regions (h : env.regions = some regions.toUTF8)
    (hne : regionsOf regions ≠ []) :
    env.settings = (readIntent env.intent).map (Settings.mk (regionsOf regions)) := by
  simp only [settings, text?_eq_some_iff.2 h, readIntent]
  cases hrs : regionsOf regions with
  | nil => exact absurd hrs hne
  | cons r rs =>
    cases text? env.intent with
    | none => rfl
    | some s =>
      simp only
      cases intentOf s <;> rfl

theorem exists_regions_of_not (htext : ¬HasNoText env.regions)
    (hregions : ¬HasNoRegions env.regions) :
    ∃ regions : String, env.regions = some regions.toUTF8 ∧ regionsOf regions ≠ [] := by
  cases h : text? env.regions with
  | none => exact absurd (text?_eq_none_iff.1 h) htext
  | some regions =>
    rw [text?_eq_some_iff] at h
    exact ⟨regions, h, fun hnil => hregions ((regionsOf_eq_nil_iff h).1 hnil)⟩

theorem settings_eq_ok_iff_of_regions (h : env.regions = some regions.toUTF8)
    (hne : regionsOf regions ≠ []) {s : Settings} :
    env.settings = .ok s ↔
      s.regions = regionsOf regions ∧ GivesIntent env.intent s.intent := by
  obtain ⟨rs, x⟩ := s
  rw [settings_of_regions h hne, ← readIntent_eq_ok_iff]
  cases readIntent env.intent <;> simp [Except.map, eq_comm]

/-- **The settings of a text that lists some names.** -/
theorem settings_eq_ok_iff_of_lists {ps names : List String} (hne : names ≠ [])
    (hnames : ∀ name ∈ names, IsName name) (hlists : Lists ps names)
    (h : env.regions = some (String.intercalate "," ps).toUTF8) {s : Settings} :
    env.settings = .ok s ↔
      s.regions = names.map Region.mk ∧ GivesIntent env.intent s.intent := by
  have hregions : regionsOf (String.intercalate "," ps) = names.map Region.mk :=
    regionsOf_eq_iff.2 ⟨hnames, ps, rfl, hlists⟩
  rw [settings_eq_ok_iff_of_regions h (by simpa [hregions] using hne), hregions]

theorem settings_eq_error_iff {e : ConfigError} : env.settings = .error e ↔
    (HasNoText env.regions ∧ e = .missingVariable regionsName) ∨
      (HasNoRegions env.regions ∧ e = .noRegions) ∨
      (¬HasNoText env.regions ∧ ¬HasNoRegions env.regions ∧ readIntent env.intent = .error e) := by
  by_cases htext : HasNoText env.regions
  · have hregions : ¬HasNoRegions env.regions := by
      rintro ⟨ps, hps, -⟩
      exact not_hasNoText hps htext
    simp [settings_of_hasNoText htext, htext, hregions, eq_comm]
  by_cases hregions : HasNoRegions env.regions
  · simp [settings_of_hasNoRegions hregions, htext, hregions, eq_comm]
  · obtain ⟨regions, h, hne⟩ := exists_regions_of_not htext hregions
    rw [settings_of_regions h hne]
    cases readIntent env.intent <;> simp [Except.map, htext, hregions]

end Settings

/-- **The two variables give settings exactly as their texts say.**  A text that is made of some
names, with blank characters around them and blank pieces between them, gives these names in their
order.  Whatever list is read from a text has names, each of them such that it can be written, and
joined by commas they are read as the same settings.  A variable of regions without a text, or
with blank pieces alone, is an error whatever the other variable holds; in all other cases the
settings have the intent that the other one gives, and none are there exactly if its text is not
blank and not the text of an intent. -/
theorem regions_round_trip (env : Environment) :
    (∀ names ps, names ≠ [] → (∀ name ∈ names, IsName name) → Lists ps names →
      env.regions = some (String.intercalate "," ps).toUTF8 →
        ∀ s, env.settings = .ok s ↔
          s.regions = names.map Region.mk ∧ GivesIntent env.intent s.intent) ∧
    (∀ s, env.settings = .ok s →
      s.regions ≠ [] ∧ (∀ r ∈ s.regions, IsName r.name) ∧
      settings ⟨some (String.intercalate "," (s.regions.map Region.name)).toUTF8, env.intent⟩ =
        .ok s) ∧
    (env.settings = .error (.missingVariable regionsName) ↔ HasNoText env.regions) ∧
    (env.settings = .error .noRegions ↔ HasNoRegions env.regions) ∧
    (¬HasNoText env.regions → ¬HasNoRegions env.regions →
      (∀ x, (∃ s, env.settings = .ok s ∧ s.intent = x) ↔ GivesIntent env.intent x) ∧
      ((∃ cause, env.settings = .error (.malformed cause)) ↔ HasBadIntent env.intent)) ∧
    ∀ e, env.settings = .error e →
      e = .missingVariable regionsName ∨ e = .noRegions ∨ ∃ cause, e = .malformed cause := by
  refine ⟨?listed, ?joined, ?missing, ?noRegions, ?intent, ?errors⟩
  case listed =>
    exact fun names ps hne hnames hlists h s => settings_eq_ok_iff_of_lists hne hnames hlists h
  case joined =>
    intro s hs
    obtain ⟨regions, hregions, hne, hsregions⟩ := exists_regions hs
    rw [text?_eq_some_iff] at hregions
    obtain ⟨names, hnames⟩ := exists_regionsOf regions
    obtain ⟨hall, -⟩ := regionsOf_eq_iff.1 hnames
    rw [← hsregions] at hne hnames
    have hjoined : s.regions.map Region.name = names := by
      rw [hnames, List.map_map]
      exact List.map_id names
    refine ⟨hne, ?_, ?_⟩
    · rw [hnames]
      exact List.forall_mem_map.2 hall
    · rw [hjoined, settings_eq_ok_iff_of_lists (by simpa [hnames] using hne) hall (.self names) rfl]
      rw [settings_eq_ok_iff_of_regions hregions (hsregions ▸ hne)] at hs
      exact ⟨hnames, hs.2⟩
  case missing =>
    have hread : readIntent env.intent ≠ .error (.missingVariable regionsName) := fun h => by
      obtain ⟨_, hcause⟩ := readIntent_eq_error h
      cases hcause
    simp [settings_eq_error_iff, hread]
  case noRegions =>
    have hread : readIntent env.intent ≠ .error .noRegions := fun h => by
      obtain ⟨_, hcause⟩ := readIntent_eq_error h
      cases hcause
    simp [settings_eq_error_iff, hread]
  case intent =>
    intro htext hregions
    obtain ⟨regions, h, hne⟩ := exists_regions_of_not htext hregions
    refine ⟨fun x => ?_, ?_⟩
    · simp only [settings_eq_ok_iff_of_regions h hne]
      constructor
      · rintro ⟨s, ⟨-, hs⟩, rfl⟩
        exact hs
      · exact fun hx => ⟨⟨_, x⟩, ⟨rfl, hx⟩, rfl⟩
    · simp only [settings_eq_error_iff, ← exists_readIntent_eq_error_iff, htext, hregions,
        false_and, false_or, not_false_eq_true, true_and]
      constructor
      · rintro ⟨cause, h⟩
        exact ⟨_, h⟩
      · rintro ⟨e, h⟩
        obtain ⟨cause, rfl⟩ := readIntent_eq_error h
        exact ⟨cause, h⟩
  case errors =>
    intro e he
    rcases settings_eq_error_iff.1 he with ⟨-, rfl⟩ | ⟨-, rfl⟩ | ⟨-, -, hread⟩
    · exact .inl rfl
    · exact .inr (.inl rfl)
    · exact .inr (.inr (readIntent_eq_error hread))

/-- A wide space and a blank piece do not change the two names of a list, and a blank intent is
none. -/
theorem regions_round_trip_of_two :
    let ps := [" " ++ "West US" ++ "\u3000", " ", "East US"]
    let rs : List Region := [⟨"West US"⟩, ⟨"East US"⟩]
    settings ⟨some (String.intercalate "," ps).toUTF8, some " ".toUTF8⟩ = .ok ⟨rs, none⟩ ∧
      settings ⟨some (String.intercalate "," ["West US", "East US"]).toUTF8, some " ".toUTF8⟩ =
        .ok ⟨rs, none⟩ := by
  intro ps rs
  have hblank : IsBlank " " := by decide +kernel
  have hwide : IsBlank "\u3000" := by decide +kernel
  have hnames : ∀ name ∈ ["West US", "East US"], IsName name := by decide +kernel
  have hlists : Lists ps ["West US", "East US"] :=
    .padded hblank hwide (.blank hblank (.self _))
  obtain ⟨hlisted, hjoined, -⟩ :=
    regions_round_trip ⟨some (String.intercalate "," ps).toUTF8, some " ".toUTF8⟩
  have hsettings := (hlisted _ ps (List.cons_ne_nil _ _) hnames hlists rfl ⟨rs, none⟩).2
    ⟨rfl, .blank rfl hblank⟩
  exact ⟨hsettings, (hjoined _ hsettings).2.2⟩

end Environment
end Hedging
