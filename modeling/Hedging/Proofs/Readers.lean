import Hedging.Proofs.Places
import Hedging.Proofs.Json.Integer

/-!
# All readers of an intent agree

An intent is read from its document, from its value, and where it stands in the settings of a
client or of an operation.  A document may give a key twice and a value may not, so the reading
of a document says more: it takes the members in turn, and each value of a threshold has to be
an integer or `null` (`ThresholdRequest.ofValueMembers_eq_ok_iff`), where the reading of a value
meets the last one only.  Where the document is read, so is the value, as the same intent; and
the other way round if no threshold comes twice (`Intent.readers_agree`).
-/

namespace Hedging

open Json

namespace ThresholdRequest

theorem fills_addMember : Fills addMember ThresholdRequest.mk firstKey stepKey
    (fun _ met => readOptionalInt64 met) (fun _ met => readOptionalInt64 met) where
  keys_ne := by decide
  inj h := ThresholdRequest.mk.inj h
  first a b met := by
    simp only [addMember, if_true]
    cases readOptionalInt64 met <;> rfl
  second a b met := by
    have hne : stepKey ≠ firstKey := by decide
    simp only [addMember, if_neg hne, if_true]
    cases readOptionalInt64 met <;> rfl
  other r k met h₁ h₂ := by simp [addMember, h₁, h₂]
  unreadable r met := ⟨_, rfl⟩

/-- What some values of one threshold read as, one after the other: the last one stays. -/
def lastReading (vs : List Value) : Except Refusal (Option Int64) :=
  vs.foldlM (fun _ v => readOptionalInt64 (some v.met)) none

/-- **The thresholds of an object are read key by key.** -/
theorem ofValueMembers_eq_ok_iff {ms : List (String × Value)} {r : ThresholdRequest} :
    ofValueMembers ms = .ok r ↔
      lastReading (valuesAt firstKey ms) = .ok r.first ∧
        lastReading (valuesAt stepKey ms) = .ok r.step := by
  have hkeys : ∀ m ∈ ms.map fun m => (some m.1, some m.2.met), m.1 ≠ none := by
    intro m hm
    obtain ⟨m', -, rfl⟩ := List.mem_map.1 hm
    exact Option.some_ne_none _
  have hfold := fills_addMember.foldlM_eq_ok_iff (ms.map fun m => (some m.1, some m.2.met))
    none none r.first r.step
  have hvalues : ∀ key, (valuesAt (some key) (ms.map fun m => (some m.1, some m.2.met))).foldlM
      (fun _ met => readOptionalInt64 met) none = lastReading (valuesAt key ms) := by
    intro key
    rw [valuesAt_map_some fun v : Value => some v.met, List.foldlM_map]
    rfl
  rw [hvalues, hvalues] at hfold
  exact hfold.trans (and_iff_right hkeys)

theorem lastReading_getLast? {vs : List Value} {o : Option Int64} (h : lastReading vs = .ok o) :
    lastReading vs.getLast?.toList = .ok o :=
  foldlM_getLast? h

theorem ofValueMembers_mergeMembers {ms : List (String × Value)} {r : ThresholdRequest}
    (h : ofValueMembers ms = .ok r) : ofValueMembers (mergeMembers ms) = .ok r := by
  obtain ⟨hfirst, hstep⟩ := ofValueMembers_eq_ok_iff.1 h
  rw [ofValueMembers_eq_ok_iff, valuesAt_mergeMembers, valuesAt_mergeMembers]
  exact ⟨lastReading_getLast? hfirst, lastReading_getLast? hstep⟩

theorem ofValueMembers_of_mergeMembers {ms : List (String × Value)} {r : ThresholdRequest}
    (hfirst : (valuesAt firstKey ms).length ≤ 1) (hstep : (valuesAt stepKey ms).length ≤ 1)
    (h : ofValueMembers (mergeMembers ms) = .ok r) : ofValueMembers ms = .ok r := by
  rw [ofValueMembers_eq_ok_iff, valuesAt_mergeMembers, valuesAt_mergeMembers,
    getLast?_toList_of_length_le_one hfirst, getLast?_toList_of_length_le_one hstep] at h
  exact ofValueMembers_eq_ok_iff.2 h

end ThresholdRequest

/-- Whether an object gives a key more than one value. -/
def Json.Document.repeats (key : String) : Document → Prop
  | .object members => 1 < (valuesAt (some key) members).length
  | _ => False

instance (key : String) : DecidablePred (Document.repeats key)
  | .object _ => inferInstanceAs (Decidable (_ < _))
  | .null | .bool _ | .number _ | .string _ | .array _ => inferInstanceAs (Decidable False)

namespace Intent

/-- The members of an object and of its value before merging. -/
theorem exists_members {n : Nat} {members : List (Option String × Document)} {v : Value}
    (hv : (Document.object members).value? n = some v) :
    ∃ ms, v = .object (mergeMembers ms) ∧
      (ThresholdRequest.ofMembers (members.map fun m => (m.1, m.2.met?)) =
        ThresholdRequest.ofValueMembers ms) ∧
      ∀ key, (valuesAt (some key) members).length = (valuesAt key ms).length := by
  obtain ⟨_, ms, -, hms, rfl⟩ := Document.value?_object_iff.1 hv
  have hmap := Document.map_met?_eq hms
  refine ⟨ms, rfl, congrArg ThresholdRequest.ofMembers hmap, fun key => ?_⟩
  have hvalues := congrArg (fun l => (valuesAt (some key) l).length) hmap
  simpa only [valuesAt_map, valuesAt_map_some fun v : Value => some v.met, List.length_map]
    using hvalues

theorem ofReading_eq_ok_iff {e : Except Refusal ThresholdRequest} {i : Intent} :
    ofReading e = .ok i ↔ ∃ r, e = .ok r ∧ i = thresholds r := by
  cases e <;> simp [ofReading, noIntent, eq_comm]

/-- What a document reads as, if all of it can be read. -/
theorem ofDocument_eq_ok_iff {n : Nat} {d : Document} {v : Value} (hv : d.value? n = some v)
    {i : Intent} : ofDocument n d = .ok i ↔
      (∃ b, d = .bool b ∧ i = enabled b) ∨
        ∃ r, ThresholdRequest.ofDocument d = .ok r ∧ i = thresholds r := by
  cases d with
  | bool b =>
    simp [ofDocument, hv, ThresholdRequest.ofDocument, refuse, Document.met?, eq_comm]
  | object members =>
    simp [ofDocument, hv, ThresholdRequest.ofDocument, ofReading_eq_ok_iff]
  | null | number | string | array =>
    simp only [ofDocument, hv, noIntent, ThresholdRequest.ofDocument, refuse, reduceCtorEq,
      false_and, exists_false, false_or, false_iff, not_exists, not_and]
    intro r
    split <;> simp

theorem ofOptionalDocument_of_ne_null {n : Nat} {d : Document} (h : d ≠ .null)
    {x : Option Intent} :
    ofOptionalDocument n d = .ok x ↔ ∃ i, ofDocument n d = .ok i ∧ x = some i := by
  rw [ofOptionalDocument.eq_def]
  split
  · exact absurd rfl h
  · cases ofDocument n d <;> simp [bind, Except.bind, pure, Except.pure, eq_comm]

theorem ofOptionalDocument_eq_ok_iff {n : Nat} {d : Document} {v : Value}
    (hv : d.value? n = some v) {x : Option Intent} : ofOptionalDocument n d = .ok x ↔
      (d = .null ∧ x = none) ∨ (∃ b, d = .bool b ∧ x = some (enabled b)) ∨
        ∃ r, ThresholdRequest.ofDocument d = .ok r ∧ x = some (thresholds r) := by
  by_cases hnull : d = .null
  · subst hnull
    simp [ofOptionalDocument, ThresholdRequest.ofDocument, refuse, Document.met?, eq_comm]
  · rw [ofOptionalDocument_of_ne_null hnull, or_iff_right fun h => hnull h.1]
    simp only [ofDocument_eq_ok_iff hv]
    constructor
    · rintro ⟨_, ⟨b, hb, rfl⟩ | ⟨r, hr, rfl⟩, rfl⟩
      · exact .inl ⟨b, hb, rfl⟩
      · exact .inr ⟨r, hr, rfl⟩
    · rintro (⟨b, hb, rfl⟩ | ⟨r, hr, rfl⟩)
      · exact ⟨_, .inl ⟨b, hb, rfl⟩, rfl⟩
      · exact ⟨_, .inr ⟨r, hr, rfl⟩, rfl⟩

theorem ofValue_object_eq_ok_iff {ms : List (String × Value)} {x : Option Intent} :
    ofValue (.object ms) = .ok x ↔
      ∃ r, ThresholdRequest.ofValueMembers ms = .ok r ∧ x = some (thresholds r) := by
  rw [ofValue]
  cases ThresholdRequest.ofValueMembers ms with
  | error e => simp [ofReading, noIntent, bind, Except.bind]
  | ok r => simp [ofReading, bind, Except.bind, pure, Except.pure, eq_comm]

/-- **Where a document reads as an intent, its value reads as the same one.** -/
theorem ofValue_of_ofOptionalDocument {n : Nat} {d : Document} {v : Value}
    (hv : d.value? n = some v) {x : Option Intent} (h : ofOptionalDocument n d = .ok x) :
    ofValue v = .ok x := by
  rcases (ofOptionalDocument_eq_ok_iff hv).1 h with ⟨rfl, rfl⟩ | ⟨b, rfl, rfl⟩ | ⟨r, hr, rfl⟩
  · obtain rfl : Value.null = v := by cases n <;> exact Option.some.inj hv
    rfl
  · obtain rfl : Value.bool b = v := by cases n <;> exact Option.some.inj hv
    rfl
  · cases d with
    | object members =>
      obtain ⟨ms, rfl, hmembers, -⟩ := exists_members hv
      rw [ThresholdRequest.ofDocument, hmembers] at hr
      exact ofValue_object_eq_ok_iff.2 ⟨r, ThresholdRequest.ofValueMembers_mergeMembers hr, rfl⟩
    | null | bool | number | string | array =>
      simp only [ThresholdRequest.ofDocument, refuse] at hr
      split at hr <;> cases hr

/-- **Where the value of a document without repeated thresholds reads as an intent, so does the
document.** -/
theorem ofOptionalDocument_of_ofValue {n : Nat} {d : Document} {v : Value}
    (hv : d.value? n = some v) (hfirst : ¬d.repeats ThresholdRequest.firstKey)
    (hstep : ¬d.repeats ThresholdRequest.stepKey) {x : Option Intent} (h : ofValue v = .ok x) :
    ofOptionalDocument n d = .ok x := by
  rw [ofOptionalDocument_eq_ok_iff hv]
  cases d with
  | null =>
    obtain rfl : Value.null = v := by cases n <;> exact Option.some.inj hv
    exact .inl ⟨rfl, (Except.ok.inj h).symm⟩
  | bool b =>
    obtain rfl : Value.bool b = v := by cases n <;> exact Option.some.inj hv
    exact .inr (.inl ⟨b, rfl, (Except.ok.inj h).symm⟩)
  | number y =>
    have hy : y.map Value.number = some v := by cases n <;> exact hv
    obtain ⟨_, -, rfl⟩ := Option.map_eq_some_iff.1 hy
    cases h
  | string y =>
    have hy : y.map Value.string = some v := by cases n <;> exact hv
    obtain ⟨_, -, rfl⟩ := Option.map_eq_some_iff.1 hy
    cases h
  | array items =>
    obtain ⟨_, _, -, -, rfl⟩ := Document.value?_array_iff.1 hv
    cases h
  | object members =>
    obtain ⟨ms, rfl, hmembers, hlength⟩ := exists_members hv
    obtain ⟨r, hr, rfl⟩ := ofValue_object_eq_ok_iff.1 h
    simp only [Document.repeats, hlength, Nat.not_lt] at hfirst hstep
    refine .inr (.inr ⟨r, ?_, rfl⟩)
    rw [ThresholdRequest.ofDocument, hmembers]
    exact ThresholdRequest.ofValueMembers_of_mergeMembers hfirst hstep hr

/-- A text reads as thresholds exactly where it reads as a request. -/
theorem ofText_eq_ok_thresholds_iff {S : String} {v : Value} (hv : Value.ofText? S = some v)
    {o : ThresholdRequest} :
    ofText S = .ok (thresholds o) ↔ ThresholdRequest.ofText S = .ok o := by
  obtain ⟨d, hd, hv⟩ := Option.bind_eq_some_iff.1 hv
  rw [ofText, ThresholdRequest.ofText, readText_eq_ok_iff, readText_eq_ok_iff, hd]
  simp [ofDocument_eq_ok_iff hv]

/-- **All readers of an intent agree.**  Let `S` be a text with a value `v`, nested at most 126
levels deep, and `T` a text in which its document stands as the intent of a client, next to some
regions, or of an operation.  What `T` reads as, `v` reads as too, and the other way round if no
threshold comes twice; `T` may in particular be an object or an array with the text `S` inside,
and a variable with the text `S` gives what `v` reads as.  On its own `S` reads as an intent with
thresholds exactly where it reads as thresholds, and `v` reads as the same then. -/
theorem readers_agree {S : String} {d : Document} {v : Value} (hd : Document.ofText? S = some d)
    (hv : Value.ofText? S = some v) (hdepth : d.nesting ≤ 126) :
    (∀ rs T, Settings.Holds rs d T → ∀ s, Settings.ofText T = .ok s →
      s.regions = rs ∧ ofValue v = .ok s.intent) ∧
    (∀ T, Override.Holds d T → ∀ x, Override.ofText T = .ok x → ofValue v = .ok x) ∧
    (¬d.repeats ThresholdRequest.firstKey → ¬d.repeats ThresholdRequest.stepKey →
      ∀ x, ofValue v = .ok x →
        (∀ rs T, Settings.Holds rs d T → Settings.ofText T = .ok ⟨rs, x⟩) ∧
        ∀ T, Override.Holds d T → Override.ofText T = .ok x) ∧
    (∀ R rs, readText Region.listOfDocument R = .ok rs →
      Settings.Holds rs d (objectText [(regionsField, R), (intentField, S)]) ∧
      Settings.Holds rs d (arrayText [R, S])) ∧
    (Override.Holds d (objectText [(intentField, S)]) ∧ Override.Holds d (arrayText [S])) ∧
    (∀ (env : Environment) regions, Environment.text? env.regions = some regions →
      Environment.regionsOf regions ≠ [] → env.intent = some S.toUTF8 →
        ∀ x, env.settings = .ok ⟨Environment.regionsOf regions, x⟩ ↔ ofValue v = .ok x) ∧
    (∀ o, ofText S = .ok (thresholds o) ↔ ThresholdRequest.ofText S = .ok o) ∧
    ∀ o, ThresholdRequest.ofText S = .ok o → ofValue v = .ok (some (thresholds o)) := by
  have hmax : d.value? maxDepth = some v := by
    rwa [Value.ofText?, hd, Option.bind_eq_bind, Option.bind_some] at hv
  have hplace : d.value? intentDepth = some v := Document.value?_of_nesting_le hmax hdepth
  refine ⟨?client, ?operation, ?converse, ?clientTexts, ?operationTexts, ?environment, ?alone,
    ?request⟩
  case client =>
    intro rs T hT s hs
    obtain ⟨hregions, hread⟩ := (Settings.ofText_eq_ok_iff hT).1 hs
    exact ⟨hregions, ofValue_of_ofOptionalDocument hplace hread⟩
  case operation =>
    intro T hT x hx
    exact ofValue_of_ofOptionalDocument hplace ((Override.ofText_eq_ok_iff hT).1 hx)
  case converse =>
    intro hfirst hstep x hx
    have hread := ofOptionalDocument_of_ofValue hplace hfirst hstep hx
    exact ⟨fun rs T hT => (Settings.ofText_eq_ok_iff hT).2 ⟨rfl, hread⟩,
      fun T hT => (Override.ofText_eq_ok_iff hT).2 hread⟩
  case clientTexts =>
    exact fun R rs hR => ⟨Settings.holds_objectText hR hd, Settings.holds_arrayText hR hd⟩
  case operationTexts => exact ⟨Override.holds_objectText hd, Override.holds_arrayText hd⟩
  case environment =>
    intro env regions hregions hne hintent x
    rw [Environment.settings_eq_ok_iff hregions hne hintent hv]
    exact and_iff_right rfl
  case alone => exact fun o => ofText_eq_ok_thresholds_iff hv
  case request =>
    intro o ho
    obtain ⟨e, he, hread⟩ := readText_eq_ok_iff.1 ho
    obtain rfl := Option.some.inj (hd.symm.trans he)
    exact ofValue_of_ofOptionalDocument hmax
      ((ofOptionalDocument_eq_ok_iff hmax).2 (.inr (.inr ⟨o, hread, rfl⟩)))

/-- The document of an object with the numbers seven and nine under two keys has a value. -/
theorem document_of_seven_nine (k l : String) :
    ∃ d v, d = .object [(some k, .number (some (.integer 7))),
        (some l, .number (some (.integer 9)))] ∧
      Document.ofText? (objectText [(k, "7"), (l, "9")]) = some d ∧
      Value.ofText? (objectText [(k, "7"), (l, "9")]) = some v ∧ d.nesting ≤ 126 := by
  let d : Document := .object [(some k, .number (some (.integer 7))),
    (some l, .number (some (.integer 9)))]
  have h7 : Document.ofText? "7" = some (.number (some (.integer 7))) :=
    Document.ofText?_toString (i := 7) (by decide) (by decide)
  have h9 : Document.ofText? "9" = some (.number (some (.integer 9))) :=
    Document.ofText?_toString (i := 9) (by decide) (by decide)
  have hd : Document.ofText? (objectText [(k, "7"), (l, "9")]) = some d :=
    Document.ofText?_objectText (.cons ⟨rfl, h7⟩ (.cons ⟨rfl, h9⟩ .nil))
  obtain ⟨v, hvalue⟩ : ∃ v, d.value? maxDepth = some v := ⟨_, rfl⟩
  have hdepth : d.nesting = 1 := rfl
  exact ⟨d, v, rfl, hd, Option.bind_eq_some_iff.2 ⟨_, hd, hvalue⟩, by omega⟩

/-- The first threshold may come twice, and a reader on its own takes the second value.  With
both thresholds once, a client and an operation read them from an object and from an array. -/
theorem readers_agree_of_repeated :
    (∃ S d v, S = objectText [(ThresholdRequest.firstKey, "7"), (ThresholdRequest.firstKey, "9")] ∧
      Document.ofText? S = some d ∧ Value.ofText? S = some v ∧ d.nesting ≤ 126 ∧
      d.repeats ThresholdRequest.firstKey ∧ ofText S = .ok (thresholds ⟨some 9, none⟩) ∧
      ofValue v = .ok (some (thresholds ⟨some 9, none⟩))) ∧
    ∃ R S d v, R = arrayText [stringText "a", stringText "b"] ∧
      S = objectText [(ThresholdRequest.firstKey, "7"), (ThresholdRequest.stepKey, "9")] ∧
      Document.ofText? S = some d ∧ Value.ofText? S = some v ∧ d.nesting ≤ 126 ∧
      ¬d.repeats ThresholdRequest.firstKey ∧ ¬d.repeats ThresholdRequest.stepKey ∧
      Settings.ofText (objectText [(regionsField, R), (intentField, S)])
        = .ok ⟨[⟨"a"⟩, ⟨"b"⟩], some (thresholds ⟨some 7, some 9⟩)⟩ ∧
      Settings.ofText (arrayText [R, S])
        = .ok ⟨[⟨"a"⟩, ⟨"b"⟩], some (thresholds ⟨some 7, some 9⟩)⟩ ∧
      Override.ofText (objectText [(intentField, S)]) = .ok (some (thresholds ⟨some 7, some 9⟩)) ∧
      Override.ofText (arrayText [S]) = .ok (some (thresholds ⟨some 7, some 9⟩)) := by
  constructor
  · obtain ⟨_, v, rfl, hd, hv, hdepth⟩ :=
      document_of_seven_nine ThresholdRequest.firstKey ThresholdRequest.firstKey
    have hrequest := readText_eq_ok_iff.2 ⟨_, hd,
      show ThresholdRequest.ofDocument _ = .ok ⟨some 9, none⟩ from rfl⟩
    obtain ⟨-, -, -, -, -, -, halone, hagree⟩ := readers_agree hd hv hdepth
    exact ⟨_, _, v, rfl, hd, hv, hdepth, by decide, (halone _).2 hrequest, hagree _ hrequest⟩
  · obtain ⟨_, v, rfl, hd, hv, hdepth⟩ :=
      document_of_seven_nine ThresholdRequest.firstKey ThresholdRequest.stepKey
    have hrequest := readText_eq_ok_iff.2 ⟨_, hd,
      show ThresholdRequest.ofDocument _ = .ok ⟨some 7, some 9⟩ from rfl⟩
    have hregions := Region.readText_listOfDocument [⟨"a"⟩, ⟨"b"⟩]
    obtain ⟨-, -, hconverse, hclient, ⟨hobject, harray⟩, -, -, hagree⟩ :=
      readers_agree hd hv hdepth
    obtain ⟨hsettings, hoverride⟩ := hconverse (by decide) (by decide) _ (hagree _ hrequest)
    obtain ⟨hobject', harray'⟩ := hclient _ _ hregions
    exact ⟨_, _, _, v, rfl, rfl, hd, hv, hdepth, by decide, by decide, hsettings _ _ hobject',
      hsettings _ _ harray', hoverride _ hobject, hoverride _ harray⟩

end Intent
end Hedging
