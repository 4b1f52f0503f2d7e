import Hedging.Proofs.Readers

/-!
# What is written for an intent is read back

The text of an intent writes one document (`Intent.ofText?_text`), whose nesting is at most one
and in which no threshold comes twice, an absent threshold being `null` and a present one an
integer of 64 bits in decimal.  Every reader reads this document as the intent again
(`Intent.text_reads_back`), so no two intents have one text, and writing what a reader has read
changes nothing for that reader.
-/

namespace Hedging

open Json

namespace ThresholdRequest

/-- The document of an integer that may be absent. -/
def optionalDocument : Option Int64 → Document
  | none => .null
  | some n => .number (some (.integer n.toInt))

/-- The document that the text of a request writes. -/
def document (r : ThresholdRequest) : Document :=
  .object [(some firstKey, optionalDocument r.first), (some stepKey, optionalDocument r.step)]

theorem ofText?_optionalText (o : Option Int64) :
    Document.ofText? (optionalText o) = some (optionalDocument o) := by
  cases o with
  | none => exact Document.ofText?_of_next? (c := 'n') (t := .null) rfl rfl rfl rfl
  | some n =>
    have hlow := n.le_toInt
    have hhigh := n.toInt_lt
    exact Document.ofText?_toString (by omega) (by omega)

theorem text_eq (r : ThresholdRequest) : r.text =
    objectText [(firstKey, optionalText r.first), (stepKey, optionalText r.step)] := by
  rw [text, objectText, List.map_cons, List.map_cons, List.map_nil, memberText, memberText]

theorem ofText?_text (r : ThresholdRequest) : Document.ofText? r.text = some r.document := by
  rw [text_eq]
  exact Document.ofText?_objectText
    (.cons ⟨rfl, ofText?_optionalText r.first⟩ (.cons ⟨rfl, ofText?_optionalText r.step⟩ .nil))

/-- The least threshold is written with all its digits, and an absent one as `null`. -/
example : text ⟨some Int64.minValue, none⟩ =
    "\x7b\"threshold_ms\":-9223372036854775808,\"threshold_steps_ms\":null\x7d" := by
  decide +kernel

theorem readOptionalInt64_met? (o : Option Int64) :
    readOptionalInt64 (optionalDocument o).met? = .ok o := by
  cases o with
  | none => rfl
  | some n =>
    have hmet : (optionalDocument (some n)).met? = some (.number (.integer n.toInt)) := rfl
    simp only [hmet, readOptionalInt64, int64?_toInt]

/-- **A request is read back from its document.** -/
theorem ofDocument_document (r : ThresholdRequest) : ofDocument r.document = .ok r := by
  have hne : stepKey ≠ firstKey := by decide
  obtain ⟨first, step⟩ := r
  simp only [document, ofDocument, ofMembers, List.map_cons, List.map_nil, List.foldlM_cons,
    List.foldlM_nil, addMember, if_true, if_neg hne, readOptionalInt64_met?]
  rfl

end ThresholdRequest

namespace Intent

/-- The document that the text of an intent writes. -/
def document : Intent → Document
  | enabled b => .bool b
  | thresholds r => r.document

theorem ofText?_text (i : Intent) : Document.ofText? i.text = some i.document := by
  cases i with
  | enabled b =>
    cases b with
    | false => exact Document.ofText?_of_next? (c := 'f') (t := .bool false) rfl rfl rfl rfl
    | true => exact Document.ofText?_of_next? (c := 't') (t := .bool true) rfl rfl rfl rfl
  | thresholds r => exact r.ofText?_text

theorem nesting_document (i : Intent) : i.document.nesting ≤ 1 := by
  cases i with
  | enabled b => exact Nat.zero_le 1
  | thresholds r =>
    obtain ⟨first, step⟩ := r
    cases first <;> cases step <;> exact Nat.le_refl 1

theorem exists_value (i : Intent) : ∃ v, ∀ n, 0 < n → i.document.value? n = some v := by
  obtain ⟨v, hv⟩ : ∃ v, i.document.value? 1 = some v := by
    cases i with
    | enabled b => exact ⟨_, rfl⟩
    | thresholds r =>
      obtain ⟨first, step⟩ := r
      cases first <;> cases step <;> exact ⟨_, rfl⟩
  exact ⟨v, fun n hn => Document.value?_of_nesting_le hv (Nat.le_trans i.nesting_document hn)⟩

/-- **An intent is read back from its document**, at any depth. -/
theorem ofDocument_document (i : Intent) {n : Nat} (hn : 0 < n) :
    ofDocument n i.document = .ok i := by
  obtain ⟨v, hv⟩ := i.exists_value
  rw [ofDocument_eq_ok_iff (hv n hn)]
  cases i with
  | enabled b => exact .inl ⟨b, rfl, rfl⟩
  | thresholds r => exact .inr ⟨r, r.ofDocument_document, rfl⟩

theorem ofOptionalDocument_document (i : Intent) {n : Nat} (hn : 0 < n) :
    ofOptionalDocument n i.document = .ok (some i) := by
  have hne : i.document ≠ .null := by cases i <;> exact nofun
  exact (ofOptionalDocument_of_ne_null hne).2 ⟨i, i.ofDocument_document hn, rfl⟩

/-- Every reader reads the text `S` as the intent `i`: on its own, as a value, as the variable of
the environment, and as the intent of a client or of an operation. -/
structure ReadsAs (S : String) (i : Intent) : Prop where
  alone : ofText S = .ok i
  value : ∃ v, Value.ofText? S = some v ∧ ofValue v = .ok (some i)
  environment : ∀ (env : Environment) regions, Environment.text? env.regions = some regions →
    Environment.regionsOf regions ≠ [] → env.intent = some S.toUTF8 →
      env.settings = .ok ⟨Environment.regionsOf regions, some i⟩
  client : ∃ d, Document.ofText? S = some d ∧
    ∀ rs T, Settings.Holds rs d T → Settings.ofText T = .ok ⟨rs, some i⟩
  clientMember : ∀ R rs, readText Region.listOfDocument R = .ok rs →
    Settings.ofText (objectText [(regionsField, R), (intentField, S)]) = .ok ⟨rs, some i⟩
  operation : ∃ d, Document.ofText? S = some d ∧
    ∀ T, Override.Holds d T → Override.ofText T = .ok (some i)
  operationMember : Override.ofText (objectText [(intentField, S)]) = .ok (some i)
  request : ∀ r, i = thresholds r → ThresholdRequest.ofText S = .ok r

theorem readsAs_text (i : Intent) : ReadsAs i.text i := by
  have hd := i.ofText?_text
  have hplace := i.ofOptionalDocument_document (n := intentDepth) (by decide)
  obtain ⟨v, hvalue⟩ := i.exists_value
  have hv : Value.ofText? i.text = some v :=
    Option.bind_eq_some_iff.2 ⟨i.document, hd, hvalue maxDepth (by decide)⟩
  have hread : ofValue v = .ok (some i) :=
    ofValue_of_ofOptionalDocument (hvalue intentDepth (by decide)) hplace
  have hclient : ∀ rs T, Settings.Holds rs i.document T →
      Settings.ofText T = .ok ⟨rs, some i⟩ :=
    fun rs T hT => (Settings.ofText_eq_ok_iff hT).2 ⟨rfl, hplace⟩
  have hoperation : ∀ T, Override.Holds i.document T → Override.ofText T = .ok (some i) :=
    fun T hT => (Override.ofText_eq_ok_iff hT).2 hplace
  exact {
    alone := readText_eq_ok_iff.2 ⟨i.document, hd, i.ofDocument_document (by decide)⟩
    value := ⟨v, hv, hread⟩
    environment := fun env regions hregions hne hintent =>
      (Environment.settings_eq_ok_iff hregions hne hintent hv).2 ⟨rfl, hread⟩
    client := ⟨i.document, hd, hclient⟩
    clientMember := fun R rs hR => hclient rs _ (Settings.holds_objectText hR hd)
    operation := ⟨i.document, hd, hoperation⟩
    operationMember := hoperation _ (Override.holds_objectText hd)
    request := by
      rintro r rfl
      exact readText_eq_ok_iff.2 ⟨r.document, hd, r.ofDocument_document⟩ }

/-- **What is written for an intent is read back.**  Every reader reads the text of an intent as
this intent, so that intents with one text are the same; and where a reader accepts any text as
an intent, it reads the text of this intent as it has read the other. -/
theorem text_reads_back :
    (∀ i : Intent, ReadsAs i.text i) ∧ (∀ i j : Intent, i.text = j.text → i = j) ∧
    (∀ S i, ofText S = .ok i → ofText i.text = ofText S) ∧
    (∀ v i, ofValue v = .ok (some i) →
      ∃ w, Value.ofText? i.text = some w ∧ ofValue w = ofValue v) ∧
    (∀ (env : Environment) s i, env.settings = .ok s → s.intent = some i →
      { env with intent := some i.text.toUTF8 : Environment }.settings = env.settings) ∧
    (∀ T s i, Settings.ofText T = .ok s → s.intent = some i → ∀ R,
      readText Region.listOfDocument R = .ok s.regions →
        Settings.ofText (objectText [(regionsField, R), (intentField, i.text)]) =
          Settings.ofText T) ∧
    (∀ T i, Override.ofText T = .ok (some i) →
      Override.ofText (objectText [(intentField, i.text)]) = Override.ofText T) ∧
    ∀ S r, ThresholdRequest.ofText S = .ok r →
      ThresholdRequest.ofText r.text = ThresholdRequest.ofText S := by
  have hreads := readsAs_text
  refine ⟨hreads, ?injective, ?alone, ?value, ?environment, ?client, ?operation, ?request⟩
  case injective =>
    intro i j htext
    have hi := (hreads i).alone
    rw [htext, (hreads j).alone] at hi
    exact (Except.ok.inj hi).symm
  case alone => exact fun S i h => (hreads i).alone.trans h.symm
  case value =>
    intro v i h
    obtain ⟨w, hw, hread⟩ := (hreads i).value
    exact ⟨w, hw, hread.trans h.symm⟩
  case environment =>
    rintro env ⟨rs, x⟩ i h hi
    obtain ⟨regions, hregions, hne, hrs⟩ := Environment.exists_regions h
    simp only at hi hrs
    subst hi hrs
    rw [h]
    exact (hreads i).environment _ regions hregions hne rfl
  case client =>
    rintro T ⟨rs, x⟩ i h hi R hR
    simp only at hi hR
    subst hi
    rw [h]
    exact (hreads i).clientMember R rs hR
  case operation => exact fun T i h => (hreads i).operationMember.trans h.symm
  case request => exact fun S r h => ((hreads (thresholds r)).request r rfl).trans h.symm

/-- The text of an intent in the document of a client, and in the variable beside a list of
regions. -/
theorem text_reads_back_of_thresholds :
    let i : Intent := thresholds ⟨some 50, none⟩
    let regions : List Region := [⟨"a"⟩, ⟨"b"⟩]
    i.text = "\x7b\"threshold_ms\":50,\"threshold_steps_ms\":null\x7d" ∧
      Settings.ofText (objectText [(regionsField, arrayText [stringText "a", stringText "b"]),
        (intentField, i.text)]) = .ok ⟨regions, some i⟩ ∧
      Environment.settings ⟨some "a, b".toUTF8, some i.text.toUTF8⟩ = .ok ⟨regions, some i⟩ := by
  intro i regions
  have hreads := text_reads_back.1 i
  have hlisted : Environment.regionsOf "a, b" = regions := by decide +kernel
  refine ⟨by decide +kernel, hreads.clientMember _ _ (Region.readText_listOfDocument regions), ?_⟩
  have hne : Environment.regionsOf "a, b" ≠ [] := by rw [hlisted]; exact List.cons_ne_nil _ _
  have hsettings := hreads.environment ⟨some "a, b".toUTF8, some i.text.toUTF8⟩ "a, b"
    (by decide +kernel) hne rfl
  rw [hsettings, hlisted]

end Intent
end Hedging
