import Hedging.Client.Environment
import Hedging.Proofs.Json.Text
import Hedging.Proofs.Json.Members

/-!
# Where an intent stands

A client is given its intent in an object or in an array, next to its regions, or in a variable;
an operation is given one in an object or in an array (`Settings.Holds`, `Override.Holds`).
Wherever it stands, what the client or the operation is given is what the intent's own document
reads as: members around it, spaces and the writing of keys make no difference
(`Settings.ofText_eq_ok_iff`, `Override.ofText_eq_ok_iff`, `Environment.settings_eq_ok_iff`).
-/

namespace Hedging

open Json

theorem readText_eq_ok_iff {α : Type} {read : Document → Except Refusal α} {s : String} {a : α} :
    readText read s = .ok a ↔ ∃ d, Document.ofText? s = some d ∧ read d = .ok a := by
  unfold readText
  split
  · next h => simp [h]
  · next d h =>
    simp only [h, Option.some.injEq, exists_eq_left']
    split
    · next heq => rw [heq]
    · next heq =>
      rw [heq]
      split <;> simp

/-- Reads a field that may come once. -/
def once {α : Type} (field : String) (read : Document → Except Refusal α) (old : Option α)
    (d : Document) : Except Refusal (Option α) :=
  match old with
  | some _ => .error (.mismatch (.duplicateField field))
  | none => (read d).map some

theorem foldlM_once_singleton {α : Type} {field : String} {read : Document → Except Refusal α}
    {d : Document} {o : Option α} :
    [d].foldlM (once field read) none = .ok o ↔ ∃ a, read d = .ok a ∧ o = some a := by
  rw [List.foldlM_cons, once]
  cases read d with
  | error e => simp [Except.map, bind, Except.bind]
  | ok a => simp [Except.map, bind, Except.bind, pure, Except.pure, eq_comm]

/-! ### Lists of regions -/

namespace Region

theorem ofDocument_eq_ok_iff {d : Document} {r : Region} :
    ofDocument d = .ok r ↔ d = .string (some r.name) := by
  obtain ⟨name⟩ := r
  cases d with
  | string s =>
    cases s <;> simp [ofDocument, Document.met?, readString, refuse, bind, Except.bind, pure,
      Except.pure]
  | number n => cases n <;> simp [ofDocument, Document.met?, readString, refuse, bind, Except.bind]
  | null | bool | array | object =>
    simp [ofDocument, Document.met?, readString, refuse, bind, Except.bind]

theorem mapM_ofDocument_eq_ok_iff {items : List Document} {rs : List Region} :
    items.mapM ofDocument = .ok rs ↔ items = rs.map fun r => .string (some r.name) := by
  induction items generalizing rs with
  | nil => cases rs <;> simp [pure, Except.pure]
  | cons d items ih =>
    rw [List.mapM_cons]
    cases rs with
    | nil =>
      cases ofDocument d with
      | error e => simp [bind, Except.bind]
      | ok r => cases items.mapM ofDocument <;> simp [bind, Except.bind, pure, Except.pure]
    | cons r rs =>
      rw [List.map_cons, List.cons.injEq, ← ofDocument_eq_ok_iff, ← ih]
      cases ofDocument d with
      | error e => simp [bind, Except.bind]
      | ok r => cases items.mapM ofDocument <;> simp [bind, Except.bind, pure, Except.pure]

/-- **A list of regions is read from an array of their names and from nothing else.** -/
theorem listOfDocument_eq_ok_iff {d : Document} {rs : List Region} :
    listOfDocument d = .ok rs ↔ d = .array (rs.map fun r => .string (some r.name)) := by
  cases d with
  | array items => rw [listOfDocument, mapM_ofDocument_eq_ok_iff, Document.array.injEq]
  | number n => cases n <;> simp [listOfDocument, Document.met?, refuse]
  | string s => cases s <;> simp [listOfDocument, Document.met?, refuse]
  | null | bool | object => simp [listOfDocument, Document.met?, refuse]

/-- The text of an array of names is read as the list of their regions. -/
theorem readText_listOfDocument (rs : List Region) :
    readText listOfDocument (arrayText (rs.map fun r => stringText r.name)) = .ok rs := by
  refine readText_eq_ok_iff.2 ⟨.array (rs.map fun r => .string (some r.name)), ?_,
    listOfDocument_eq_ok_iff.2 rfl⟩
  refine Document.ofText?_arrayText ?_
  induction rs with
  | nil => exact .nil
  | cons r rs ih => exact .cons (Document.ofText?_stringText r.name) ih

end Region

/-! ### The settings of a client -/

namespace Settings

/-- The documents that give a client the regions `rs` and, for its intent, the document `d`. -/
inductive Gives (rs : List Region) (d : Document) : Document → Prop where
  | object {members : List (Option String × Document)} {r : Document}
    (keys : ∀ m ∈ members, m.1 ≠ none)
    (regions : valuesAt (some regionsField) members = [r])
    (read : Region.listOfDocument r = .ok rs)
    (intent : valuesAt (some intentField) members = [d]) : Gives rs d (.object members)
  | array {r : Document} (read : Region.listOfDocument r = .ok rs) : Gives rs d (.array [r, d])

/-- The texts of these documents. -/
def Holds (rs : List Region) (d : Document) (s : String) : Prop :=
  ∃ e, Document.ofText? s = some e ∧ Gives rs d e

theorem fills_addMember : Fills addMember Fields.mk regionsField intentField
    (once regionsField Region.listOfDocument)
    (once intentField (Intent.ofOptionalDocument intentDepth)) where
  keys_ne := by decide
  inj h := Fields.mk.inj h
  first a b d := by
    cases a with
    | some rs => rfl
    | none =>
      simp only [addMember, if_true, Fields.addRegions, once]
      cases Region.listOfDocument d <;> rfl
  second a b d := by
    have hne : intentField ≠ regionsField := by decide
    cases b with
    | some x => rfl
    | none =>
      simp only [addMember, if_neg hne, if_true, Fields.addIntent, once]
      cases Intent.ofOptionalDocument intentDepth d <;> rfl
  other f k d h₁ h₂ := by simp [addMember, h₁, h₂]
  unreadable f d := ⟨_, rfl⟩

theorem foldlM_addMember_eq_ok_iff {members : List (Option String × Document)} {r d : Document}
    (keys : ∀ m ∈ members, m.1 ≠ none)
    (regions : valuesAt (some regionsField) members = [r])
    (intent : valuesAt (some intentField) members = [d]) {f : Fields} :
    members.foldlM addMember {} = .ok f ↔
      (∃ rs, Region.listOfDocument r = .ok rs ∧ f.regions = some rs) ∧
        ∃ x, Intent.ofOptionalDocument intentDepth d = .ok x ∧ f.intent = some x := by
  have h := fills_addMember.foldlM_eq_ok_iff members none none f.regions f.intent
  rw [regions, intent, foldlM_once_singleton, foldlM_once_singleton] at h
  exact h.trans (and_iff_right keys)

theorem ofDocument_object_eq_ok_iff {members : List (Option String × Document)} {s : Settings} :
    ofDocument (.object members) = .ok s ↔
      ∃ f, members.foldlM addMember {} = .ok f ∧ f.regions = some s.regions ∧
        f.intent.join = s.intent := by
  obtain ⟨rs, x⟩ := s
  rw [ofDocument]
  cases members.foldlM addMember {} with
  | error e => simp [bind, Except.bind]
  | ok f =>
    obtain ⟨regions, intent⟩ := f
    cases regions <;> simp [bind, Except.bind, pure, Except.pure]

theorem ofDocument_eq_ok_iff {rs : List Region} {d e : Document} (h : Gives rs d e)
    {s : Settings} : ofDocument e = .ok s ↔
      s.regions = rs ∧ Intent.ofOptionalDocument intentDepth d = .ok s.intent := by
  obtain ⟨rs', x⟩ := s
  cases h with
  | object keys regions read intent =>
    rw [ofDocument_object_eq_ok_iff]
    constructor
    · rintro ⟨⟨_, _⟩, hf, hrs', hx⟩
      obtain ⟨⟨rs₁, hread, hrs₁⟩, x₁, hx₁, hintent⟩ :=
        (foldlM_addMember_eq_ok_iff keys regions intent).1 hf
      simp only at hrs' hx hrs₁ hintent
      subst hrs' hintent hx
      obtain rfl := Option.some.inj hrs₁
      exact ⟨Except.ok.inj (hread.symm.trans read), hx₁⟩
    · rintro ⟨rfl, hx⟩
      exact ⟨⟨some rs', some x⟩, (foldlM_addMember_eq_ok_iff keys regions intent).2
        ⟨⟨rs', read, rfl⟩, x, hx, rfl⟩, rfl, rfl⟩
  | array read =>
    rw [ofDocument, read]
    cases Intent.ofOptionalDocument intentDepth d with
    | error e => simp [bind, Except.bind]
    | ok x => simp [bind, Except.bind, pure, Except.pure, eq_comm]

/-- **The settings of a client are its regions and what the document of its intent reads as.** -/
theorem ofText_eq_ok_iff {rs : List Region} {d : Document} {text : String} (h : Holds rs d text)
    {s : Settings} : ofText text = .ok s ↔
      s.regions = rs ∧ Intent.ofOptionalDocument intentDepth d = .ok s.intent := by
  obtain ⟨e, he, hgives⟩ := h
  have hread : readText ofDocument text = .ok s ↔ ofDocument e = .ok s := by
    rw [readText_eq_ok_iff, he]
    simp
  rw [← ofDocument_eq_ok_iff hgives, ← hread, ofText]
  cases readText ofDocument text <;> simp

theorem holds_objectText {R S : String} {rs : List Region} {d : Document}
    (hR : readText Region.listOfDocument R = .ok rs) (hS : Document.ofText? S = some d) :
    Holds rs d (objectText [(regionsField, R), (intentField, S)]) := by
  obtain ⟨r, hr, hread⟩ := readText_eq_ok_iff.1 hR
  refine ⟨.object [(some regionsField, r), (some intentField, d)],
    Document.ofText?_objectText (.cons ⟨rfl, hr⟩ (.cons ⟨rfl, hS⟩ .nil)), ?_⟩
  have hne : some intentField ≠ some regionsField := by decide
  refine .object (by simp) ?_ hread ?_
  · rw [valuesAt_cons_self, valuesAt_cons_of_ne hne, valuesAt_nil]
  · rw [valuesAt_cons_of_ne hne.symm, valuesAt_cons_self, valuesAt_nil]

theorem holds_arrayText {R S : String} {rs : List Region} {d : Document}
    (hR : readText Region.listOfDocument R = .ok rs) (hS : Document.ofText? S = some d) :
    Holds rs d (arrayText [R, S]) := by
  obtain ⟨r, hr, hread⟩ := readText_eq_ok_iff.1 hR
  exact ⟨_, Document.ofText?_arrayText (.cons hr (.cons hS .nil)), .array hread⟩

end Settings

/-! ### The settings of an operation -/

namespace Override

/-- The documents that give an operation, for its intent, the document `d`. -/
inductive Gives (d : Document) : Document → Prop where
  | object {members : List (Option String × Document)} (keys : ∀ m ∈ members, m.1 ≠ none)
    (intent : valuesAt (some intentField) members = [d]) : Gives d (.object members)
  | array : Gives d (.array [d])

/-- The texts of these documents. -/
def Holds (d : Document) (s : String) : Prop := ∃ e, Document.ofText? s = some e ∧ Gives d e

/-- The field of the regions has no meaning for an operation. -/
theorem fills_addMember : Fills addMember Fields.mk regionsField intentField
    (fun a _ => .ok a) (once intentField (Intent.ofOptionalDocument intentDepth)) where
  keys_ne := by decide
  inj h := Fields.mk.inj h
  first a b d := rfl
  second a b d := by
    cases b with
    | some x => rfl
    | none =>
      simp only [addMember, if_true, Fields.addIntent, once]
      cases Intent.ofOptionalDocument intentDepth d <;> rfl
  other f k d h₁ h₂ := by simp [addMember, h₂]
  unreadable f d := ⟨_, rfl⟩

theorem foldlM_addMember_eq_ok_iff {members : List (Option String × Document)} {d : Document}
    (keys : ∀ m ∈ members, m.1 ≠ none)
    (intent : valuesAt (some intentField) members = [d]) {f : Fields} :
    members.foldlM addMember {} = .ok f ↔
      f.regions = none ∧
        ∃ x, Intent.ofOptionalDocument intentDepth d = .ok x ∧ f.intent = some x := by
  have h := fills_addMember.foldlM_eq_ok_iff members none none f.regions f.intent
  rw [intent, foldlM_once_singleton, foldlM_ok, Except.ok.injEq, @eq_comm _ none] at h
  exact h.trans (and_iff_right keys)

theorem ofDocument_object_eq_ok_iff {members : List (Option String × Document)} {x : Override} :
    ofDocument (.object members) = .ok x ↔
      ∃ f, members.foldlM addMember {} = .ok f ∧ f.intent.join = x := by
  rw [ofDocument]
  cases members.foldlM addMember {} <;> simp [bind, Except.bind, pure, Except.pure]

theorem ofDocument_eq_ok_iff {d e : Document} (h : Gives d e) {x : Override} :
    ofDocument e = .ok x ↔ Intent.ofOptionalDocument intentDepth d = .ok x := by
  cases h with
  | object keys intent =>
    rw [ofDocument_object_eq_ok_iff]
    constructor
    · rintro ⟨⟨_, _⟩, hf, rfl⟩
      obtain ⟨-, x₁, hx₁, hintent⟩ := (foldlM_addMember_eq_ok_iff keys intent).1 hf
      simp only at hintent
      subst hintent
      exact hx₁
    · intro hx
      exact ⟨⟨none, some x⟩, (foldlM_addMember_eq_ok_iff keys intent).2 ⟨rfl, x, hx, rfl⟩, rfl⟩
  | array => rfl

/-- **The settings of an operation are what the document of its intent reads as.** -/
theorem ofText_eq_ok_iff {d : Document} {text : String} (h : Holds d text) {x : Override} :
    ofText text = .ok x ↔ Intent.ofOptionalDocument intentDepth d = .ok x := by
  obtain ⟨e, he, hgives⟩ := h
  rw [← ofDocument_eq_ok_iff hgives, ofText, readText_eq_ok_iff, he]
  simp

theorem holds_objectText {S : String} {d : Document} (hS : Document.ofText? S = some d) :
    Holds d (objectText [(intentField, S)]) := by
  refine ⟨.object [(some intentField, d)], Document.ofText?_objectText (.cons ⟨rfl, hS⟩ .nil),
    .object (by simp) ?_⟩
  rw [valuesAt_cons_self, valuesAt_nil]

theorem holds_arrayText {S : String} {d : Document} (hS : Document.ofText? S = some d) :
    Holds d (arrayText [S]) :=
  ⟨_, Document.ofText?_arrayText (.cons hS .nil), .array⟩

end Override

/-! ### Settings from the environment -/

namespace Environment

theorem fromUTF8?_toUTF8 (s : String) : String.fromUTF8? s.toUTF8 = some s :=
  dif_pos s.isValidUTF8

theorem isDigit_eq_false_of_isBlank {c : Char} (h : Text.isBlank c = true) : c.isDigit = false := by
  cases hc : c.isDigit with
  | false => rfl
  | true =>
    have hrange : 48 ≤ c.toNat ∧ c.toNat ≤ 57 := by
      simpa [Char.isDigit, UInt32.le_iff_toNat_le] using hc
    simp only [Text.isBlank, Text.blankRanges, List.any_cons, List.any_nil, Bool.or_eq_true,
      Bool.and_eq_true, decide_eq_true_eq, Bool.false_eq_true, or_false] at h
    omega

/-- No token starts with a blank character. -/
theorem next?_of_isBlank {c : Char} (h : Text.isBlank c = true) (cs : List Char) :
    Token.next? c cs = none := by
  have hstarts : Token.starts.all (fun d => !Text.isBlank d) = true := rfl
  rw [Token.next?_of_not_mem_starts]
  · simp [Token.number?, Numeral.scan?, Numeral.whole?, Numeral.digits,
      isDigit_eq_false_of_isBlank h]
  · intro hc
    have hblank := List.all_eq_true.1 hstarts c hc
    rw [h] at hblank
    cases hblank

/-- A blank text has no tokens. -/
theorem scan?_of_isBlank : ∀ {cs : List Char} {ts : List Token},
    (∀ c ∈ cs, Text.isBlank c = true) → Token.scan? [] cs = some ts → ts = []
  | [], ts, _, h => by simpa [Token.scan?, eq_comm] using h
  | c :: cs, ts, hblank, h => by
    have hcs : ∀ c ∈ cs, Text.isBlank c = true := fun d hd =>
      hblank d (List.mem_cons_of_mem _ hd)
    cases hspace : isSpace c with
    | true => exact scan?_of_isBlank hcs (by rwa [Token.scan?_space hspace] at h)
    | false =>
      have hnext := next?_of_isBlank (hblank c List.mem_cons_self) cs
      rw [Token.scan?_cons hspace, hnext] at h
      cases h

theorem trim_ne_nil {s : String} {d : Document} (h : Document.ofText? s = some d) :
    Text.trim s.toList ≠ [] := by
  intro htrim
  obtain ⟨ts, hscan, hread⟩ := Document.ofText?_eq_some_iff.1 h
  obtain rfl := scan?_of_isBlank (Text.trim_eq_nil_iff.1 htrim) hscan
  cases hread

/-- **The variable of the intent gives what its value reads as.** -/
theorem settings_eq_ok_iff {env : Environment} {regions S : String} {v : Value}
    (hregions : text? env.regions = some regions) (hne : regionsOf regions ≠ [])
    (hintent : env.intent = some S.toUTF8) (hv : Value.ofText? S = some v) {s : Settings} :
    env.settings = .ok s ↔ s.regions = regionsOf regions ∧ Intent.ofValue v = .ok s.intent := by
  obtain ⟨regions', intent'⟩ := s
  obtain ⟨d, hd, -⟩ := Option.bind_eq_some_iff.1 hv
  have hS : text? env.intent = some S := by
    rw [hintent, text?, Option.bind_some, fromUTF8?_toUTF8]
  rw [settings, hregions]
  cases hrs : regionsOf regions with
  | nil => exact absurd hrs hne
  | cons r rs =>
    simp only [hrs, hS, intentOf, if_neg (trim_ne_nil hd), hv]
    cases Intent.ofValue v with
    | error e => simp [bind, Except.bind]
    | ok x => simp [bind, Except.bind, pure, Except.pure, eq_comm]

/-- Settings from the environment have the regions that its variable lists. -/
theorem exists_regions {env : Environment} {s : Settings} (h : env.settings = .ok s) :
    ∃ regions, text? env.regions = some regions ∧
      regionsOf regions ≠ [] ∧ s.regions = regionsOf regions := by
  unfold settings at h
  split at h
  · cases h
  · next regions hregions =>
    refine ⟨regions, hregions, ?_⟩
    split at h
    · cases h
    · next r rs hrs =>
      rw [hrs]
      refine ⟨List.cons_ne_nil _ _, ?_⟩
      split at h
      · obtain rfl := Except.ok.inj h
        rfl
      · next S hS =>
        cases hintent : intentOf S with
        | error e =>
          rw [hintent] at h
          cases h
        | ok x =>
          rw [hintent] at h
          obtain rfl := Except.ok.inj h
          rfl

end Environment
end Hedging
