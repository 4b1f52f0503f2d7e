import Hedging.Proofs.Json.Scan
import Mathlib.Data.List.Forall2

/-!
# Texts of arrays and objects

The machine that builds a document never looks below the frames that it opened itself
(`Reader.step_onto`), so that a text which writes a document writes it inside the unfinished
arrays and objects of a larger text as well (`Reader.run_value`).  The texts of an array and of
an object are therefore read if those of their parts are (`ofText?_arrayText`,
`ofText?_objectText`).
-/

namespace Hedging
namespace Json

/-- The text of an array, given those of its items. -/
def arrayText (texts : List String) : String := bracketed "[" "]" texts

/-- The text of a member of an object, given that of its value. -/
def memberText (m : String × String) : String := stringText m.1 ++ ":" ++ m.2

/-- The text of an object, given those of the values of its members. -/
def objectText (ms : List (String × String)) : String :=
  bracketed "\x7b" "\x7d" (ms.map memberText)

namespace Token

/-- The tokens of a list of parts, with commas between them. -/
def separated (parts : List (List Token)) : List Token := List.intercalate [comma] parts

theorem scan?_comma (cs : List Char) : scan? [] (',' :: cs) = (scan? [] cs).map (comma :: ·) :=
  scan?_punctuation rfl rfl

theorem scan?_intercalate {x : List Char} (hx : Ends x) {texts : List String}
    {parts : List (List Token)}
    (h : List.Forall₂ (fun text ts => scan? [] text.toList = some ts) texts parts) :
    scan? [] (List.intercalate [','] (texts.map String.toList) ++ x) =
      (scan? [] x).map (separated parts ++ ·) := by
  induction h with
  | nil => simp [separated]
  | cons hhead htail ih =>
    rename_i text ts texts parts
    cases htail with
    | nil => simpa [separated] using scan?_append hx hhead
    | cons hnext htail =>
      rw [List.map_cons, separated] at ih
      rw [List.map_cons, List.map_cons, separated, List.intercalate_cons_cons,
        List.intercalate_cons_cons, List.append_assoc, List.append_assoc, List.singleton_append,
        scan?_append (ends_cons _) hhead, scan?_comma, ih, Option.map_map, Option.map_map]
      simp [Function.comp_def]

/-- **The tokens of a text between brackets.** -/
theorem scan?_bracketed {o c : Char} {first last : Token} {texts : List String}
    {parts : List (List Token)} (ho : isSpace o = false ∧ punctuation? o = some first)
    (hc : isSpace c = false ∧ punctuation? c = some last) (hends : Ends [c])
    (h : List.Forall₂ (fun text ts => scan? [] text.toList = some ts) texts parts) :
    scan? [] (bracketed (String.singleton o) (String.singleton c) texts).toList =
      some (first :: separated parts ++ [last]) := by
  have hlast : scan? [] [c] = some [last] := by
    rw [scan?_punctuation hc.1 hc.2, scan?]
    rfl
  have hcomma : ",".toList = [','] := rfl
  simp only [bracketed, String.toList_append, String.toList_singleton, String.toList_intercalate,
    hcomma, List.cons_append, List.nil_append]
  rw [scan?_punctuation ho.1 ho.2, scan?_intercalate hends h, hlast]
  rfl

end Token

namespace Document
namespace Reader

/-- The same state with more unfinished arrays and objects around it. -/
def onto (outer : List Frame) : Reader → Reader
  | value frames mayClose => value (frames ++ outer) mayClose
  | key frames members mayClose => key (frames ++ outer) members mayClose
  | colon frames members k => colon (frames ++ outer) members k
  | rest frames v => rest (frames ++ outer) v

theorem start_onto (outer : List Frame) {frames : List Frame} {t : Token} {r : Reader}
    (h : start frames t = some r) : start (frames ++ outer) t = some (r.onto outer) := by
  cases t <;> simp only [start, Option.some.injEq, reduceCtorEq] at h ⊢ <;> subst h <;> rfl

theorem finish_onto (outer : List Frame) {frames : List Frame} {v : Document} {t : Token}
    {r : Reader} (h : finish frames v t = some r) :
    finish (frames ++ outer) v t = some (r.onto outer) := by
  unfold finish at h
  split at h <;> simp only [Option.some.injEq, reduceCtorEq] at h <;> subst h <;> rfl

/-- What a value starts with is not the end of an array. -/
theorem step_value_of_start {frames : List Frame} {t : Token} {r : Reader}
    (h : start frames t = some r) (mayClose : Bool) : step (value frames mayClose) t = some r := by
  simp only [step]
  split
  · cases h
  · exact h

/-- A step does not look below its own frames. -/
theorem step_onto (outer : List Frame) {r r' : Reader} {t : Token} (h : step r t = some r') :
    step (r.onto outer) t = some (r'.onto outer) := by
  cases r with
  | value frames mayClose =>
    simp only [step] at h
    split at h
    · obtain rfl := Option.some.inj h
      rfl
    · exact step_value_of_start (start_onto outer h) mayClose
  | key frames members mayClose =>
    cases t <;> simp only [step, reduceCtorEq, Option.some.injEq] at h
    · cases mayClose with
      | false => cases h
      | true =>
        obtain rfl := Option.some.inj h
        rfl
    · subst h
      rfl
  | colon frames members k =>
    cases t <;> simp only [step, reduceCtorEq, Option.some.injEq] at h
    subst h
    rfl
  | rest frames v => exact finish_onto outer h

/-- Tokens one after another. -/
def run (r : Reader) (ts : List Token) : Option Reader := ts.foldlM step r

theorem run_cons (r : Reader) (t : Token) (ts : List Token) :
    run r (t :: ts) = (step r t).bind (run · ts) := rfl

theorem run_append (r : Reader) (ts us : List Token) :
    run r (ts ++ us) = (run r ts).bind (run · us) :=
  List.foldlM_append

theorem run_onto (outer : List Frame) {ts : List Token} :
    ∀ {r r' : Reader}, run r ts = some r' → run (r.onto outer) ts = some (r'.onto outer) := by
  induction ts with
  | nil =>
    rintro r r' h
    obtain rfl : r = r' := Option.some.inj h
    rfl
  | cons t ts ih =>
    intro r r' h
    rw [run_cons, Option.bind_eq_some_iff] at h
    obtain ⟨s, hstep, hrun⟩ := h
    rw [run_cons, step_onto outer hstep, Option.bind_some, ih hrun]

theorem done?_eq_some_iff {r : Reader} {d : Document} : r.done? = some d ↔ r = rest [] d := by
  unfold done?
  split <;> simp_all

/-- **A document is read wherever a value stands.** -/
theorem run_value {ts : List Token} {d : Document} (h : ofTokens? ts = some d)
    (outer : List Frame) (mayClose : Bool) :
    run (value outer mayClose) ts = some (rest outer d) := by
  rw [ofTokens?, Option.bind_eq_bind, Option.bind_eq_some_iff] at h
  obtain ⟨r, hrun, hdone⟩ := h
  obtain rfl := done?_eq_some_iff.1 hdone
  cases ts with
  | nil => cases hrun
  | cons t ts =>
    rw [← run, run_cons, Option.bind_eq_some_iff] at hrun
    obtain ⟨s, hstart, hrun⟩ := hrun
    have hstep : step (value outer mayClose) t = some (s.onto outer) :=
      step_value_of_start (start_onto outer hstart) mayClose
    rw [run_cons, hstep, Option.bind_some]
    exact run_onto outer hrun

/-- The tokens of a member whose value is written by `ts`. -/
def memberTokens (k : String) (ts : List Token) : List Token := .string (some k) :: .colon :: ts

theorem run_memberTokens {ts : List Token} {d : Document} (h : ofTokens? ts = some d)
    (outer : List Frame) (members : List (Option String × Document)) (k : String)
    (mayClose : Bool) :
    run (key outer members mayClose) (memberTokens k ts) =
      some (rest (.object members (some k) :: outer) d) :=
  run_value h _ false

/-- The items that were read stand in the frame, the last one first. -/
theorem run_items (outer : List Frame) {parts : List (List Token)} {ds : List Document}
    (h : List.Forall₂ (fun ts d => ofTokens? ts = some d) parts ds) (hne : parts ≠ []) :
    ∀ (items : List Document) (mayClose : Bool),
      run (value (.array items :: outer) mayClose) (Token.separated parts ++ [.arrayClose]) =
        some (rest outer (.array (items.reverse ++ ds))) := by
  induction h with
  | nil => exact absurd rfl hne
  | cons hhead htail ih =>
    rename_i ts d parts ds
    intro items mayClose
    cases htail with
    | nil =>
      rw [Token.separated, List.intercalate_singleton, run_append, run_value hhead]
      simp [run, step, finish]
    | cons hnext htail =>
      have hrest := ih (List.cons_ne_nil _ _) (d :: items) false
      rw [Token.separated] at hrest ⊢
      rw [List.intercalate_cons_cons, List.append_assoc, List.append_assoc, run_append,
        run_value hhead, Option.bind_some, List.singleton_append, run_cons]
      simpa [step, finish] using hrest

/-- The members that were read stand in the state, the last one first. -/
theorem run_members (outer : List Frame) {parts : List (String × List Token)}
    {ms : List (Option String × Document)}
    (h : List.Forall₂ (fun p m => some p.1 = m.1 ∧ ofTokens? p.2 = some m.2) parts ms)
    (hne : parts ≠ []) :
    ∀ (members : List (Option String × Document)) (mayClose : Bool),
      run (key outer members mayClose)
          (Token.separated (parts.map fun p => memberTokens p.1 p.2) ++ [.objectClose]) =
        some (rest outer (.object (members.reverse ++ ms))) := by
  induction h with
  | nil => exact absurd rfl hne
  | cons hhead htail ih =>
    rename_i p m parts ms
    obtain ⟨k, d⟩ := m
    obtain ⟨rfl, hd⟩ := hhead
    intro members mayClose
    cases htail with
    | nil =>
      rw [Token.separated, List.map_singleton, List.intercalate_singleton, run_append,
        run_memberTokens hd]
      simp [run, step, finish]
    | cons hnext htail =>
      have hrest := ih (List.cons_ne_nil _ _) ((some p.1, d) :: members) false
      rw [Token.separated, List.map_cons] at hrest
      rw [Token.separated, List.map_cons, List.map_cons, List.intercalate_cons_cons,
        List.append_assoc, List.append_assoc, run_append, run_memberTokens hd, Option.bind_some,
        List.singleton_append, run_cons]
      simpa [step, finish] using hrest

end Reader

open Reader in
theorem ofTokens?_array {parts : List (List Token)} {ds : List Document}
    (h : List.Forall₂ (fun ts d => ofTokens? ts = some d) parts ds) :
    ofTokens? (.arrayOpen :: Token.separated parts ++ [.arrayClose]) = some (.array ds) := by
  have hrun : run (value [] false) (.arrayOpen :: Token.separated parts ++ [.arrayClose]) =
      some (rest [] (.array ds)) := by
    rw [List.cons_append, run_cons]
    by_cases hne : parts = []
    · subst hne
      cases h
      rfl
    · exact run_items [] h hne [] true
  rw [ofTokens?, ← run, hrun]
  rfl

open Reader in
theorem ofTokens?_object {parts : List (String × List Token)}
    {ms : List (Option String × Document)}
    (h : List.Forall₂ (fun p m => some p.1 = m.1 ∧ ofTokens? p.2 = some m.2) parts ms) :
    ofTokens? (.objectOpen ::
      Token.separated (parts.map fun p => memberTokens p.1 p.2) ++ [.objectClose]) =
      some (.object ms) := by
  have hrun : run (value [] false) (.objectOpen ::
      Token.separated (parts.map fun p => memberTokens p.1 p.2) ++ [.objectClose]) =
      some (rest [] (.object ms)) := by
    rw [List.cons_append, run_cons]
    by_cases hne : parts = []
    · subst hne
      cases h
      rfl
    · exact run_members [] h hne [] true
  rw [ofTokens?, ← run, hrun]
  rfl

theorem ofText?_eq_some_iff {s : String} {d : Document} :
    ofText? s = some d ↔ ∃ ts, Token.scan? [] s.toList = some ts ∧ ofTokens? ts = some d := by
  rw [ofText?, Option.bind_eq_bind, Option.bind_eq_some_iff]

/-- A text of one token that is a document. -/
theorem ofText?_of_next? {s : String} {c : Char} {cs : List Char} {t : Token} {d : Document}
    (hs : s.toList = c :: cs) (hspace : isSpace c = false) (ht : Token.next? c cs = some (t, []))
    (hd : ofTokens? [t] = some d) : ofText? s = some d := by
  refine ofText?_eq_some_iff.2 ⟨[t], ?_, hd⟩
  rw [hs, Token.scan?_cons hspace, ht, Option.bind_some, Token.scan?]
  rfl

theorem ofText?_stringText (s : String) : ofText? (stringText s) = some (.string (some s)) := by
  have hscan := Token.scan?_stringText s []
  rw [List.append_nil, Token.scan?, Option.map_some] at hscan
  exact ofText?_eq_some_iff.2 ⟨_, hscan, rfl⟩

/-- **The text of an array is read if those of its items are.** -/
theorem ofText?_arrayText {texts : List String} {ds : List Document}
    (h : List.Forall₂ (fun text d => ofText? text = some d) texts ds) :
    ofText? (arrayText texts) = some (.array ds) := by
  have hparts : ∃ parts : List (List Token),
      List.Forall₂ (fun text ts => Token.scan? [] text.toList = some ts) texts parts ∧
        List.Forall₂ (fun ts d => ofTokens? ts = some d) parts ds := by
    induction h with
    | nil => exact ⟨[], .nil, .nil⟩
    | cons hhead _ ih =>
      obtain ⟨ts, hscan, hread⟩ := ofText?_eq_some_iff.1 hhead
      obtain ⟨parts, hscans, hreads⟩ := ih
      exact ⟨ts :: parts, .cons hscan hscans, .cons hread hreads⟩
  obtain ⟨parts, hscans, hreads⟩ := hparts
  exact ofText?_eq_some_iff.2
    ⟨_, Token.scan?_bracketed (o := '[') (c := ']') ⟨rfl, rfl⟩ ⟨rfl, rfl⟩ (ends_cons _) hscans,
      ofTokens?_array hreads⟩

/-- **The text of an object is read if those of its values are.** -/
theorem ofText?_objectText {texts : List (String × String)}
    {ms : List (Option String × Document)}
    (h : List.Forall₂ (fun m d => some m.1 = d.1 ∧ ofText? m.2 = some d.2) texts ms) :
    ofText? (objectText texts) = some (.object ms) := by
  have hparts : ∃ parts : List (String × List Token),
      List.Forall₂ (fun text ts => Token.scan? [] text.toList = some ts) (texts.map memberText)
        (parts.map fun p => Reader.memberTokens p.1 p.2) ∧
        List.Forall₂ (fun p m => some p.1 = m.1 ∧ ofTokens? p.2 = some m.2) parts ms := by
    induction h with
    | nil => exact ⟨[], .nil, .nil⟩
    | cons hhead _ ih =>
      rename_i m d texts ms _
      obtain ⟨ts, hscan, hread⟩ := ofText?_eq_some_iff.1 hhead.2
      obtain ⟨parts, hscans, hreads⟩ := ih
      have hmember : Token.scan? [] (memberText m).toList =
          some (Reader.memberTokens m.1 ts) := by
        have hcolon : ":".toList = [':'] := rfl
        rw [memberText, String.toList_append, String.toList_append, List.append_assoc,
          Token.scan?_stringText, hcolon, List.singleton_append, Token.scan?_punctuation rfl rfl,
          hscan]
        rfl
      exact ⟨(m.1, ts) :: parts, .cons hmember hscans, .cons ⟨hhead.1, hread⟩ hreads⟩
  obtain ⟨parts, hscans, hreads⟩ := hparts
  exact ofText?_eq_some_iff.2
    ⟨_, Token.scan?_bracketed (o := '\x7b') (c := '\x7d') ⟨rfl, rfl⟩ ⟨rfl, rfl⟩ (ends_cons _)
      hscans, ofTokens?_object hreads⟩

end Document
end Json
end Hedging
