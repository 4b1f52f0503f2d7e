import Hedging.Json.Value
import Hedging.Text.Quoted

/-!
# Reading a document as something else

A reader takes what it needs from a document and refuses the first part, in the
order of the text, that has the wrong shape.  It looks at no more than the head of a
value: a `Met`.  `readText` reads a whole text; a text that is refused and is not
JSON is refused for that.
-/

namespace Hedging
namespace Json

/-- What a reader meets: an atom with its content, or the kind of a bracket. -/
inductive Met where
  | null
  | bool (b : Bool)
  | number (n : Number)
  | string (s : String)
  | sequence
  | map
deriving DecidableEq, Repr

/-- A phrase between backquotes. -/
def backquoted (s : String) : String := "`" ++ s ++ "`"

/-- How a message names what was met. -/
def Met.text : Met → String
  | null => "null"
  | bool b => "boolean " ++ backquoted (if b then "true" else "false")
  | number (.integer i) => "integer " ++ backquoted (toString i)
  | number (.float x) => "floating point " ++ backquoted (floatText x)
  | string s => "string " ++ Text.quoted s
  | sequence => "sequence"
  | map => "map"

/-- What is met at the head of a document; `none` if its content could not be read. -/
def Document.met? : Document → Option Met
  | .null => some .null
  | .bool b => some (.bool b)
  | .number n => n.map .number
  | .string s => s.map .string
  | .array _ => some .sequence
  | .object _ => some .map

/-- What is met at the head of a value. -/
def Value.met : Value → Met
  | .null => .null
  | .bool b => .bool b
  | .number n => .number n
  | .string s => .string s
  | .array _ => .sequence
  | .object _ => .map

/-- Why a part of a JSON document cannot be read. -/
inductive Mismatch where
  /-- Something else was expected here. -/
  | unexpected (met : Met) (expected : String)
  /-- The integer is too large for what was expected here. -/
  | outOfRange (i : Int) (expected : String)
  /-- A field without which nothing can be read. -/
  | missingField (field : String)
  /-- A field that an object may have only once. -/
  | duplicateField (field : String)
  /-- An array with too few items. -/
  | tooShort (length : Nat) (expected : String)
  /-- An array with too many items. -/
  | tooLong
  /-- None of the alternatives of a type fits. -/
  | noAlternative (type : String)
deriving DecidableEq, Repr

/-- The message for a part that cannot be read. -/
def Mismatch.text : Mismatch → String
  | unexpected met expected => "invalid type: " ++ met.text ++ ", expected " ++ expected
  | outOfRange i expected =>
    "invalid value: integer " ++ backquoted (toString i) ++ ", expected " ++ expected
  | missingField field => "missing field " ++ backquoted field
  | duplicateField field => "duplicate field " ++ backquoted field
  | tooShort length expected =>
    "invalid length " ++ toString length ++ ", expected " ++ expected
  | tooLong => "trailing characters"
  | noAlternative type => "data did not match any variant of untagged enum " ++ type

/-- Why a text cannot be read: it is not JSON, or a part of it has the wrong shape. -/
inductive Refusal where
  | notJson
  | mismatch (m : Mismatch)
deriving DecidableEq, Repr

/-- The message for a text that cannot be read. -/
def Refusal.text : Refusal → String
  | notJson => "<syntax>"
  | mismatch m => m.text

/-- A reading in two steps succeeds if both do. -/
theorem bind_eq_ok_iff {ε α β : Type} {x : Except ε α} {f : α → Except ε β} {b : β} :
    (x >>= f) = .ok b ↔ ∃ a, x = .ok a ∧ f a = .ok b := by
  cases x <;> simp [bind, Except.bind]

theorem exists_error_iff {ε α : Type} {x : Except ε α} : (∃ e, x = .error e) ↔ ¬∃ a, x = .ok a := by
  cases x <;> simp

/-- Refuses what was met, `none` being a content that could not be read. -/
def refuse {α : Type} (met : Option Met) (expected : String) : Except Refusal α :=
  match met with
  | none => .error .notJson
  | some m => .error (.mismatch (.unexpected m expected))

/-- An integer of 64 bits, or nothing where `null` stands. -/
def readOptionalInt64 : Option Met → Except Refusal (Option Int64)
  | some .null => .ok none
  | some (.number (.integer i)) =>
    match int64? i with
    | some n => .ok (some n)
    | none => .error (.mismatch (.outOfRange i "i64"))
  | met => refuse met "i64"

/-- A string. -/
def readString : Option Met → Except Refusal String
  | some (.string s) => .ok s
  | met => refuse met "a string"

/-- Reads a whole text. -/
def readText {α : Type} (read : Document → Except Refusal α) (s : String) : Except Refusal α :=
  match Document.ofText? s with
  | none => .error .notJson
  | some d =>
    match read d with
    | .ok a => .ok a
    | .error e => if (d.value? maxDepth).isSome then .error e else .error .notJson

end Json
end Hedging
