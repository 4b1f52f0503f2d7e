import Hedging.Region
import Hedging.Strategy.Intent

/-!
# Settings of a client and of an operation

A client is given its regions, the primary first, and perhaps an intent; an
operation is given perhaps an intent of its own.  Both are read from an object with
named fields, each at most once, or from an array of the fields in order.
-/

namespace Hedging

/-- What a client is given. -/
structure Settings where
  regions : List Region
  intent : Option Intent := none
deriving DecidableEq, Repr, Inhabited

/-- What an operation is given: perhaps an intent. -/
abbrev Override := Option Intent

/-- The field of the regions. -/
def regionsField : String := "preferred_regions"

/-- The field of the intent. -/
def intentField : String := "availability_strategy"

/-- How deep an intent inside an object or array may be nested. -/
def intentDepth : Nat := Json.maxDepth - 1

/-- Reads a region's name. -/
def Region.ofDocument (d : Json.Document) : Except Json.Refusal Region := do
  return ⟨← Json.readString d.met?⟩

/-- Reads a region's name from a text. -/
def Region.ofText (s : String) : Except Json.Refusal Region := Json.readText Region.ofDocument s

/-- Reads a list of regions. -/
def Region.listOfDocument : Json.Document → Except Json.Refusal (List Region)
  | .array items => items.mapM Region.ofDocument
  | d => Json.refuse d.met? "a sequence"

/-- The fields that were read so far. -/
structure Fields where
  regions : Option (List Region) := none
  intent : Option (Option Intent) := none

namespace Fields

/-- Reads the field of the regions, which may come once. -/
def addRegions (f : Fields) (d : Json.Document) : Except Json.Refusal Fields :=
  match f.regions with
  | some _ => .error (.mismatch (.duplicateField regionsField))
  | none => do return { f with regions := some (← Region.listOfDocument d) }

/-- Reads the field of the intent, which may come once. -/
def addIntent (f : Fields) (d : Json.Document) : Except Json.Refusal Fields :=
  match f.intent with
  | some _ => .error (.mismatch (.duplicateField intentField))
  | none => do return { f with intent := some (← Intent.ofOptionalDocument intentDepth d) }

end Fields

namespace Settings

/-- Takes one member of an object; other keys are skipped. -/
def addMember (f : Fields) (member : Option String × Json.Document) : Except Json.Refusal Fields :=
  match member with
  | (none, _) => .error .notJson
  | (some key, d) =>
    if key = regionsField then f.addRegions d
    else if key = intentField then f.addIntent d
    else .ok f

/-- Reads the settings of a client from a document. -/
def ofDocument : Json.Document → Except Json.Refusal Settings
  | .object members => do
    let f ← members.foldlM addMember {}
    match f.regions with
    | none => .error (.mismatch (.missingField regionsField))
    | some regions => return ⟨regions, f.intent.join⟩
  | .array [] => .error (.mismatch (.tooShort 0 "struct ClientOptions with 2 elements"))
  | .array [r] => do return ⟨← Region.listOfDocument r, none⟩
  | .array [r, i] => do
    return ⟨← Region.listOfDocument r, ← Intent.ofOptionalDocument intentDepth i⟩
  | .array (r :: i :: _) => do
    let _ ← Region.listOfDocument r
    let _ ← Intent.ofOptionalDocument intentDepth i
    .error (.mismatch .tooLong)
  | d => Json.refuse d.met? "struct ClientOptions"

/-- Reads the settings of a client from a text. -/
def ofText (s : String) : Except ConfigError Settings :=
  match Json.readText ofDocument s with
  | .ok settings => .ok settings
  | .error r => .error (.malformed (.refused r))

end Settings

namespace Override

/-- Takes one member of an object; other keys are skipped. -/
def addMember (f : Fields) (member : Option String × Json.Document) : Except Json.Refusal Fields :=
  match member with
  | (none, _) => .error .notJson
  | (some key, d) => if key = intentField then f.addIntent d else .ok f

/-- Reads the settings of an operation from a document. -/
def ofDocument : Json.Document → Except Json.Refusal Override
  | .object members => do return (← members.foldlM addMember {}).intent.join
  | .array [] => .ok none
  | .array [i] => Intent.ofOptionalDocument intentDepth i
  | .array (i :: _) => do
    let _ ← Intent.ofOptionalDocument intentDepth i
    .error (.mismatch .tooLong)
  | d => Json.refuse d.met? "struct OperationOptions"

/-- Reads the settings of an operation from a text. -/
def ofText (s : String) : Except Json.Refusal Override := Json.readText ofDocument s

end Override
end Hedging
