import Hedging.Client.Settings
import Hedging.Text.Blank

/-!
# Settings from the environment

One variable lists the regions, separated by commas; another holds the intent as
JSON.  Blank characters around a name are dropped, and so are blank pieces.  A
variable whose bytes are not UTF-8 counts as not set, and a blank intent as none.
-/

namespace Hedging

/-- The two variables, each perhaps set to some bytes. -/
structure Environment where
  regions : Option ByteArray := none
  intent : Option ByteArray := none

namespace Environment

/-- The variable that lists the regions. -/
def regionsName : String := "HEDGING_PREFERRED_REGIONS"

/-- The variable that holds the intent. -/
def intentName : String := "HEDGING_AVAILABILITY_STRATEGY"

/-- The text of a variable, if it is set to one. -/
def text? (bytes : Option ByteArray) : Option String := bytes.bind String.fromUTF8?

/-- The pieces of a text between commas; there is always one more than there are commas. -/
def pieces : List Char → List (List Char)
  | [] => [[]]
  | c :: cs =>
    if c = ',' then [] :: pieces cs
    else
      match pieces cs with
      | [] => [[c]]
      | p :: ps => (c :: p) :: ps

/-- The regions that a text lists. -/
def regionsOf (s : String) : List Region :=
  (((pieces s.toList).map Text.trim).filter (· ≠ [])).map fun name => ⟨String.ofList name⟩

/-- The intent that a text holds. -/
def intentOf (s : String) : Except ConfigError (Option Intent) :=
  if Text.trim s.toList = [] then .ok none
  else
    match Json.Value.ofText? s with
    | none => .error (.malformed (.environment intentName))
    | some v =>
      match Intent.ofValue v with
      | .ok intent => .ok intent
      | .error r => .error (.malformed (.refused r))

/-- The settings of a client that the variables give. -/
def settings (env : Environment) : Except ConfigError Settings :=
  match text? env.regions with
  | none => .error (.missingVariable regionsName)
  | some regions =>
    match regionsOf regions with
    | [] => .error .noRegions
    | r :: rs =>
      match text? env.intent with
      | none => .ok ⟨r :: rs, none⟩
      | some s => do return ⟨r :: rs, ← intentOf s⟩

theorem pieces_ne_nil (cs : List Char) : pieces cs ≠ [] := by
  fun_cases pieces cs <;> simp_all

/-- Blanks around names and blank pieces are dropped. -/
example : regionsOf " West US , ,East US" = [⟨"West US"⟩, ⟨"East US"⟩] := by
  decide +kernel

end Environment
end Hedging
