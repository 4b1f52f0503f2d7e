import Hedging.Json.Document

/-!
# Values

A value is what a document says once all of it has been read: every string and
number has a content, of members with one key only the last is kept, and members
are ordered by key.  `Document.value?` reads one, to a limited depth, and
`Value.text` writes it without spaces.
-/

namespace Hedging
namespace Json

/-- A JSON value. -/
inductive Value where
  | null
  | bool (b : Bool)
  | number (n : Number)
  | string (s : String)
  | array (items : List Value)
  | object (members : List (String × Value))
deriving Inhabited

/-- How deep arrays and objects may be nested in a value. -/
def maxDepth : Nat := 127

/-- Puts a member where its key belongs; an earlier member with the key is dropped. -/
def insertMember (k : String) (v : Value) : List (String × Value) → List (String × Value)
  | [] => [(k, v)]
  | (k', v') :: rest =>
    if k = k' then (k, v) :: rest
    else if k < k' then (k, v) :: (k', v') :: rest
    else (k', v') :: insertMember k v rest

/-- The members in the order of their keys, the last one of each key. -/
def mergeMembers (members : List (String × Value)) : List (String × Value) :=
  members.foldl (fun acc m => insertMember m.1 m.2 acc) []

/-- The value of a document whose arrays and objects are nested at most `depth` deep. -/
def Document.value? : Nat → Document → Option Value
  | _, .null => some .null
  | _, .bool b => some (.bool b)
  | _, .number n => n.map .number
  | _, .string s => s.map .string
  | 0, .array _ => none
  | 0, .object _ => none
  | depth + 1, .array items => do return .array (← items.mapM (Document.value? depth))
  | depth + 1, .object members => do
    let ms ← members.mapM fun (m : Option String × Document) => do
      return (← m.1, ← Document.value? depth m.2)
    return .object (mergeMembers ms)

/-- How a character is written in a string. -/
def escapedChar (c : Char) : List Char :=
  if c = '"' then ['\\', '"']
  else if c = '\\' then ['\\', '\\']
  else if c = '\x08' then ['\\', 'b']
  else if c = '\x0c' then ['\\', 'f']
  else if c = '\n' then ['\\', 'n']
  else if c = '\r' then ['\\', 'r']
  else if c = '\t' then ['\\', 't']
  else if c < ' ' then
    ['\\', 'u', '0', '0', Nat.digitChar (c.toNat / 16), Nat.digitChar (c.toNat % 16)]
  else [c]

/-- How a string is written. -/
def stringText (s : String) : String :=
  String.ofList (['"'] ++ s.toList.flatMap escapedChar ++ ['"'])

/-- Texts between two brackets, with commas between them. -/
def bracketed (first last : String) (texts : List String) : String :=
  first ++ String.intercalate "," texts ++ last

mutual

/-- How a value is written, without spaces. -/
def Value.text : Value → String
  | .null => "null"
  | .bool b => if b then "true" else "false"
  | .number n => n.text
  | .string s => stringText s
  | .array items => bracketed "[" "]" (itemTexts items)
  | .object members => bracketed "\x7b" "\x7d" (memberTexts members)

/-- The texts of the items of an array. -/
def itemTexts : List Value → List String
  | [] => []
  | v :: vs => v.text :: itemTexts vs

/-- The texts of the members of an object. -/
def memberTexts : List (String × Value) → List String
  | [] => []
  | (k, v) :: ms => (stringText k ++ ":" ++ v.text) :: memberTexts ms

end

/-- The value that a text writes; `none` if the text is not JSON. -/
def Value.ofText? (s : String) : Option Value := do
  (← Document.ofText? s).value? maxDepth

end Json
end Hedging
