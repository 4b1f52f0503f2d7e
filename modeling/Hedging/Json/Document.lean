import Hedging.Json.Token

/-!
# Documents

A document is the tree that a text writes: members of an object stand in the order
of the text, repeated keys included, and contents that could not be read are `none`.
The tree is built by a machine that takes one token at a time and keeps the
unfinished arrays and objects on a stack, so that any depth is read.
-/

namespace Hedging
namespace Json

/-- A tree as it is written. -/
inductive Document where
  | null
  | bool (b : Bool)
  | number (n : Option Number)
  | string (s : Option String)
  | array (items : List Document)
  | object (members : List (Option String × Document))
deriving Inhabited

namespace Document

/-- An array or object whose end has not come yet; what it holds so far is in reverse order. -/
inductive Frame where
  | array (items : List Document)
  | object (members : List (Option String × Document)) (key : Option String)

/-- What the machine waits for, and the unfinished arrays and objects, the innermost first. -/
inductive Reader where
  /-- A value; in an array without items perhaps its end. -/
  | value (frames : List Frame) (mayClose : Bool)
  /-- A key; in an object without members perhaps its end. -/
  | key (frames : List Frame) (members : List (Option String × Document)) (mayClose : Bool)
  /-- The colon after a key. -/
  | colon (frames : List Frame) (members : List (Option String × Document)) (key : Option String)
  /-- What comes after a value. -/
  | rest (frames : List Frame) (value : Document)

namespace Reader

/-- A value starts: an atom is complete, a bracket opens a frame. -/
def start (frames : List Frame) : Token → Option Reader
  | .null => some (rest frames .null)
  | .bool b => some (rest frames (.bool b))
  | .number n => some (rest frames (.number n))
  | .string s => some (rest frames (.string s))
  | .arrayOpen => some (value (.array [] :: frames) true)
  | .objectOpen => some (key frames [] true)
  | _ => none

/-- A value is complete: a comma or a closing bracket follows in the innermost frame. -/
def finish (frames : List Frame) (v : Document) (t : Token) : Option Reader :=
  match frames, t with
  | .array items :: frames, .comma => some (value (.array (v :: items) :: frames) false)
  | .array items :: frames, .arrayClose => some (rest frames (.array (v :: items).reverse))
  | .object members k :: frames, .comma => some (key frames ((k, v) :: members) false)
  | .object members k :: frames, .objectClose =>
    some (rest frames (.object ((k, v) :: members).reverse))
  | _, _ => none

/-- One token. -/
def step (r : Reader) (t : Token) : Option Reader :=
  match r with
  | value frames mayClose =>
    match frames, mayClose, t with
    | .array [] :: outer, true, .arrayClose => some (rest outer (.array []))
    | _, _, _ => start frames t
  | key frames members mayClose =>
    match t with
    | .string k => some (colon frames members k)
    | .objectClose => if mayClose then some (rest frames (.object members.reverse)) else none
    | _ => none
  | colon frames members k =>
    match t with
    | .colon => some (value (.object members k :: frames) false)
    | _ => none
  | rest frames v => finish frames v t

/-- The document, once all frames are closed. -/
def done? : Reader → Option Document
  | rest [] v => some v
  | _ => none

end Reader

/-- The document that a list of tokens writes. -/
def ofTokens? (ts : List Token) : Option Document := do
  (← ts.foldlM Reader.step (.value [] false)).done?

/-- The document that a text writes; `none` if the text breaks the grammar. -/
def ofText? (s : String) : Option Document := do
  ofTokens? (← Token.scan? [] s.toList)

end Document
end Json
end Hedging
