/-!
# Documents

The values of structured documents: settings files, reports and messages.
Tables keep the order of their keys and hold each key once.
-/
namespace ProtoForge.Document

/-- A value of a document. -/
inductive Value where
  | null
  | bool (b : Bool)
  | int (n : Int)
  | float (x : Float)
  | text (s : String)
  | array (items : List Value)
  | table (entries : List (String × Value))
  deriving Inhabited

/-- Sets a key: a new key goes to the end, a known one keeps its place. -/
def setKey {α : Type} (entries : List (String × α)) (key : String) (v : α) :
    List (String × α) :=
  if entries.any (·.1 == key) then
    entries.map fun e => if e.1 = key then (key, v) else e
  else entries ++ [(key, v)]

namespace Value

/-- The value of a key of a table. -/
def get? (v : Value) (key : String) : Option Value :=
  match v with
  | table entries => entries.lookup key
  | _ => none

/-- The text of a text value. -/
def text? : Value → Option String
  | text s => some s
  | _ => none

/-- The items of an array. -/
def items : Value → List Value
  | array vs => vs
  | _ => []

/-- The entries of a table. -/
def entries : Value → List (String × Value)
  | table es => es
  | _ => []

/-- A table from its entries. -/
def ofEntries (es : List (String × Value)) : Value :=
  table (es.foldl (fun acc e => setKey acc e.1 e.2) [])

/-- An array of texts. -/
def texts (ss : List String) : Value := array (ss.map text)

/-- A number that cannot be negative. -/
def nat (n : Nat) : Value := int n

/-- A text, or nothing. -/
def optText (s : Option String) : Value := (s.map text).getD null

end Value

end ProtoForge.Document
