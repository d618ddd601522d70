import ProtoForge.Decimal.Shortest
import ProtoForge.Document.ReadFault
import ProtoForge.Document.Tree
import ProtoForge.OrderedMap
import ProtoForge.Text.Quoted

/-!
# Reading values

Values of documents read as truth values, numbers, texts, lists, maps and
records. A dialect says which conversions are allowed: the strict one takes
each value for what it is, the lenient one converts between plain values.
-/
namespace ProtoForge.Document

/-- A value read from a document, or the fault of the document. -/
abbrev Reading (α : Type) := Except ReadFault α

/-- How plain values are read. -/
structure Dialect where
  describe : Tree → String
  truth : Tree → Reading Bool
  whole : (type : String) → (size : Nat) → Tree → Reading Nat
  text : (expected : String) → Tree → Reading String
  allowsMore : Bool

/-- A value as faults name it; `float` gives the text of a number with a point, and
`nothing` the name of a missing value. -/
def describeWith (nothing : String) (float : Float → String) : Tree → String
  | .scalar _ .null => nothing
  | .scalar _ (.bool b) => "boolean `" ++ toString b ++ "`"
  | .scalar _ (.int n) => "integer `" ++ toString n ++ "`"
  | .scalar _ (.float x) => "floating point `" ++ float x ++ "`"
  | .scalar _ (.text s) => "string " ++ Text.quoted s
  | .array _ _ => "sequence"
  | .table _ _ => "map"

namespace Strict

/-- A value as faults name it. -/
def describe : Tree → String := describeWith "null" Decimal.compactText

/-- The fault of a value of the wrong kind. -/
def mismatch {α : Type} (t : Tree) (expected : String) : Reading α :=
  .error (.shape (describe t) expected)

/-- A truth value. -/
def truth : Tree → Reading Bool
  | .scalar _ (.bool b) => .ok b
  | t => mismatch t "a boolean"

/-- A number below a bound. -/
def whole (type : String) (size : Nat) : Tree → Reading Nat
  | .scalar o (.int n) =>
      if 0 ≤ n ∧ n < size then .ok n.toNat
      else .error (.range (describe (.scalar o (.int n))) type)
  | t => mismatch t type

/-- A text. -/
def text (expected : String) : Tree → Reading String
  | .scalar _ (.text s) => .ok s
  | t => mismatch t expected

end Strict

/-- The dialect that takes each value for what it is. -/
def Dialect.strict : Dialect where
  describe := Strict.describe
  truth := Strict.truth
  whole := Strict.whole
  text := Strict.text
  allowsMore := false

namespace Lenient

/-- The fault of a value that cannot be converted. -/
def inconvertible {α : Type} (t : Tree) (found expected : String) : Reading α :=
  .error (.conversion found expected [] t.origin)

/-- A value as faults of conversions name it. -/
def describe : Tree → String
  | .scalar _ (.int n) => "64-bit integer `" ++ toString n ++ "`"
  | t => describeWith "unit value" Decimal.text t

/-- A truth value; numbers other than zero count as true. -/
def truth (t : Tree) : Reading Bool :=
  match t with
  | .scalar _ (.bool b) => .ok b
  | .scalar _ (.int n) => .ok (n ≠ 0)
  | .scalar _ (.float x) => .ok (x != 0)
  | .scalar o (.text s) =>
      let word := Text.lowerCase s
      if ["1", "true", "on", "yes"].contains word then .ok true
      else if ["0", "false", "off", "no"].contains word then .ok false
      else inconvertible (.scalar o (.text word)) ("string " ++ Text.quoted word) "a boolean"
  | _ => inconvertible t (describe t) "a boolean"

/-- The number that a text spells. -/
def wholeOfText? (s : String) : Option Nat :=
  let word := Text.lowerCase s
  if ["true", "on", "yes"].contains word then some 1
  else if ["false", "off", "no"].contains word then some 0
  else
    let digits :=
      match s.toList with
      | '+' :: ds => ds
      | ds => ds
    let n : Nat := digits.foldl (fun n c => 10 * n + (c.toNat - 48)) 0
    if digits.isEmpty || !digits.all Char.isDigit || Width.size 64 ≤ n then none else some n

/-- A number of 64 bits that is not negative; numbers with a point are rounded. -/
def wide (t : Tree) : Reading Nat :=
  match t with
  | .scalar _ (.bool b) => .ok (if b then 1 else 0)
  | .scalar _ (.int n) =>
      if 0 ≤ n then .ok n.toNat
      else inconvertible t (describe t) "an unsigned 64 bit or less integer"
  | .scalar _ (.float x) => .ok x.round.toUInt64.toNat
  | .scalar _ (.text s) =>
      match wholeOfText? s with
      | some n => .ok n
      | none => inconvertible t (describe t) "an integer"
  | _ => inconvertible t (describe t) "an integer"

/-- A number below a bound. One of 64 bits that only the bound rules out is named by its
value, without its origin. -/
def whole (_type : String) (size : Nat) (t : Tree) : Reading Nat := do
  let n ← wide t
  if n < size then pure n
  else
    throw (.conversion ("64-bit unsigned integer `" ++ toString n ++ "`")
      "an unsigned 32 bit integer" [] none)

/-- A text; plain values stand for their spelling. -/
def text (_expected : String) (t : Tree) : Reading String :=
  match t with
  | .scalar _ (.bool b) => .ok (toString b)
  | .scalar _ (.int n) => .ok (toString n)
  | .scalar _ (.float x) => .ok (Decimal.text x)
  | .scalar _ (.text s) => .ok s
  | _ => inconvertible t (describe t) "a string"

end Lenient

/-- The dialect that converts between plain values. -/
def Dialect.lenient : Dialect where
  describe := describeWith "unit value" Decimal.pointedText
  truth := Lenient.truth
  whole := Lenient.whole
  text := Lenient.text
  allowsMore := true

/-- What a part of a value reads as, where faults know of the part. -/
def within {α : Type} (step : KeyStep) (r : Reading α) : Reading α := r.mapError (·.under step)

/-- A value that may be missing. -/
def optional {α : Type} (read : Tree → Reading α) : Tree → Reading (Option α)
  | .scalar _ .null => .ok none
  | t => (read t).map some

namespace Dialect

variable {α : Type} (d : Dialect)

/-- The fault of a value of the wrong kind. -/
def mismatch (t : Tree) (expected : String) : Reading α := .error (.shape (d.describe t) expected)

/-- A path. -/
def path (t : Tree) : Reading String := d.text "path string" t

/-- The items of an array from a position on. -/
def itemsFrom (read : Tree → Reading α) : (position : Nat) → List Tree → Reading (List α)
  | _, [] => .ok []
  | position, t :: rest => do
      let x ← within (.index position) (read t)
      let xs ← itemsFrom read (position + 1) rest
      pure (x :: xs)

/-- An array. -/
def list (read : Tree → Reading α) : Tree → Reading (List α)
  | .array _ ts => itemsFrom read 0 ts
  | t => d.mismatch t "a sequence"

/-- A table with free keys. -/
def map (read : Tree → Reading α) : Tree → Reading (OrderedMap α)
  | .table _ es =>
      (OrderedMap.ofList es).mapM fun e => do
        let x ← within (.key e.1) (read e.2)
        pure (e.1, x)
  | t => d.mismatch t "a map"

end Dialect

/-- A field of a record: how its value is read into the record. -/
structure Slot (α : Type) where
  name : String
  read : Tree → α → Reading α
  required : Bool := false

/-- A kind of records: its name and its fields in order. -/
structure RecordShape (α : Type) where
  name : String
  slots : List (Slot α)

namespace RecordShape

variable {α : Type} (s : RecordShape α)

/-- Reads the entries of a table into a record; unknown keys are passed over. -/
def readEntries : α → OrderedMap Tree → Reading α
  | x, [] => .ok x
  | x, (k, t) :: rest => do
      match s.slots.find? (·.name = k) with
      | some slot =>
          let x ← within (.key k) (slot.read t x)
          readEntries x rest
      | none => readEntries x rest

/-- Reads items into a record, one for each of some slots. -/
def readItems : (position : Nat) → α → List (Slot α) → List Tree → Reading α
  | position, x, slot :: slots, t :: rest => do
      let x ← within (.index position) (slot.read t x)
      readItems (position + 1) x slots rest
  | position, x, slot :: slots, [] =>
      if slot.required then
        let count := s.slots.length
        .error (.length position
          ("struct " ++ s.name ++ s!" with {count} element" ++ if count = 1 then "" else "s"))
      else readItems position x slots []
  | _, x, [], _ => .ok x

/-- A record; fields that are not given keep the value of `x`. -/
def read (d : Dialect) (x : α) : Tree → Reading α
  | .table _ es => do
      let r ← s.readEntries x (OrderedMap.ofList es)
      match s.slots.find? fun slot => slot.required && !es.any (·.1 == slot.name) with
      | some slot => throw (.missingField slot.name)
      | none => pure r
  | .array _ ts => do
      let r ← s.readItems 0 x s.slots ts
      if s.slots.length < ts.length && !d.allowsMore then
        throw (.length ts.length "fewer elements in array")
      pure r
  | t => d.mismatch t ("struct " ++ s.name)

end RecordShape

end ProtoForge.Document
