import ProtoForge.Document.Value
import ProtoForge.Text.LowerCase

/-!
# Trees

Values of documents that remember where they came from, and the merging of
several documents into one. Tables are merged key by key; all else is replaced.
Keys that are set do not depend on case.
-/
namespace ProtoForge.Document

/-- A value without parts. -/
inductive Scalar where
  | null
  | bool (b : Bool)
  | int (n : Int)
  | float (x : Float)
  | text (s : String)
  deriving Inhabited

/-- A value and its origin, as far as it is known. -/
inductive Tree where
  | scalar (origin : Option String) (s : Scalar)
  | array (origin : Option String) (items : List Tree)
  | table (origin : Option String) (entries : List (String × Tree))
  deriving Inhabited

namespace Tree

/-- A missing value. -/
def nothing : Tree := scalar none .null

mutual

/-- The tree of a value. -/
def ofValue (number : Int → Scalar) (origin : Option String) : Value → Tree
  | .null => scalar origin .null
  | .bool b => scalar origin (.bool b)
  | .int n => scalar origin (number n)
  | .float x => scalar origin (.float x)
  | .text s => scalar origin (.text s)
  | .array vs => array origin (ofItems number origin vs)
  | .table es => table origin (ofEntries number origin es)

/-- The trees of the items of an array. -/
def ofItems (number : Int → Scalar) (origin : Option String) : List Value → List Tree
  | [] => []
  | v :: vs => ofValue number origin v :: ofItems number origin vs

/-- The trees of the entries of a table. -/
def ofEntries (number : Int → Scalar) (origin : Option String) :
    List (String × Value) → List (String × Tree)
  | [] => []
  | (k, v) :: es => (k, ofValue number origin v) :: ofEntries number origin es

end

/-- The entries of a table; other values have none. -/
def entries : Tree → List (String × Tree)
  | table _ es => es
  | _ => []

/-- The items of an array; other values have none. -/
def items : Tree → List Tree
  | array _ vs => vs
  | _ => []

/-- Where a value came from. -/
def origin : Tree → Option String
  | scalar o _ => o
  | array o _ => o
  | table o _ => o

/-- The origin of a table. A table made in place of another value has none. -/
def tableOrigin : Tree → Option String
  | table o _ => o
  | _ => none

/-- The origin of an array. An array made in place of another value has none. -/
def arrayOrigin : Tree → Option String
  | array o _ => o
  | _ => none

/-- Sets an entry; a value that is no table becomes one. -/
def setEntry (t : Tree) (k : String) (v : Tree) : Tree := table t.tableOrigin (setKey t.entries k v)

mutual

/-- Merges a value into the entry of a key. -/
def merge (t : Tree) (key : String) : Tree → Tree
  | table _ incoming =>
      let k := Text.lowerCase key
      t.setEntry k (mergeAll ((t.entries.lookup k).getD (table none [])) incoming)
  | scalar o s => t.setEntry (Text.lowerCase key) (scalar o s)
  | array o vs => t.setEntry (Text.lowerCase key) (array o vs)

/-- Merges entries one by one. -/
def mergeAll (t : Tree) : List (String × Tree) → Tree
  | [] => t
  | (k, v) :: rest => mergeAll (merge t k v) rest

end

/-- A step to a part of a value; an index below zero counts from the end. -/
inductive Step where
  | key (s : String)
  | index (i : Int)
  deriving DecidableEq, Repr

/-- The most items that an array is lengthened to. -/
def maxItems : Nat := 1000000000

/-- The items of an array, lengthened by missing values until an index is in
range, and its position then. An index before the first item is never in range. -/
def reachIndex? (vs : List Tree) (i : Int) : Option (List Tree × Nat) :=
  if 0 ≤ i then
    if maxItems ≤ i.toNat then none
    else some (vs ++ List.replicate (i.toNat + 1 - vs.length) nothing, i.toNat)
  else
    let back := (-i).toNat
    if vs.length < back then none else some (vs, vs.length - back)

/-- Sets the value at the end of a path; what lies on the way becomes a table or
array where it is not. There is no result if an index cannot be reached. -/
def setAt? : (path : List Step) → Tree → (v : Tree) → Option Tree
  | [], _, v => some v
  | [.key k], t, v => some (t.merge k v)
  | .key k :: rest, t, v => do
      let k := Text.lowerCase k
      let sub ← setAt? rest ((t.entries.lookup k).getD nothing) v
      pure (t.setEntry k sub)
  | .index i :: rest, t, v => do
      let (vs, position) ← reachIndex? t.items i
      let item ← setAt? rest (vs.getD position nothing) v
      pure (array t.arrayOrigin (vs.set position item))

end Tree

end ProtoForge.Document
