import ProtoForge.Document.Tree
import ProtoForge.Width

/-!
# Key paths

Keys such as `generators.guests[0].image` as paths into a document. A key that
is no path stands for itself.
-/
namespace ProtoForge.Document

/-- Whether a character may stand in a name of a path. -/
def isPathChar (c : Char) : Bool := c.isAlphanum || c == ' ' || c == '_' || c == '-'

/-- A name at the front. -/
def pathName? (cs : List Char) : Option (String × List Char) :=
  let name := cs.takeWhile isPathChar
  if name.isEmpty then none else some (String.ofList name, cs.dropWhile isPathChar)

/-- The blanks around an index. -/
def isPathBlank (c : Char) : Bool := c == ' ' || c == '\t'

/-- The number of digits with its sign, if it fits 64 bits. -/
def pathIndex? (negative : Bool) (digits : List Char) : Option Int :=
  let n : Nat := digits.foldl (fun n c => 10 * n + (c.toNat - 48)) 0
  let i := if negative then -(n : Int) else n
  if digits.isEmpty || !Width.FitsSigned 64 i then none else some i

/-- An index and its closing bracket at the front. -/
def bracketed? (cs : List Char) : Option (Int × List Char) :=
  let cs := cs.dropWhile isPathBlank
  let (negative, cs) :=
    match cs with
    | '-' :: rest => (true, rest)
    | _ => (false, cs)
  match (cs.dropWhile Char.isDigit).dropWhile isPathBlank with
  | ']' :: rest => (pathIndex? negative (cs.takeWhile Char.isDigit)).map fun i => (i, rest)
  | _ => none

/-- The steps after the first name, of which there are fewer than `bound`. -/
def moreSteps? : (bound : Nat) → List Char → Option (List Tree.Step)
  | _, [] => some []
  | 0, _ => none
  | bound + 1, '.' :: cs => do
      let (name, rest) ← pathName? cs
      let steps ← moreSteps? bound rest
      pure (.key name :: steps)
  | bound + 1, '[' :: cs => do
      let (i, rest) ← bracketed? cs
      let steps ← moreSteps? bound rest
      pure (.index i :: steps)
  | _, _ => none

/-- The path that a key stands for. -/
def keyPath (key : String) : List Tree.Step :=
  let steps? := do
    let (name, rest) ← pathName? key.toList
    let steps ← moreSteps? rest.length rest
    pure (Tree.Step.key name :: steps)
  steps?.getD [.key key]

end ProtoForge.Document
