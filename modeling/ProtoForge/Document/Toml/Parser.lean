import ProtoForge.Document.Toml.Scanner

/-!
# TOML documents

A document is a list of statements, one a line: headers, which choose the
table that the following pairs go to, and pairs. A table may be named by one
header only; pairs may not set a key twice.
-/
namespace ProtoForge.Document.Toml

/-- One line of a document. -/
inductive Statement where
  | pair (key : List String) (value : Value)
  | header (path : List String)
  | arrayHeader (path : List String)
  deriving Inhabited

/-- A document as far as it was read, and the table that pairs go to. -/
structure Draft where
  entries : Entries := []
  current : List String := []

/-- Names a table by a header. -/
def openTable (name : String) : Edit := fun _ es =>
  match es.lookup name with
  | none => some (es ++ [(name, .table false false [])])
  | some (.table true false sub) => some (setKey es name (.table false false sub))
  | some _ => none

/-- Adds a table to a list of tables. -/
def openItem (name : String) : Edit := fun _ es =>
  match es.lookup name with
  | none => some (es ++ [(name, .tables [[]])])
  | some (.tables items) => some (setKey es name (.tables (items ++ [[]])))
  | some _ => none

/-- Makes the change of a header at the table that its path names. -/
def enter (change : String → Edit) (path : List String) (d : Draft) : Option Draft :=
  match path.reverse with
  | last :: before => do
      let entries ← editUnder false before.reverse (change last) false d.entries
      pure ⟨entries, path⟩
  | [] => none

/-- Applies a statement. -/
def Draft.apply (d : Draft) : Statement → Option Draft
  | .header path => enter openTable path d
  | .arrayHeader path => enter openItem path d
  | .pair key value => do
      let entries ← editUnder false d.current (addPair key value) false d.entries
      pure { d with entries := entries }

namespace Scanner

/-- Takes the end of a statement. -/
def lineEnd : Scanner Unit := do
  blanks
  comment
  if 0 < (← left) then newline

/-- The path of a header, after its opening mark. -/
def headerPath (closing : List Char) : Scanner (List String) := do
  blanks
  let path ← key
  blanks
  literal closing
  pure path

/-- A statement. -/
def statement : Scanner Statement := do
  if ← comesNext ['[', '['] then
    literal ['[', '[']
    pure (.arrayHeader (← headerPath [']', ']']))
  else if ← comesNext ['['] then
    literal ['[']
    pure (.header (← headerPath [']']))
  else
    let k ← key
    blanks
    literal ['=']
    blanks
    let v ← scanTopValue
    pure (.pair k v)

/-- The statements of a document. -/
def statements : (bound : Nat) → Scanner (List Statement)
  | 0 => failure
  | bound + 1 => do
      space (← left)
      if (← left) = 0 then pure []
      else
        let s ← statement
        lineEnd
        let rest ← statements bound
        pure (s :: rest)

end Scanner

/-- A document without the mark at its start that some editors write. -/
def withoutMark (cs : List Char) : List Char :=
  match cs with
  | '\ufeff' :: rest => rest
  | _ => cs

mutual

/-- A value in which tables that are marked as dates have become dates. A mark has to come
first in its table, and the date has to be right and spelled as a text. -/
def withMoments? : Value → Option Value
  | .table es => do
      match es with
      | (k, v) :: _ =>
          if k = momentKey then
            match v with
            | .text s => (moment? .loose s.toList).map .text
            | _ => none
          else pure (.table (← entriesWithMoments? es))
      | [] => pure (.table [])
  | .array vs => do pure (.array (← itemsWithMoments? vs))
  | v => some v

/-- The items of an array with their dates. -/
def itemsWithMoments? : List Value → Option (List Value)
  | [] => some []
  | v :: vs => do pure ((← withMoments? v) :: (← itemsWithMoments? vs))

/-- The entries of a table with their dates. -/
def entriesWithMoments? : List (String × Value) → Option (List (String × Value))
  | [] => some []
  | (k, v) :: es => do pure ((k, ← withMoments? v) :: (← entriesWithMoments? es))

end

/-- The table of a document. -/
def parse? (s : String) : Option Value := do
  let cs := withoutMark s.toList
  let (found, rest) ← Scanner.statements (cs.length + 1) cs
  if !rest.isEmpty then none
  let draft ← found.foldlM Draft.apply {}
  withMoments? (.table (entriesValue draft.entries))

end ProtoForge.Document.Toml
