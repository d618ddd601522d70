import ProtoForge.Document.Toml.Scanner

/-!
# TOML output

A table is written as its plain pairs under a header with its path, followed by
the tables in it; a table that has tables alone gets no header. The style of a
text is the plainest that can hold it.
-/
namespace ProtoForge.Document.Toml

/-- How a text is written. -/
inductive TextStyle where
  | basic
  | literal
  | basicBlock
  | literalBlock
  deriving DecidableEq, Repr

/-- Whether a character can only be written as an escape. -/
def needsEscape (c : Char) : Bool := (c.toNat < 32 && c ≠ '\t' && c ≠ '\n') || c.toNat = 127

/-- The length of the longest run of a character, `run` of which came just before. -/
def longestRun (c : Char) : (run : Nat) → List Char → Nat
  | run, [] => run
  | run, d :: rest =>
      if d = c then longestRun c (run + 1) rest else max run (longestRun c 0 rest)

/-- Whether quotes around a text are enough. -/
def isPlain (cs : List Char) : Bool :=
  !cs.any needsEscape && !cs.contains '\\' && !cs.contains '"' && !cs.contains '\n'

/-- Whether a text can stand between single quotes as it is. -/
def isLiteral (cs : List Char) : Bool :=
  !cs.any needsEscape && !cs.contains '\'' && !cs.contains '\n'

/-- The style of a text on one line. -/
def lineStyle (cs : List Char) : TextStyle :=
  if isPlain cs then .basic else if isLiteral cs then .literal else .basic

/-- The style of a text. -/
def textStyle (cs : List Char) : TextStyle :=
  if isPlain cs || isLiteral cs then lineStyle cs
  else if !cs.any needsEscape && !cs.contains '\\' && longestRun '"' 0 cs ≤ 2 then .basicBlock
  else if !cs.any needsEscape && longestRun '\'' 0 cs ≤ 2 then .literalBlock
  else if cs.contains '\n' then .basicBlock
  else .basic

/-- A character of a basic text; a line feed stays as it is in a block. -/
def escapeChar (block : Bool) (c : Char) : List Char :=
  if c = '\n' && block then ['\n']
  else if c = '\x08' then ['\\', 'b']
  else if c = '\t' then ['\\', 't']
  else if c = '\n' then ['\\', 'n']
  else if c = '\x0c' then ['\\', 'f']
  else if c = '\r' then ['\\', 'r']
  else if c = '\\' then ['\\', '\\']
  else if c.toNat < 32 || c.toNat = 127 then
    ['\\', 'u', '0', '0'] ++ [c.toNat / 16, c.toNat % 16].map fun d => (Bytes.hexDigit d).toUpper
  else [c]

/-- The characters of a basic text; in a block up to two quotes may follow each other. -/
def escapeBasic (block : Bool) : (quotes : Nat) → List Char → List Char
  | _, [] => []
  | quotes, c :: rest =>
      if c = '"' then
        if block && quotes < 2 then '"' :: escapeBasic block (quotes + 1) rest
        else '\\' :: '"' :: escapeBasic block 0 rest
      else escapeChar block c ++ escapeBasic block 0 rest

/-- A text in a style. -/
def styled (style : TextStyle) (cs : List Char) : String :=
  let opening := if cs.contains '\n' then "\n" else ""
  match style with
  | .basic => "\"" ++ String.ofList (escapeBasic false 0 cs) ++ "\""
  | .literal => "'" ++ String.ofList cs ++ "'"
  | .basicBlock => "\"\"\"" ++ opening ++ String.ofList (escapeBasic true 0 cs) ++ "\"\"\""
  | .literalBlock => "'''" ++ opening ++ String.ofList cs ++ "'''"

/-- A text. -/
def printText (s : String) : String := styled (textStyle s.toList) s.toList

/-- A part of a key. -/
def printKey (s : String) : String :=
  let cs := s.toList
  if !cs.isEmpty && cs.all Scanner.isBare then s else styled (lineStyle cs) cs

/-- A list in brackets; from two items on each has a line of its own. -/
def printList (items : List String) : String :=
  match items with
  | [] => "[]"
  | [item] => "[" ++ item ++ "]"
  | _ => "[" ++ String.join (items.map fun i => "\n    " ++ i ++ ",") ++ "\n]"

mutual

/-- A value on the right of a pair. -/
def printValue : Value → String
  | .null => ""
  | .bool b => if b then "true" else "false"
  | .int n => toString n
  | .float x => if x.isNaN then "nan" else Decimal.pointedText x
  | .text s => printText s
  | .array vs => printList (printItems vs)
  | .table es =>
      if es.isEmpty then "\x7b\x7d" else "\x7b " ++ ", ".intercalate (printPairs es) ++ " \x7d"

/-- The items of an array. -/
def printItems : List Value → List String
  | [] => []
  | v :: vs => printValue v :: printItems vs

/-- The pairs of an inline table. -/
def printPairs : List (String × Value) → List String
  | [] => []
  | (k, v) :: es => (printKey k ++ " = " ++ printValue v) :: printPairs es

end

/-- Whether a value is written as a pair of the table that holds it. -/
def isPair : Value → Bool
  | .null => false
  | .table _ => false
  | _ => true

/-- The lines of a table: its header, if it needs one, and its pairs. -/
def printOwn (path : List String) (es : List (String × Value)) : String :=
  let pairs := es.filter fun e => isPair e.2
  let header :=
    if path.isEmpty || (pairs.isEmpty && !es.isEmpty) then ""
    else "[" ++ ".".intercalate (path.map printKey) ++ "]\n"
  header ++ String.join (pairs.map fun e => printKey e.1 ++ " = " ++ printValue e.2 ++ "\n")

mutual

/-- The parts of a table, its own lines first. -/
def printParts (path : List String) : Value → List String
  | .table es => printOwn path es :: printNested path es
  | _ => []

/-- The parts of the tables in a table. -/
def printNested (path : List String) : List (String × Value) → List String
  | [] => []
  | (k, v) :: es => printParts (path ++ [k]) v ++ printNested path es

end

/-- The document of a table. -/
def render (v : Value) : String := "\n".intercalate ((printParts [] v).filter (· ≠ ""))

mutual

/-- Whether all whole numbers of a value are in range. -/
def inRange : Value → Bool
  | .int n => Width.FitsSigned 64 n
  | .array vs => itemsInRange vs
  | .table es => entriesInRange es
  | _ => true

/-- Whether all whole numbers of several values are in range. -/
def itemsInRange : List Value → Bool
  | [] => true
  | v :: vs => inRange v && itemsInRange vs

/-- Whether all whole numbers of several entries are in range. -/
def entriesInRange : List (String × Value) → Bool
  | [] => true
  | (_, v) :: es => inRange v && entriesInRange es

end

/-- Why a table has no document. -/
inductive PrintFault where
  | outOfRange
  deriving DecidableEq, Repr

/-- The wording of a fault. -/
def PrintFault.message : PrintFault → String
  | outOfRange => "out-of-range value for u64 type"

/-- The document of a table, if all its numbers are in range. -/
def print (v : Value) : Except PrintFault String :=
  if inRange v then .ok (render v) else .error .outOfRange

end ProtoForge.Document.Toml
