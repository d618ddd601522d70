import ProtoForge.Bytes
import ProtoForge.Decimal.Shortest
import ProtoForge.Document.Json.Number

/-!
# JSON

Reading goes in two passes: characters to tokens, tokens to a value. Each is a
fold with a small state, so that neither needs a bound. A value may nest at
most 127 deep.
-/
namespace ProtoForge.Document.Json

/-- A token; a text or a plain word is already a value. -/
inductive Token where
  | value (v : Value)
  | openArray
  | closeArray
  | openTable
  | closeTable
  | comma
  | colon
  deriving Inhabited

/-- What the characters read so far belong to. -/
inductive LexMode where
  | between
  | word (rev : List Char)
  | text (rev : List Char) (high : Option Nat)
  | escape (rev : List Char) (high : Option Nat)
  | code (rev : List Char) (high : Option Nat) (digits : List Nat)

/-- The tokens so far, last first, and the current mode. -/
structure LexState where
  tokens : List Token
  mode : LexMode

/-- The value of a plain word. -/
def word? (cs : List Char) : Option Value :=
  match String.ofList cs with
  | "null" => some .null
  | "true" => some (.bool true)
  | "false" => some (.bool false)
  | _ => number? cs

/-- The token of a punctuation mark. -/
def mark? : Char → Option Token
  | '[' => some .openArray
  | ']' => some .closeArray
  | '\x7b' => some .openTable
  | '\x7d' => some .closeTable
  | ',' => some .comma
  | ':' => some .colon
  | _ => none

/-- The blanks between tokens. -/
def isSpace (c : Char) : Bool := c == ' ' || c == '\t' || c == '\n' || c == '\r'

/-- The character of a short escape. -/
def shortEscape? : Char → Option Char
  | '"' => some '"'
  | '\\' => some '\\'
  | '/' => some '/'
  | 'b' => some '\x08'
  | 'f' => some '\x0c'
  | 'n' => some '\n'
  | 'r' => some '\r'
  | 't' => some '\t'
  | _ => none

/-- Takes a character between tokens. -/
def lexBetween (tokens : List Token) (c : Char) : LexState :=
  if isSpace c then ⟨tokens, .between⟩
  else if c = '"' then ⟨tokens, .text [] none⟩
  else
    match mark? c with
    | some t => ⟨t :: tokens, .between⟩
    | none => ⟨tokens, .word [c]⟩

/-- Takes a code unit of an escape: halves of a pair must follow each other. -/
def lexUnit (tokens : List Token) (rev : List Char) (high : Option Nat) (unit : Nat) :
    Option LexState :=
  match high with
  | some h =>
      if 0xDC00 ≤ unit ∧ unit < 0xE000 then
        let c := Char.ofNat (0x10000 + (h - 0xD800) * 0x400 + (unit - 0xDC00))
        some ⟨tokens, .text (c :: rev) none⟩
      else none
  | none =>
      if 0xD800 ≤ unit ∧ unit < 0xDC00 then some ⟨tokens, .text rev (some unit)⟩
      else if 0xDC00 ≤ unit ∧ unit < 0xE000 then none
      else some ⟨tokens, .text (Char.ofNat unit :: rev) none⟩

/-- Takes one character. -/
def lexChar (s : LexState) (c : Char) : Option LexState :=
  match s.mode with
  | .between => some (lexBetween s.tokens c)
  | .word rev =>
      if isSpace c || c = '"' || (mark? c).isSome then do
        let v ← word? rev.reverse
        pure (lexBetween (.value v :: s.tokens) c)
      else some ⟨s.tokens, .word (c :: rev)⟩
  | .text rev high =>
      if c = '\\' then some ⟨s.tokens, .escape rev high⟩
      else if high.isSome || c.toNat < 32 then none
      else if c = '"' then some ⟨.value (.text (String.ofList rev.reverse)) :: s.tokens, .between⟩
      else some ⟨s.tokens, .text (c :: rev) none⟩
  | .escape rev high =>
      if c = 'u' then some ⟨s.tokens, .code rev high []⟩
      else if high.isSome then none
      else do
        let e ← shortEscape? c
        pure ⟨s.tokens, .text (e :: rev) none⟩
  | .code rev high digits => do
      let d ← Bytes.hexValue? c
      match digits with
      | [x, y, z] => lexUnit s.tokens rev high (((x * 16 + y) * 16 + z) * 16 + d)
      | _ => pure ⟨s.tokens, .code rev high (digits ++ [d])⟩

/-- The tokens of a text. -/
def tokens? (s : String) : Option (List Token) := do
  let final ← s.toList.foldlM lexChar ⟨[], .between⟩
  match final.mode with
  | .between => pure final.tokens.reverse
  | .word rev =>
      let v ← word? rev.reverse
      pure (.value v :: final.tokens).reverse
  | _ => none

/-- A container whose end was not read yet; its items come last first. -/
inductive Frame where
  | array (rev : List Value)
  | table (rev : List (String × Value)) (key : String)

/-- What may come next. -/
inductive Mode where
  | value
  | firstItem
  | firstKey
  | key
  | colon (key : String)
  | after (v : Value)

/-- The open containers, innermost first, and what may come next. -/
structure ParseState where
  frames : List Frame
  mode : Mode

/-- Opens a container. -/
def ParseState.enter (s : ParseState) (f : Frame) (m : Mode) : Option ParseState :=
  if s.frames.length < 127 then some ⟨f :: s.frames, m⟩ else none

/-- Takes one token. -/
def parseToken (s : ParseState) (t : Token) : Option ParseState :=
  match s.mode, t, s.frames with
  | .value, .value v, frames => some ⟨frames, .after v⟩
  | .firstItem, .value v, frames => some ⟨frames, .after v⟩
  | .value, .openArray, _ => s.enter (.array []) .firstItem
  | .firstItem, .openArray, _ => s.enter (.array []) .firstItem
  | .value, .openTable, _ => s.enter (.table [] "") .firstKey
  | .firstItem, .openTable, _ => s.enter (.table [] "") .firstKey
  | .firstItem, .closeArray, _ :: frames => some ⟨frames, .after (.array [])⟩
  | .firstKey, .closeTable, _ :: frames => some ⟨frames, .after (.table [])⟩
  | .firstKey, .value (.text k), frames => some ⟨frames, .colon k⟩
  | .key, .value (.text k), frames => some ⟨frames, .colon k⟩
  | .colon k, .colon, .table rev _ :: frames => some ⟨.table rev k :: frames, .value⟩
  | .after v, .comma, .array rev :: frames => some ⟨.array (v :: rev) :: frames, .value⟩
  | .after v, .closeArray, .array rev :: frames =>
      some ⟨frames, .after (.array (v :: rev).reverse)⟩
  | .after v, .comma, .table rev k :: frames =>
      some ⟨.table ((k, v) :: rev) k :: frames, .key⟩
  | .after v, .closeTable, .table rev k :: frames =>
      some ⟨frames, .after (.ofEntries ((k, v) :: rev).reverse)⟩
  | _, _, _ => none

/-- The value of a text. -/
def parse? (s : String) : Option Value := do
  let tokens ← tokens? s
  let final ← tokens.foldlM parseToken ⟨[], .value⟩
  match final.mode, final.frames with
  | .after v, [] => some v
  | _, _ => none

/-- The form of a character inside a text. -/
def escapeChar (c : Char) : List Char :=
  if c = '"' then ['\\', '"']
  else if c = '\\' then ['\\', '\\']
  else if c = '\n' then ['\\', 'n']
  else if c = '\r' then ['\\', 'r']
  else if c = '\t' then ['\\', 't']
  else if c = '\x08' then ['\\', 'b']
  else if c = '\x0c' then ['\\', 'f']
  else if c.toNat < 32 then
    ['\\', 'u', '0', '0', Bytes.hexDigit (c.toNat / 16), Bytes.hexDigit (c.toNat % 16)]
  else [c]

/-- A text in quotes. -/
def quote (s : String) : String :=
  String.ofList ('"' :: s.toList.flatMap escapeChar ++ ['"'])

/-- How the parts of a container are set apart: after the opening mark, between
parts, before the closing mark, and after a key. -/
structure Layout where
  line : Nat → String
  separator : String
  colon : String

/-- All on one line. -/
def Layout.compact : Layout := ⟨fun _ => "", ",", ":"⟩

/-- One part a line, two blanks deeper for each container. -/
def Layout.pretty : Layout :=
  ⟨fun depth => "\n" ++ String.ofList (List.replicate (2 * depth) ' '), ",", ": "⟩

/-- The parts of a container between its marks. -/
def Layout.enclose (l : Layout) (depth : Nat) (opening closing : String) (parts : List String) :
    String :=
  if parts.isEmpty then opening ++ closing
  else
    opening ++ l.line (depth + 1) ++ (l.separator ++ l.line (depth + 1)).intercalate parts ++
      l.line depth ++ closing

mutual

/-- The text of a value at a depth. -/
def renderAt (l : Layout) (depth : Nat) : Value → String
  | .null => "null"
  | .bool b => if b then "true" else "false"
  | .int n => toString n
  | .float x => Decimal.pointedText x
  | .text s => quote s
  | .array vs => l.enclose depth "[" "]" (renderItems l (depth + 1) vs)
  | .table es => l.enclose depth "\x7b" "\x7d" (renderEntries l (depth + 1) es)

/-- The texts of the items of an array. -/
def renderItems (l : Layout) (depth : Nat) : List Value → List String
  | [] => []
  | v :: vs => renderAt l depth v :: renderItems l depth vs

/-- The texts of the entries of a table. -/
def renderEntries (l : Layout) (depth : Nat) : List (String × Value) → List String
  | [] => []
  | (k, v) :: es => (quote k ++ l.colon ++ renderAt l depth v) :: renderEntries l depth es

end

/-- A value on one line. -/
def render (v : Value) : String := renderAt .compact 0 v

/-- A value over several lines. -/
def renderPretty (v : Value) : String := renderAt .pretty 0 v

end ProtoForge.Document.Json
