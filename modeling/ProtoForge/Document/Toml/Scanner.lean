import ProtoForge.Bytes
import ProtoForge.Decimal.Shortest
import ProtoForge.Document.Value

/-!
# TOML values

Keys, texts, numbers, dates, arrays and inline tables. A scanner takes
characters from the front of a text. Loops take a bound that is the length of
what is left, since each round takes at least one character.
-/
namespace ProtoForge.Document.Toml

/-- Takes a value from the front of a text. -/
abbrev Scanner := StateT (List Char) Option

/-- How deep values and keys must not nest. -/
def maxNesting : Nat := 80

namespace Scanner

/-- The next character, if any is left. -/
def peek : Scanner (Option Char) := do pure (← get).head?

/-- Takes the next character. -/
def next : Scanner Char := fun cs =>
  match cs with
  | c :: rest => some (c, rest)
  | [] => none

/-- Takes given characters. -/
def literal (expected : List Char) : Scanner Unit := fun cs =>
  if expected.isPrefixOf cs then some ((), cs.drop expected.length) else none

/-- Whether given characters come next. -/
def comesNext (expected : List Char) : Scanner Bool := do pure (expected.isPrefixOf (← get))

/-- Takes characters as long as they pass a test. -/
def takeWhile (test : Char → Bool) : Scanner (List Char) := fun cs =>
  some (cs.takeWhile test, cs.dropWhile test)

/-- Takes blanks. -/
def blanks : Scanner Unit := do
  let _ ← takeWhile fun c => c == ' ' || c == '\t'

/-- Whether a character may stand in a text or comment. -/
def isAllowed (c : Char) : Bool := c == '\t' || (32 ≤ c.toNat && c.toNat ≠ 127)

/-- Takes a comment, if one comes next. -/
def comment : Scanner Unit := do
  if (← peek) = some '#' then
    let _ ← takeWhile fun c => isAllowed c

/-- Takes the end of a line. -/
def newline : Scanner Unit := do
  if ← comesNext ['\r', '\n'] then literal ['\r', '\n'] else literal ['\n']

/-- Whether a line ends here. -/
def atNewline : Scanner Bool := do pure ((← comesNext ['\n']) || (← comesNext ['\r', '\n']))

/-- Takes blanks, comments and ends of lines. -/
def space : (bound : Nat) → Scanner Unit
  | 0 => pure ()
  | bound + 1 => do
      blanks
      comment
      if ← atNewline then
        newline
        space bound

/-- Takes blanks and ends of lines. -/
def lineSpace : (bound : Nat) → Scanner Unit
  | 0 => pure ()
  | bound + 1 => do
      blanks
      if ← atNewline then
        newline
        lineSpace bound

/-- The length of what is left. -/
def left : Scanner Nat := do pure (← get).length

/-- A character from `count` hexadecimal digits. -/
def codePoint (count : Nat) : Scanner Char := do
  let cs ← get
  let digits := cs.take count
  set (cs.drop count)
  if digits.length ≠ count then failure
  match digits.mapM Bytes.hexValue? with
  | some ds =>
      let n := ds.foldl (fun acc d => 16 * acc + d) 0
      if n < 0xD800 ∨ (0xDFFF < n ∧ n < 0x110000) then pure (Char.ofNat n) else failure
  | none => failure

/-- The character of an escape after its backslash. -/
def escape : Scanner Char := do
  match ← next with
  | 'b' => pure '\x08'
  | 't' => pure '\t'
  | 'n' => pure '\n'
  | 'f' => pure '\x0c'
  | 'r' => pure '\r'
  | '"' => pure '"'
  | '\\' => pure '\\'
  | 'u' => codePoint 4
  | 'U' => codePoint 8
  | _ => failure

/-- The rest of a text on one line; a raw one has no escapes. -/
def lineText (mark : Char) (raw : Bool) : (bound : Nat) → Scanner (List Char)
  | 0 => failure
  | bound + 1 => do
      let c ← next
      if c = mark then pure []
      else if c = '\\' && !raw then
        let e ← escape
        let rest ← lineText mark raw bound
        pure (e :: rest)
      else if isAllowed c then
        let rest ← lineText mark raw bound
        pure (c :: rest)
      else failure

/-- Whether a backslash here ends a line that goes on with the next text. -/
def joinsLines : Scanner Bool := do
  let after := (← get).drop 1 |>.dropWhile fun c => c == ' ' || c == '\t'
  pure (['\n'].isPrefixOf after || ['\r', '\n'].isPrefixOf after)

/-- The rest of a text of several lines; up to two marks may come before the end. -/
def blockText (mark : Char) (raw : Bool) : (bound : Nat) → Scanner (List Char)
  | 0 => failure
  | bound + 1 => do
      let marks := (← get).takeWhile (· = mark)
      if 3 ≤ marks.length then
        if 5 < marks.length then failure
        literal marks
        pure (marks.drop 3)
      else if ← atNewline then
        newline
        let rest ← blockText mark raw bound
        pure ('\n' :: rest)
      else
        if !raw && (← peek) = some '\\' then
          if ← joinsLines then
            let _ ← next
            lineSpace (← left)
            blockText mark raw bound
          else
            let _ ← next
            let e ← escape
            let rest ← blockText mark raw bound
            pure (e :: rest)
        else
          let c ← next
          if isAllowed c then
            let rest ← blockText mark raw bound
            pure (c :: rest)
          else failure

/-- A text in quotes on one line. -/
def shortText : Scanner String := do
  let mark ← next
  let cs ← lineText mark (mark == '\'') (← left)
  pure (String.ofList cs)

/-- A text in quotes. -/
def quotedText : Scanner String := do
  let mark ← next
  if ← comesNext [mark, mark] then
    literal [mark, mark]
    if ← atNewline then newline
    let cs ← blockText mark (mark == '\'') ((← left) + 1)
    pure (String.ofList cs)
  else
    let cs ← lineText mark (mark == '\'') (← left)
    pure (String.ofList cs)

/-- Whether a character may stand in a bare key. -/
def isBare (c : Char) : Bool := c.isAlphanum || c == '_' || c == '-'

/-- One part of a key. -/
def keyPart : Scanner String := do
  match ← peek with
  | some '"' => shortText
  | some '\'' => shortText
  | _ =>
      let cs ← takeWhile isBare
      if cs.isEmpty then failure
      pure (String.ofList cs)

/-- The parts of a key after the first. -/
def moreKeyParts : (bound : Nat) → Scanner (List String)
  | 0 => pure []
  | bound + 1 => do
      blanks
      if ← comesNext ['.'] then
        literal ['.']
        blanks
        let k ← keyPart
        let rest ← moreKeyParts bound
        pure (k :: rest)
      else pure []

/-- A key with dots. -/
def key : Scanner (List String) := do
  let k ← keyPart
  let rest ← moreKeyParts (← left)
  if maxNesting ≤ rest.length + 1 then failure
  pure (k :: rest)

end Scanner

/-- The digits of a number whose underscores stand between digits. -/
def plainDigits? (isDigit : Char → Bool) (cs : List Char) : Option (List Char) :=
  let groups := cs.splitOn '_'
  if groups.all fun g => !g.isEmpty && g.all isDigit then some groups.flatten else none

/-- The number of digits in a base. -/
def digitsIn? (base : Nat) (cs : List Char) : Option Nat := do
  let isDigit (c : Char) : Bool := (Bytes.hexValue? c).any (· < base)
  let ds ← plainDigits? isDigit cs
  pure (ds.foldl (fun n c => base * n + (Bytes.hexValue? c).getD 0) 0)

/-- Decimal digits without a superfluous zero in front. -/
def decimal? (cs : List Char) : Option (List Char) := do
  let ds ← plainDigits? Char.isDigit cs
  if ds.head? = some '0' && 1 < ds.length then none else some ds

/-- The sign of a number and the rest. -/
def takeSign : List Char → Option Bool × List Char
  | '+' :: cs => (some false, cs)
  | '-' :: cs => (some true, cs)
  | cs => (none, cs)

/-- A whole number in range. -/
def integerOf? (n : Int) : Option Value :=
  if Width.FitsSigned 64 n then some (.int n) else none

/-- A whole number. -/
def integer? (cs : List Char) : Option Value :=
  match cs with
  | '0' :: 'x' :: ds => do integerOf? (← digitsIn? 16 ds)
  | '0' :: 'o' :: ds => do integerOf? (← digitsIn? 8 ds)
  | '0' :: 'b' :: ds => do integerOf? (← digitsIn? 2 ds)
  | cs => do
      let (sign, ds) := takeSign cs
      let n : Nat := (← decimal? ds).foldl (fun n c => 10 * n + (c.toNat - 48)) 0
      integerOf? (if sign = some true then -(n : Int) else n)

/-- The exponent of a number. -/
def exponentOf? (cs : List Char) : Option Int := do
  let (sign, ds) := takeSign cs
  let n : Nat := (← plainDigits? Char.isDigit ds).foldl (fun n c => 10 * n + (c.toNat - 48)) 0
  pure (if sign = some true then -(n : Int) else n)

/-- A number with a point or an exponent. One that is too large is none, but one below all
numbers counts as infinite. -/
def float? (cs : List Char) : Option Value := do
  let (sign, body) := takeSign cs
  let signed (x : Float) : Value := .float (if sign = some true then -x else x)
  match String.ofList body with
  | "inf" => pure (signed (1.0 / 0.0))
  | "nan" => pure (signed (0.0 / 0.0))
  | _ =>
      let (mantissa, exponentPart) := body.span fun c => c ≠ 'e' && c ≠ 'E'
      let (whole, fractionPart) := mantissa.span (· ≠ '.')
      if exponentPart.isEmpty && fractionPart.isEmpty then none
      let whole ← decimal? whole
      let fraction ← if fractionPart.isEmpty then some []
        else plainDigits? Char.isDigit (fractionPart.drop 1)
      let e ← if exponentPart.isEmpty then some 0 else exponentOf? (exponentPart.drop 1)
      let n := (whole ++ fraction).foldl (fun n c => 10 * n + (c.toNat - 48)) 0
      let x := (Decimal.Scaled.mk n (e - fraction.length)).toFloat
      if x.isInf && sign ≠ some true then none else pure (signed x)

/-- A number of exactly `count` digits at the front. -/
def fixedDigits? (count : Nat) (cs : List Char) : Option (Nat × List Char) :=
  let ds := cs.take count
  if ds.length = count && ds.all Char.isDigit then
    some (ds.foldl (fun n c => 10 * n + (c.toNat - 48)) 0, cs.drop count)
  else none

/-- Takes one given character. -/
def mark? (c : Char) : List Char → Option (List Char)
  | d :: rest => if d = c then some rest else none
  | [] => none

/-- The days of a month. -/
def daysOf (year month : Nat) : Nat :=
  if month = 2 then
    if year % 4 = 0 && (year % 100 ≠ 0 || year % 400 = 0) then 29 else 28
  else if month = 4 || month = 6 || month = 9 || month = 11 then 30 else 31

/-- A date at the front, as text. -/
def date? (cs : List Char) : Option (List Char × List Char) := do
  let (year, rest) ← fixedDigits? 4 cs
  let rest ← mark? '-' rest
  let (month, rest) ← fixedDigits? 2 rest
  let rest ← mark? '-' rest
  let (day, rest) ← fixedDigits? 2 rest
  if month = 0 || 12 < month || day = 0 || daysOf year month < day then none
  pure (cs.take 10, rest)

/-- A time at the front, as text; its fraction keeps at most nine digits and no zeros at its end. -/
def time? (lastHour : Nat) (cs : List Char) : Option (List Char × List Char) := do
  let (hour, rest) ← fixedDigits? 2 cs
  let rest ← mark? ':' rest
  let (minute, rest) ← fixedDigits? 2 rest
  let rest ← mark? ':' rest
  let (second, rest) ← fixedDigits? 2 rest
  if lastHour < hour || 59 < minute || 60 < second then none
  match rest with
  | '.' :: more =>
      let ds := more.takeWhile Char.isDigit
      if ds.isEmpty then none
      let kept := ((ds.take 9).reverse.dropWhile (· = '0')).reverse
      pure (cs.take 8 ++ (if kept.isEmpty then [] else '.' :: kept), more.dropWhile Char.isDigit)
  | _ => pure (cs.take 8, rest)

/-- Two digits of a number. -/
def twoDigits (n : Nat) : List Char := [Nat.digitChar (n / 10), Nat.digitChar (n % 10)]

/-- Which times count as such: the last hour of a day, and which hours and minutes may lie
between a time and universal time. -/
structure Clock where
  lastHour : Nat
  allowsOffset : (hours minutes : Nat) → Bool

/-- The times of documents. -/
def Clock.strict : Clock := ⟨23, fun hours minutes => hours ≤ 23 && minutes ≤ 59⟩

/-- The times of texts that are marked as such: a day may end with its hour 24. -/
def Clock.loose : Clock := ⟨24, fun hours minutes => hours * 60 + minutes ≤ 24 * 60⟩

/-- The distance from universal time, as text; no distance counts as forward. -/
def offset? (k : Clock) (cs : List Char) : Option (List Char) := do
  match cs with
  | ['Z'] => pure ['Z']
  | ['z'] => pure ['Z']
  | sign :: rest =>
      if sign ≠ '+' && sign ≠ '-' then none
      let (hours, more) ← fixedDigits? 2 rest
      let more ← mark? ':' more
      let (minutes, more) ← fixedDigits? 2 more
      if !k.allowsOffset hours minutes || !more.isEmpty then none
      let total := hours * 60 + minutes
      pure ((if total = 0 then '+' else sign) :: twoDigits (total / 60) ++ ':' ::
        twoDigits (total % 60))
  | [] => pure []

/-- A date, a time, or both, as text. -/
def moment? (k : Clock) (cs : List Char) : Option String :=
  match date? cs with
  | some (d, []) => some (String.ofList d)
  | some (d, mark :: rest) =>
      if mark = 'T' || mark = 't' || mark = ' ' then do
        let (t, rest) ← time? k.lastHour rest
        let o ← offset? k rest
        pure (String.ofList (d ++ 'T' :: t ++ o))
      else none
  | none =>
      match time? k.lastHour cs with
      | some (t, []) => some (String.ofList t)
      | _ => none

/-- The key that marks a table as a date that is spelled by its value. -/
def momentKey : String := "$__toml_private_datetime"

/-- A date as a marked table. -/
def markedMoment (text : String) : Value := .table [(momentKey, .text text)]

/-- A plain word: truth, a number, or a date. -/
def word? (cs : List Char) : Option Value :=
  match String.ofList cs with
  | "true" => some (.bool true)
  | "false" => some (.bool false)
  | _ => (integer? cs).or ((float? cs).or ((moment? .strict cs).map markedMoment))

/-- The characters of plain words. -/
def isWordChar (c : Char) : Bool :=
  c.isAlphanum || c == '+' || c == '-' || c == '_' || c == '.' || c == ':'

/-- A plain word; a blank may stand between date and time. -/
def scanWord : Scanner Value := do
  let cs ← Scanner.takeWhile isWordChar
  let rest ← get
  let timeFollows : Bool :=
    match rest with
    | ' ' :: more => (date? cs).any (·.2.isEmpty) && (time? Clock.strict.lastHour more).isSome
    | _ => false
  let word ← if timeFollows then do
      let _ ← Scanner.next
      let t ← Scanner.takeWhile isWordChar
      pure (cs ++ ' ' :: t)
    else pure cs
  match word? word with
  | some v => pure v
  | none => failure

/-- The entries of a table as they are built: a finished value, or a table that
may still grow, made by a dotted key or a header, or a list of such tables. -/
inductive Node where
  | value (v : Value)
  | table (implicit dotted : Bool) (entries : List (String × Node))
  | tables (items : List (List (String × Node)))
  deriving Inhabited

/-- The entries of a table as they are built. -/
abbrev Entries := List (String × Node)

mutual

/-- The value that a node has become. -/
def Node.toValue : Node → Value
  | .value v => v
  | .table _ _ es => .table (entriesValue es)
  | .tables items => .array (tablesValue items)

/-- The values of entries. -/
def entriesValue : List (String × Node) → List (String × Value)
  | [] => []
  | (k, n) :: es => (k, n.toValue) :: entriesValue es

/-- The values of tables. -/
def tablesValue : List (List (String × Node)) → List Value
  | [] => []
  | es :: rest => .table (entriesValue es) :: tablesValue rest

end

/-- A change of the entries of a table, if it is allowed; it may depend on
whether a dotted key made the table. -/
abbrev Edit := (dotted : Bool) → Entries → Option Entries

/-- Makes a change in the table under a path. A dotted key may only lead through
tables that no header has named. -/
def editUnder (dotted : Bool) : (path : List String) → Edit → Edit
  | [], f => f
  | k :: path, f => fun _ es =>
      match es.lookup k with
      | none => do
          let sub ← editUnder dotted path f dotted []
          pure (es ++ [(k, .table true dotted sub)])
      | some (.table implicit d sub) =>
          if dotted && !implicit then none
          else do
            let sub ← editUnder dotted path f d sub
            pure (setKey es k (.table implicit d sub))
      | some (.tables items) =>
          match items.reverse with
          | last :: before => do
              let last ← editUnder dotted path f false last
              pure (setKey es k (.tables (before.reverse ++ [last])))
          | [] => none
      | some (.value _) => none

/-- Adds a value under a new key of a table that was made the way that `dotted` tells. -/
def addValue (dotted : Bool) (k : String) (v : Value) : Edit := fun made es =>
  if made ≠ dotted || es.any (·.1 == k) then none else some (es ++ [(k, .value v)])

/-- Adds a value under a dotted key. -/
def addPair (k : List String) (v : Value) : Edit :=
  match k.reverse with
  | last :: before => editUnder true before.reverse (addValue (!before.isEmpty) last v)
  | [] => fun _ _ => none

mutual

/-- A value at a level of nesting. -/
def scanValue : (bound level : Nat) → Scanner Value
  | 0, _ => failure
  | bound + 1, level => do
      match ← Scanner.peek with
      | some '"' => do pure (.text (← Scanner.quotedText))
      | some '\'' => do pure (.text (← Scanner.quotedText))
      | some '[' => do
          Scanner.literal ['[']
          pure (.array (← scanItems bound (level + 1)))
      | some '\x7b' => do
          Scanner.literal ['\x7b']
          if maxNesting ≤ level + 1 then failure
          Scanner.blanks
          if ← Scanner.comesNext ['\x7d'] then
            Scanner.literal ['\x7d']
            pure (.table [])
          else
            let es ← scanPairs bound (level + 1) []
            pure (.table (entriesValue es))
      | _ => scanWord

/-- The items of an array and its closing bracket. -/
def scanItems : (bound level : Nat) → Scanner (List Value)
  | 0, _ => failure
  | bound + 1, level => do
      if maxNesting ≤ level then failure
      Scanner.space (← Scanner.left)
      if ← Scanner.comesNext [']'] then
        Scanner.literal [']']
        pure []
      else
        let v ← scanValue bound level
        Scanner.space (← Scanner.left)
        if ← Scanner.comesNext [','] then
          Scanner.literal [',']
          let rest ← scanItems bound level
          pure (v :: rest)
        else
          Scanner.literal [']']
          pure [v]

/-- The entries of an inline table and its closing brace. -/
def scanPairs : (bound level : Nat) → Entries → Scanner Entries
  | 0, _, _ => failure
  | bound + 1, level, es => do
      if maxNesting ≤ level then failure
      Scanner.blanks
      let k ← Scanner.key
      Scanner.blanks
      Scanner.literal ['=']
      Scanner.blanks
      let v ← scanValue bound level
      Scanner.blanks
      match addPair k v false es with
      | none => failure
      | some es =>
          if ← Scanner.comesNext [','] then
            Scanner.literal [',']
            scanPairs bound level es
          else
            Scanner.literal ['\x7d']
            pure es

end

/-- A value at the top of a statement. -/
def scanTopValue : Scanner Value := do scanValue ((← Scanner.left) + 1) 0

end ProtoForge.Document.Toml
