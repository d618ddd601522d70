import ProtoForge.Glob.Parser
import ProtoForge.Glob.Plan
import ProtoForge.Text.Blank

/-!
# Selection rules

A list of lines that select paths. The last line that matches a path decides;
a line with an exclamation mark in front deselects. Where no line matches, a
path is not selected.
-/
namespace ProtoForge.Glob

/-- A line of a rule list. -/
structure Rule where
  pattern : List Part
  negated : Bool
  onlyDirectories : Bool

/-- A line that is no pattern. -/
structure RuleFault where
  line : String
  fault : PatternFault
  deriving DecidableEq, Repr

/-- The wording of a fault in a line. -/
def RuleFault.message (f : RuleFault) : String :=
  "error parsing glob '" ++ f.line ++ "': " ++ f.fault.message

/-- Why rules cannot be applied together: the regular expression of one of them nests too
deeply. Those that are tried on every path are known by their position among such. -/
inductive RulesFault where
  | expression (text : String)
  | position (index : Nat)
  deriving DecidableEq, Repr

/-- The wording of a regular expression that is refused. -/
def refusedExpression (index : Nat) : String := "error parsing pattern " ++ toString index

/-- The wording of a fault. -/
def RulesFault.message : RulesFault → String
  | expression text => "error parsing glob '" ++ text ++ "': " ++ refusedExpression 0
  | position index => refusedExpression index

/-- A line without its marks. -/
structure Line where
  negated : Bool
  absolute : Bool
  onlyDirectories : Bool
  body : List Char
  deriving DecidableEq, Repr

/-- Takes the marks at the start of a line. -/
def Line.ofStart : List Char → Line
  | '\\' :: '!' :: rest => ⟨false, false, false, '!' :: rest⟩
  | '\\' :: '#' :: rest => ⟨false, false, false, '#' :: rest⟩
  | '!' :: '/' :: rest => ⟨true, true, false, rest⟩
  | '!' :: rest => ⟨true, false, false, rest⟩
  | '/' :: rest => ⟨false, true, false, rest⟩
  | cs => ⟨false, false, false, cs⟩

/-- Takes the slash at the end of a line, and a backslash before it. -/
def Line.takeEnd (l : Line) : Line :=
  match l.body.reverse with
  | '/' :: '\\' :: rest => { l with onlyDirectories := true, body := rest.reverse }
  | '/' :: rest => { l with onlyDirectories := true, body := rest.reverse }
  | _ => l

/-- The pattern of a line: a line without a slash matches in every directory,
one that ends in two stars matches only what is below. -/
def Line.glob (l : Line) : List Char :=
  let anywhere :=
    !l.absolute && !l.body.contains '/' &&
      !(l.body = ['*', '*'] || ['*', '*', '/'].isPrefixOf l.body)
  let cs := if anywhere then ['*', '*', '/'] ++ l.body else l.body
  if ['/', '*', '*'].isSuffixOf cs then cs ++ ['/', '*'] else cs

/-- A line without the blanks at its end, unless a backslash keeps them. -/
def trimmedLine (line : List Char) : List Char :=
  if ['\\', ' '].isSuffixOf line then line else Text.trimRight line

/-- The rule of a line; blank lines and comments have none. -/
def Rule.ofLine? (line : String) : Except RuleFault (Option Rule) :=
  if line.startsWith "#" then .ok none
  else
    let cs := trimmedLine line.toList
    if cs.isEmpty then .ok none
    else
      let l := (Line.ofStart cs).takeEnd
      match parse l.glob with
      | .ok pattern => .ok (some ⟨pattern, l.negated, l.onlyDirectories⟩)
      | .error fault => .error ⟨String.ofList cs, fault⟩

/-- Whether the pattern of a rule nests too deeply. -/
def Rule.isTooDeep (r : Rule) : Bool := maxLevels < patternLevels r.pattern

/-- The fault of the first rule whose pattern nests too deeply; patterns with an extension
come first. -/
def rulesFault? (rules : List Rule) : Option RulesFault :=
  let planned (p : Plan) : List Rule := rules.filter fun r => planOf r.pattern = p
  match (planned .byExtension).find? Rule.isTooDeep with
  | some r => some (.expression (patternRegex r.pattern))
  | none => ((planned .general).findIdx? Rule.isTooDeep).map .position

/-- The part of a path that rules look at. -/
def relevantPart (path : String) : String :=
  let cs := path.toList
  let cs := if ['.', '/'].isPrefixOf cs then cs.drop 2 else cs
  match cs with
  | '/' :: rest => String.ofList rest
  | cs => String.ofList cs

/-- The last rule for files that matches a path. -/
def decisive? (rules : List Rule) (path : String) : Option Rule :=
  let part := relevantPart path
  rules.reverse.find? fun r => !r.onlyDirectories && matchesFile r.pattern part

/-- Whether a list of rules selects a file. -/
def selects (rules : List Rule) (path : String) : Bool :=
  match decisive? rules path with
  | some r => !r.negated
  | none => false

end ProtoForge.Glob
