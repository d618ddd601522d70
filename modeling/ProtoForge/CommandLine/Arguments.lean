import ProtoForge.CommandLine.Terminal

/-!
# Arguments

The options of a command line. Long options start with two dashes, short ones
with one; a value follows as the next argument or is attached. A value is
checked once the next option or the end shows that it is complete.
-/
namespace ProtoForge.CommandLine

/-- An option: its long and short names, the name of its value if it takes one, and
whether it may be given more than once. -/
structure OptionSpec where
  long : String
  short : Option Char := none
  valueName : Option String := none
  repeats : Bool := false
  allowsEmpty : Bool := true
  deriving DecidableEq, Repr

/-- An option as usage messages name it. -/
def OptionSpec.text (o : OptionSpec) : String :=
  "--" ++ o.long ++ (o.valueName.map fun v => " <" ++ v ++ ">").getD ""

/-- Why a command line cannot be understood. -/
inductive UsageFault where
  | help (about : String)
  | unknownCommand (name : String)
  | unexpected (argument : String)
  | missingValue (option : OptionSpec)
  | repeated (option : OptionSpec)
  | unneededValue (value : String) (option : OptionSpec)
  | invalidValue (value : String) (option : OptionSpec) (reason : String)
  deriving DecidableEq, Repr

/-- The start of a usage message, in which what was given is set off. -/
def UsageFault.text : UsageFault → String
  | help about => about
  | unknownCommand name => "error: unrecognized subcommand '" ++ Terminal.setOff name ++ "'"
  | unexpected argument =>
      "error: unexpected argument '" ++ Terminal.setOff argument ++ "' found"
  | missingValue o => "error: a value is required for '" ++ o.text ++ "' but none was supplied"
  | repeated o => "error: the argument '" ++ o.text ++ "' cannot be used multiple times"
  | unneededValue value o =>
      "error: unexpected value '" ++ Terminal.setOff value ++ "' for '" ++ o.text ++
        "' found; no more were expected"
  | invalidValue value o reason =>
      "error: invalid value '" ++ Terminal.setOff value ++ "' for '" ++ o.text ++ "': " ++ reason

/-- The start of a usage message, up to the end of a line. -/
def UsageFault.message (f : UsageFault) : String := Terminal.plain (f.text ++ "\n")

/-- The options that were given, by their long names, in order. -/
abbrev Given := List (String × String)

/-- The value of an option. -/
def Given.value? (g : Given) (long : String) : Option String := g.lookup long

/-- The values of an option that may be given more than once. -/
def Given.values (g : Given) (long : String) : List String :=
  (g.filter (·.1 = long)).map (·.2)

/-- Whether an option was given. -/
def Given.has (g : Given) (long : String) : Bool := (g.value? long).isSome

/-- A test of the value of an option; a value that fails has a reason. -/
abbrev ValueCheck := OptionSpec → String → Except String Unit

/-- The options so far, one whose value may not be complete, and whether two dashes
have ended the options. -/
structure ParseState where
  given : Given := []
  pending : Option (OptionSpec × Option String) := none
  ended : Bool := false

namespace ParseState

/-- Adds an option with its value, if it got one. -/
def add (check : ValueCheck) (s : ParseState) (o : OptionSpec) (value : Option String) :
    Except UsageFault ParseState := do
  if o.valueName.isSome && value.isNone then throw (.missingValue o)
  if s.given.has o.long && !o.repeats then throw (.repeated o)
  let v := value.getD ""
  if o.valueName.isSome then
    if v = "" && !o.allowsEmpty then throw (.missingValue o)
    if let .error reason := check o v then throw (.invalidValue v o reason)
  pure { s with given := s.given ++ [(o.long, v)] }

/-- Adds the option whose value is now complete. -/
def settle (check : ValueCheck) (s : ParseState) : Except UsageFault ParseState :=
  match s.pending with
  | some (o, value) => { s with pending := none }.add check o value
  | none => .ok s

/-- Starts an option whose value comes next. -/
def await (check : ValueCheck) (s : ParseState) (o : OptionSpec) :
    Except UsageFault ParseState := do
  let s ← s.settle check
  pure { s with pending := some (o, none) }

/-- Takes a long option, without its dashes. -/
def takeLong (options : List OptionSpec) (check : ValueCheck) (s : ParseState)
    (argument : List Char) : Except UsageFault ParseState := do
  let (name, attached) := argument.span (· ≠ '=')
  let value := if attached.isEmpty then none else some (String.ofList (attached.drop 1))
  match options.find? (·.long = String.ofList name) with
  | none => throw (.unexpected ("--" ++ String.ofList name))
  | some o =>
      match o.valueName, value with
      | none, some v => throw (.unneededValue v o)
      | none, none => do
          let s ← s.settle check
          s.add check o none
      | some _, some v => do
          let s ← s.settle check
          s.add check o (some v)
      | some _, none => s.await check o

/-- Takes a short option, without its dash; short options take values. -/
def takeShort (options : List OptionSpec) (check : ValueCheck) (s : ParseState) (name : Char)
    (rest : List Char) : Except UsageFault ParseState := do
  match options.find? (·.short = some name) with
  | none => throw (.unexpected (String.ofList ['-', name]))
  | some o =>
      match rest with
      | [] => s.await check o
      | '=' :: value => do
          let s ← s.settle check
          s.add check o (some (String.ofList value))
      | value => do
          let s ← s.settle check
          s.add check o (some (String.ofList value))

/-- Takes an argument that is no option. -/
def takePlain (s : ParseState) (argument : String) : Except UsageFault ParseState :=
  match s.pending with
  | some (o, none) => .ok { s with pending := some (o, some argument) }
  | _ => .error (.unexpected argument)

/-- Takes one argument. -/
def take (options : List OptionSpec) (check : ValueCheck) (s : ParseState) (argument : String) :
    Except UsageFault ParseState :=
  if s.ended then .error (.unexpected argument)
  else
    match argument.toList with
    | ['-', '-'] => .ok { s with ended := true }
    | '-' :: '-' :: name => s.takeLong options check name
    | '-' :: name :: rest => s.takeShort options check name rest
    | _ => s.takePlain argument

end ParseState

/-- The options that arguments give. -/
def parseOptions (options : List OptionSpec) (check : ValueCheck) (arguments : List String) :
    Except UsageFault Given := do
  let s ← arguments.foldlM (ParseState.take options check) {}
  let s ← s.settle check
  pure s.given

/-- A program: what it is for, and the options of its commands. -/
structure Program (κ : Type) where
  about : String
  commands : List (String × κ)
  options : κ → List OptionSpec

namespace Program

variable {κ : Type} (p : Program κ)

/-- The fault of an argument where a command is expected. -/
def strayFault (argument : String) : UsageFault :=
  match argument.toList with
  | '-' :: '-' :: name => .unexpected ("--" ++ String.ofList (name.takeWhile (· ≠ '=')))
  | '-' :: name :: _ => .unexpected (String.ofList ['-', name])
  | _ => .unknownCommand argument

/-- The fault of arguments after two dashes where a command is expected. -/
def endedFault : List String → UsageFault
  | [] => .help p.about
  | a :: _ => if (p.commands.lookup a).isSome then .unexpected a else .unknownCommand a

/-- The fault of arguments that ask for help: they may name one command. -/
def helpFault : List String → UsageFault
  | [] => .help p.about
  | a :: rest =>
      if (p.commands.lookup a).isNone then .unknownCommand a
      else
        match rest with
        | [] => .help p.about
        | b :: _ => .unknownCommand b

/-- The command and the options that arguments give. -/
def parse (check : ValueCheck) (arguments : List String) : Except UsageFault (κ × Given) :=
  match arguments with
  | [] => .error (.help p.about)
  | "--" :: rest => .error (p.endedFault rest)
  | "help" :: rest => .error (p.helpFault rest)
  | a :: rest =>
      match p.commands.lookup a with
      | none => .error (strayFault a)
      | some command => do
          let given ← parseOptions (p.options command) check rest
          pure (command, given)

end Program

/-- What a program leaves on the console, and its exit code. -/
structure Console where
  code : Nat := 0
  stdout : String := ""
  stderr : String := ""
  deriving DecidableEq, Repr

namespace Console

/-- A program that ended well with some output. -/
def said (stdout : String) : Console := { stdout := stdout }

/-- A program that failed. -/
def failed (message : String) : Console := { code := 1, stderr := "Error: " ++ message ++ "\n" }

/-- A program whose arguments are at fault. -/
def misused (fault : UsageFault) : Console := { code := 2, stderr := fault.message }

end Console

end ProtoForge.CommandLine
