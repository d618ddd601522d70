import ProtoForge.Glob.Pattern

/-!
# Glob syntax

Characters to parts. A bracket opens a class, braces enclose alternates that
may nest, a backslash takes the next character as it is, and two stars between
slashes match any number of directories.
-/
namespace ProtoForge.Glob

/-- Why a text is no pattern. -/
inductive PatternFault where
  | unclosedClass
  | invalidRange (first last : Char)
  | unopenedAlternates
  | unclosedAlternates
  | danglingEscape
  deriving DecidableEq, Repr

/-- The wording of a fault. -/
def PatternFault.message : PatternFault → String
  | unclosedClass => "unclosed character class; missing ']'"
  | invalidRange first last =>
      "invalid range; '" ++ String.singleton first ++ "' > '" ++ String.singleton last ++ "'"
  | unopenedAlternates =>
      "unopened alternate group; missing '\x7b' (maybe escape '\x7d' with '[\x7d]'?)"
  | unclosedAlternates =>
      "unclosed alternate group; missing '\x7d' (maybe escape '\x7b' with '[\x7b]'?)"
  | danglingEscape => "dangling '\\'"

/-- A group of alternates: the finished branches and the parts of the current one, last first. -/
structure Group where
  done : List (List Part)
  current : List Part

/-- A class that is being read; its ranges come last first. -/
structure OpenClass where
  negated : Bool
  ranges : List (Char × Char)
  first : Bool
  inRange : Bool

/-- The group being read, those around it, and the class being read. -/
structure ParseState where
  group : Group
  outer : List Group
  openClass : Option OpenClass

namespace ParseState

/-- Before the first character. -/
def start : ParseState := ⟨⟨[], []⟩, [], none⟩

/-- Adds a part to the current branch. -/
def push (s : ParseState) (p : Part) : ParseState :=
  { s with group := { s.group with current := p :: s.group.current } }

/-- Two single stars. -/
def pushStars (s : ParseState) : ParseState := (s.push .zeroOrMore).push .zeroOrMore

/-- Replaces the slash before two stars by a recursive part. -/
def recursive (s : ParseState) (p : Part) : ParseState :=
  match s.group.current with
  | .recursivePrefix :: _ => s
  | .recursiveSuffix :: _ => s
  | _ :: rest => { s with group := { s.group with current := p :: rest } }
  | [] => s

/-- Starts a group of alternates. -/
def openGroup (s : ParseState) : ParseState :=
  { s with group := ⟨[], []⟩, outer := s.group :: s.outer }

/-- The branches of the current group. -/
def branches (s : ParseState) : List (List Part) := s.group.done ++ [s.group.current.reverse]

/-- Ends a group of alternates. -/
def closeGroup (s : ParseState) : Except PatternFault ParseState :=
  match s.outer with
  | [] => .error .unopenedAlternates
  | g :: outer =>
      .ok { s with
        group := { g with current := .alternates s.branches :: g.current }, outer := outer }

/-- A comma separates branches inside a group. -/
def comma (s : ParseState) : ParseState :=
  if s.outer.isEmpty then s.push (.literal ',')
  else { s with group := ⟨s.branches, []⟩ }

/-- Takes a character inside a class. -/
def classChar (s : ParseState) (k : OpenClass) (c : Char) : Except PatternFault ParseState :=
  let more (k : OpenClass) : ParseState := { s with openClass := some { k with first := false } }
  let extend (last : Char) : Except PatternFault ParseState :=
    match k.ranges with
    | (a, _) :: rest =>
        if last < a then .error (.invalidRange a last)
        else .ok (more { k with ranges := (a, last) :: rest, inRange := false })
    | [] => .ok (more k)
  if c = ']' && !k.first then
    let ranges := (if k.inRange then [('-', '-')] else []) ++ k.ranges
    .ok ({ s with openClass := none }.push (.charClass k.negated ranges.reverse))
  else if c = '-' && !k.first && !k.inRange then .ok (more { k with inRange := true })
  else if k.inRange && c ≠ ']' then extend c
  else .ok (more { k with ranges := (c, c) :: k.ranges })

/-- What two stars mean when a slash does not follow them. -/
def doubleStar (s : ParseState) (before : Option Char) (next : Option Char) : ParseState :=
  let inGroup := !s.outer.isEmpty
  if s.group.current.isEmpty then
    if next.isNone then s.push .recursivePrefix else s.pushStars
  else if before ≠ some '/' && !(inGroup && (before = some ',' || before = some '\x7b')) then
    s.pushStars
  else if next.isNone || (inGroup && (next = some ',' || next = some '\x7d')) then
    s.recursive .recursiveSuffix
  else s.pushStars

/-- What two stars mean when a slash follows them; whether they take the slash. -/
def doubleStarSlash (s : ParseState) (before : Option Char) : ParseState × Bool :=
  let inGroup := !s.outer.isEmpty
  if s.group.current.isEmpty then (s.push .recursivePrefix, true)
  else if before ≠ some '/' && !(inGroup && (before = some ',' || before = some '\x7b')) then
    (s.pushStars, false)
  else (s.recursive .recursiveBetween, true)

end ParseState

/-- Reads the rest of a pattern; `before` is the character just read. -/
def parseFrom (s : ParseState) (before : Option Char) (cs : List Char) :
    Except PatternFault ParseState :=
  match cs with
  | [] => .ok s
  | c :: rest =>
      match s.openClass with
      | some k =>
          match s.classChar k c with
          | .error e => .error e
          | .ok s' => parseFrom s' (some c) rest
      | none =>
          match c, rest with
          | '?', rest => parseFrom (s.push .any) (some c) rest
          | '*', '*' :: '/' :: more =>
              let (s', taken) := s.doubleStarSlash before
              if taken then parseFrom s' (some '/') more
              else parseFrom s' (some '*') ('/' :: more)
          | '*', '*' :: more => parseFrom (s.doubleStar before more.head?) (some '*') more
          | '*', rest => parseFrom (s.push .zeroOrMore) (some c) rest
          | '[', '!' :: more =>
              parseFrom { s with openClass := some ⟨true, [], true, false⟩ } (some '!') more
          | '[', '^' :: more =>
              parseFrom { s with openClass := some ⟨true, [], true, false⟩ } (some '^') more
          | '[', rest =>
              parseFrom { s with openClass := some ⟨false, [], true, false⟩ } (some c) rest
          | '\x7b', rest => parseFrom s.openGroup (some c) rest
          | '\x7d', rest =>
              match s.closeGroup with
              | .error e => .error e
              | .ok s' => parseFrom s' (some c) rest
          | ',', rest => parseFrom s.comma (some c) rest
          | '\\', d :: more => parseFrom (s.push (.literal d)) (some d) more
          | '\\', [] => .error .danglingEscape
          | c, rest => parseFrom (s.push (.literal c)) (some c) rest
termination_by cs.length

/-- The parts of a pattern. -/
def parse (cs : List Char) : Except PatternFault (List Part) := do
  let s ← parseFrom .start none cs
  if s.openClass.isSome then throw .unclosedClass
  if !s.outer.isEmpty then throw .unclosedAlternates
  pure s.group.current.reverse

end ProtoForge.Glob
