import ProtoForge.Text.Pieces

/-!
# Paths

A path is a text. Its meaning is its list of components: doubled slashes and
a `.` after the start do not count, a leading `.` does. Two paths compare by
their components; the text is kept as first given.
-/
namespace ProtoForge

/-- One step of a path. -/
inductive Component where
  | root
  | here
  | up
  | name (s : String)
  deriving DecidableEq, Repr

namespace Component

/-- The place of a component in the order root, here, up, names. -/
def rank : Component → Nat
  | .root => 0
  | .here => 1
  | .up => 2
  | .name _ => 3

/-- The order of components; names go by their characters. -/
def le : Component → Component → Bool
  | .name s, .name t => s ≤ t
  | c, d => rank c ≤ rank d

/-- The text of a component. -/
def text : Component → String
  | .root => "/"
  | .here => "."
  | .up => ".."
  | .name s => s

end Component

/-- A path as written. -/
structure Path where
  text : String
  deriving DecidableEq, Repr, Inhabited

/-- How a path starts. -/
inductive PathStart where
  | root
  | here
  | plain
  deriving DecidableEq, Repr

/-- The component of a start, if it is one. -/
def PathStart.components : PathStart → List Component
  | .root => [.root]
  | .here => [.here]
  | .plain => []

namespace Path

/-- The pieces of a text between slashes. -/
def pieces (s : String) : List String := Text.pieces '/' s

/-- The text with a slash between any two pieces. -/
def ofPieces (ps : List String) : String := "/".intercalate ps

/-- A piece that names no step. -/
def isIdle (piece : String) : Bool := piece == "" || piece == "."

/-- The step of a piece inside a path. -/
def step (piece : String) : Component := if piece = ".." then .up else .name piece

/-- The start of a path and the pieces after it. -/
def split (p : Path) : PathStart × List String :=
  match pieces p.text with
  | "" :: b :: body => (.root, b :: body)
  | "." :: body => (.here, body)
  | body => (.plain, body)

/-- The path with a given start and pieces. -/
def ofSplit : PathStart → List String → Path
  | .root, body => ⟨"/" ++ ofPieces body⟩
  | .here, [] => ⟨"."⟩
  | .here, body => ⟨"./" ++ ofPieces body⟩
  | .plain, body => ⟨ofPieces body⟩

/-- The steps of a path. -/
def components (p : Path) : List Component :=
  let (start, body) := p.split
  start.components ++ (body.filter (!isIdle ·)).map step

/-- Whether a path starts at the root. -/
def isAbsolute (p : Path) : Bool := p.text.startsWith "/"

/-- The path `q` seen from `p`. -/
def join (p q : Path) : Path :=
  if q.isAbsolute then q
  else if p.text.isEmpty || p.text.endsWith "/" then ⟨p.text ++ q.text⟩
  else ⟨p.text ++ "/" ++ q.text⟩

/-- Without the idle pieces at the end. -/
def trimEnd (body : List String) : List String := (body.reverse.dropWhile isIdle).reverse

/-- The path without its last component, unless that is the root or missing. -/
def parent? (p : Path) : Option Path :=
  match p.split with
  | (start, body) =>
      match (trimEnd body).reverse with
      | _ :: before => some (ofSplit start (trimEnd before.reverse))
      | [] => if start = .here then some ⟨""⟩ else none

theorem trimEnd_length_le (body : List String) : (trimEnd body).length ≤ body.length := by
  simpa [trimEnd] using (List.dropWhile_sublist isIdle (l := body.reverse)).length_le

/-- The path and its parents, `count` of them at most. -/
def parentsWithin : Nat → Path → List Path
  | 0, p => [p]
  | count + 1, p =>
      match p.parent? with
      | some q => p :: parentsWithin count q
      | none => [p]

/-- The path, its parent, the parent of that, and so on. -/
def ancestors (p : Path) : List Path := parentsWithin p.components.length p

/-- The last component, if it is a name. -/
def fileName? (p : Path) : Option String :=
  match p.components.getLast? with
  | some (.name s) => some s
  | _ => none

/-- The file name up to and after its last dot; a dot in front does not count. -/
def stemAndExtension (name : String) : String × Option String :=
  let (extension, before) := name.toList.reverse.span (· ≠ '.')
  match before with
  | _ :: b :: stem =>
      (String.ofList (b :: stem).reverse, some (String.ofList extension.reverse))
  | _ => (name, none)

/-- The file name without its extension. -/
def fileStem? (p : Path) : Option String := p.fileName?.map fun n => (stemAndExtension n).1

/-- The part of the file name after its last dot. -/
def extension? (p : Path) : Option String := p.fileName?.bind fun n => (stemAndExtension n).2

/-- Without the first `count` steps of the pieces and the idle ones before the next. -/
def dropSteps (count : Nat) (body : List String) : List String :=
  match count with
  | 0 => body.dropWhile isIdle
  | count + 1 => dropSteps count ((body.dropWhile isIdle).drop 1)

/-- Whether the components of `base` come first in those of `p`. -/
def startsWith (p base : Path) : Bool := base.components.isPrefixOf p.components

/-- What follows the components of `base` in `p`. -/
def stripPrefix? (p base : Path) : Option Path :=
  if p.startsWith base then
    let (start, body) := p.split
    let used := base.components.length
    if used = 0 then some (ofSplit start (trimEnd body))
    else
      let consumed := used - (start.components).length
      some ⟨ofPieces (trimEnd (dropSteps consumed body))⟩
  else none

/-- Whether two paths have the same components. -/
def same (p q : Path) : Bool := p.components == q.components

/-- The order of paths by their components, a path before those below it. -/
def componentsLe : List Component → List Component → Bool
  | [], _ => true
  | _ :: _, [] => false
  | c :: cs, d :: ds => if c = d then componentsLe cs ds else c.le d

/-- The order of paths. -/
def le (p q : Path) : Bool := componentsLe p.components q.components

/-- The steps from one list of components to another, both from the same start. -/
def stepsBetween : (base target : List Component) → List Component
  | b :: base, t :: target =>
      if b = t then stepsBetween base target
      else (b :: base).map (fun _ => .up) ++ t :: target
  | base, target => base.map (fun _ => .up) ++ target

/-- The way to an absolute path from another one. -/
def relativeTo (p base : Path) : Path :=
  ⟨ofPieces ((stepsBetween base.components p.components).map Component.text)⟩

/-- The path with the given ordinary names. -/
def ofNames (names : List String) : Path := ⟨ofPieces names⟩

end Path

end ProtoForge
