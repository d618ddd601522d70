import ProtoForge.Glob.Regex

/-!
# Plans of patterns

How a pattern is looked up. A pattern of fixed text is compared with a path or
with its file name; one that ends in a fixed extension is tried only on file
names with this extension; all others are tried on every path. A path whose
last component is two dots has no file name.
-/
namespace ProtoForge.Glob

/-- How a pattern is looked up. -/
inductive Plan where
  | byPath
  | byFileName
  | byExtension
  | general
  deriving DecidableEq, Repr

/-- The character of a literal part. -/
def Part.literal? : Part → Option Char
  | .literal c => some c
  | _ => none

/-- The text of parts that are all literal. -/
def fixedText? (ps : List Part) : Option (List Char) := ps.mapM Part.literal?

/-- Whether parts end in a dot and literal parts other than slashes. -/
def endsInExtension (ps : List Part) : Bool :=
  let isExtensionChar (p : Part) : Bool := p.literal?.any fun c => c ≠ '.' && c ≠ '/'
  (ps.reverse.dropWhile isExtensionChar).head?.any fun p => p.literal? = some '.'

/-- The plan of a pattern. -/
def planOf (pattern : List Part) : Plan :=
  let guarded := if endsInExtension pattern then Plan.byExtension else .general
  match pattern with
  | .recursivePrefix :: .zeroOrMore :: .literal '.' :: rest =>
      match fixedText? rest with
      | some cs => if cs.contains '.' || cs.contains '/' then guarded else .byFileName
      | none => guarded
  | .recursivePrefix :: p :: rest =>
      match fixedText? (p :: rest) with
      | some cs => if cs.contains '/' then .byPath else .byFileName
      | none => guarded
  | ps => if (fixedText? ps).isSome then .byPath else guarded

/-- Whether a pattern is tried as a regular expression. -/
def Plan.usesRegex : Plan → Bool
  | byPath | byFileName => false
  | byExtension | general => true

/-- Whether a pattern is tried only on paths with a file name. -/
def Plan.needsFileName : Plan → Bool
  | byFileName | byExtension => true
  | byPath | general => false

/-- Whether a path has a file name. -/
def hasFileName (path : String) : Bool :=
  !path.isEmpty && (path.splitOn "/").getLast? ≠ some ".."

/-- Whether a pattern matches a path. -/
def matchesFile (pattern : List Part) (path : String) : Bool :=
  (hasFileName path || !(planOf pattern).needsFileName) && matchesPath pattern path

end ProtoForge.Glob
