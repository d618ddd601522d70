import ProtoForge.Path

/-!
# Output paths

The paths of generated files are relative and stay below the output directory.
In their normal form single slashes separate ordinary names.
-/
namespace ProtoForge.Generation

/-- The ordinary names of components, unless one of them could lead elsewhere. -/
def ordinaryNames? : List Component → Option (List String)
  | [] => some []
  | .name s :: rest => (ordinaryNames? rest).map (s :: ·)
  | .here :: rest => ordinaryNames? rest
  | .up :: _ => none
  | .root :: _ => none

/-- The normal form of an output path, if it stays below the output directory. -/
def normalizePath? (name : String) : Option String :=
  if name.contains '\\' then none
  else
    match ordinaryNames? (Path.mk name).components with
    | some (n :: ns) => some ("/".intercalate (n :: ns))
    | _ => none

/-- The starts of a list, from one name up to all but the last. -/
def properPrefixes {α : Type} : List α → List (List α)
  | [] => []
  | [_] => []
  | a :: b :: rest => [a] :: (properPrefixes (b :: rest)).map (a :: ·)

/-- The directories that a path in normal form lies in, outermost first. -/
def parentDirectories (path : String) : List String :=
  (properPrefixes (Text.pieces '/' path)).map ("/".intercalate ·)

end ProtoForge.Generation
