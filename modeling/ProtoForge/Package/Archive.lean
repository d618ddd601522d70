import ProtoForge.Files.Access

/-!
# Archives

An archive is a list of named entries. A name is safe if it is relative and
never climbs above its start.
-/
namespace ProtoForge.Package

open Files

/-- The mark at the start of an archive's directory. -/
def directoryMark : Bytes := [0x50, 0x4B, 5, 6]

/-- The bytes of a directory after its mark. -/
def afterMark? : Bytes → Option Bytes
  | [] => none
  | b :: rest =>
      if directoryMark.isPrefixOf (b :: rest) then some ((b :: rest).drop 4) else afterMark? rest

/-- The entries of a content. Plain bytes are an archive only if they hold an empty directory. -/
def entriesOf : Content → Except Fault (List ArchiveEntry)
  | .archive entries => .ok entries
  | .bytes b =>
      match afterMark? b with
      | none => .error .noArchiveDirectory
      | some rest =>
          if rest.length < 18 then .error .endOfFile
          else if (rest.take 18).all (· = 0) then .ok []
          else .error .noArchiveDirectory

/-- The entries of the archive at a path. -/
def openArchive (d : Disk) (p : Path) : Except Fault (List ArchiveEntry) := do
  let content ← d.read p
  entriesOf content

/-- How far below its start a path ends, if it never climbs above it. -/
def depthFrom (depth : Nat) : List Component → Option Nat
  | [] => some depth
  | .root :: _ => none
  | .here :: rest => depthFrom depth rest
  | .up :: rest => if depth = 0 then none else depthFrom (depth - 1) rest
  | .name _ :: rest => depthFrom (depth + 1) rest

/-- The path of an entry name that is safe. -/
def enclosedPath? (name : String) : Option Path :=
  if name.contains '\x00' then none
  else if (depthFrom 0 (Path.mk name).components).isSome then some ⟨name⟩
  else none

/-- The name under which the entry of a path is looked up. -/
def entryName (p : Path) : String := "/".intercalate (p.components.map Component.text)

/-- The bytes of an entry of the archive at a path. -/
def readEntry (d : Disk) (archive relative : Path) : Except Fault Bytes := do
  let entries ← openArchive d archive
  match entries.find? (·.name = entryName relative) with
  | some e => pure e.data
  | none => throw .noArchiveEntry

end ProtoForge.Package
