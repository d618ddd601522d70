import ProtoForge.Bytes
import ProtoForge.Files.Fault
import ProtoForge.Path

/-!
# Disks

A disk is a finite map from locations to entries; a location is the list of
names from the root, which is always a directory. A path is followed step by
step, through symbolic links, to a location; at most forty links are followed.
-/
namespace ProtoForge.Files

/-- Where an entry lies: the names from the root. -/
abbrev Location := List String

/-- An entry of an archive. -/
structure ArchiveEntry where
  name : String
  data : Bytes
  deriving DecidableEq, Repr

/-- What a file holds. An intact archive is known by its entries. -/
inductive Content where
  | bytes (b : Bytes)
  | archive (entries : List ArchiveEntry)
  deriving DecidableEq, Repr

/-- The bytes of a content; those of an archive are of no concern here. -/
def Content.toBytes : Content → Bytes
  | bytes b => b
  | archive _ => []

/-- What lies at a location. -/
inductive Entry where
  | file (content : Content) (mode : Nat)
  | directory (mode : Nat)
  | link (target : String)
  deriving DecidableEq, Repr

/-- Whether an entry is a directory. -/
def Entry.isDirectory : Entry → Bool
  | directory _ => true
  | _ => false

/-- Whether an entry is a file. -/
def Entry.isFile : Entry → Bool
  | file _ _ => true
  | _ => false

/-- The files of a machine. -/
structure Disk where
  entries : List (Location × Entry)
  workingDirectory : Location
  deriving DecidableEq, Repr

namespace Disk

/-- What lies at a location. -/
def get? (d : Disk) (l : Location) : Option Entry :=
  if l = [] then some (.directory 0o755) else d.entries.lookup l

/-- Puts an entry at a location, in place of what was there. -/
def put (d : Disk) (l : Location) (e : Entry) : Disk :=
  { d with entries := d.entries.filter (·.1 ≠ l) ++ [(l, e)] }

/-- Removes the entry of a location. -/
def erase (d : Disk) (l : Location) : Disk :=
  { d with entries := d.entries.filter (·.1 ≠ l) }

/-- Removes a location and all below it. -/
def eraseTree (d : Disk) (l : Location) : Disk :=
  { d with entries := d.entries.filter fun e => !l.isPrefixOf e.1 }

/-- Whether anything lies directly or deeper below a location. -/
def hasChildren (d : Disk) (l : Location) : Bool :=
  d.entries.any fun e => l.isPrefixOf e.1 && e.1 ≠ l

/-- The order of relative locations: by their first differing name, a directory before what it holds. -/
def namesLe : List String → List String → Bool
  | [], _ => true
  | _ :: _, [] => false
  | a :: as, b :: bs => if a = b then namesLe as bs else a ≤ b

/-- All that lies below a location, with names relative to it, in the order of a walk. -/
def below (d : Disk) (l : Location) : List (List String × Entry) :=
  let inside := d.entries.filter fun e => l.isPrefixOf e.1 && e.1 ≠ l
  (inside.map fun e => (e.1.drop l.length, e.2)).mergeSort fun a b => namesLe a.1 b.1

/-- The longest name and the longest path, in bytes. -/
def maxName : Nat := 255

/-- The length from which on a path is refused. -/
def maxPath : Nat := 4096

/-- How many links a lookup follows. -/
def maxLinks : Nat := 40

/-- Where the steps of a path start, and the steps. -/
def startOf (base : Location) (text : String) : Location × List String :=
  match Path.pieces text with
  | "" :: b :: rest => ([], b :: rest)
  | steps => (base, steps)

/-- Follows steps from a location. A link in the last step is followed only on demand. -/
def descend (d : Disk) (links : Nat) (at_ : Location) (steps : List String) (followLast : Bool) :
    Except Fault Location :=
  match steps with
  | [] => .ok at_
  | s :: rest =>
      match d.get? at_ with
      | some (.directory _) =>
          if Path.isIdle s then d.descend links at_ rest followLast
          else if s = ".." then d.descend links at_.dropLast rest followLast
          else if maxName < Bytes.textSize s then .error .nameTooLong
          else
            match d.get? (at_ ++ [s]) with
            | none => .error .missing
            | some (.link target) =>
                if rest.isEmpty && !followLast then .ok (at_ ++ [s])
                else
                  match links with
                  | 0 => .error .tooManyLinks
                  | links + 1 =>
                      let (start, more) := startOf at_ target
                      d.descend links start (more ++ rest) followLast
            | some _ => d.descend links (at_ ++ [s]) rest followLast
      | _ => .error .notDirectory
termination_by (links, steps.length)

/-- Refuses a text that cannot name a file. -/
def checkText (text : String) : Except Fault Unit :=
  if text.contains '\x00' then .error .nulInName
  else if text.isEmpty then .error .missing
  else if maxPath ≤ Bytes.textSize text then .error .nameTooLong
  else .ok ()

/-- The location of an existing entry. -/
def locate (d : Disk) (p : Path) (followLast : Bool) : Except Fault Location := do
  checkText p.text
  let (start, steps) := startOf d.workingDirectory p.text
  d.descend maxLinks start steps followLast

/-- The entry that a path leads to through all links. -/
def status (d : Disk) (p : Path) : Except Fault (Location × Entry) := do
  let l ← d.locate p true
  match d.get? l with
  | some e => pure (l, e)
  | none => throw .missing

/-- Whether a path leads to anything. -/
def reaches (d : Disk) (p : Path) : Bool := (d.status p).toOption.isSome

/-- Whether a path leads to a directory. -/
def isDirectory (d : Disk) (p : Path) : Bool :=
  (d.status p).toOption.any fun e => e.2.isDirectory

/-- Whether a path leads to a file. -/
def isFile (d : Disk) (p : Path) : Bool := (d.status p).toOption.any fun e => e.2.isFile

/-- The last step of a path that is to be created, moved or removed. -/
inductive LastStep where
  | name (s : String)
  | here
  | up
  | root
  deriving DecidableEq, Repr

/-- Where a path to be created, moved or removed lies. -/
structure Place where
  parent : Location
  last : LastStep
  slashAtEnd : Bool
  deriving DecidableEq, Repr

/-- The directory of a path seen from a base and its last step, which need not exist. -/
def placeFrom (d : Disk) (base : Location) (text : String) : Except Fault Place := do
  checkText text
  let (start, steps) := startOf base text
  let trimmed := (steps.reverse.dropWhile (· = "")).reverse
  let slashAtEnd := trimmed.length < steps.length
  match trimmed.reverse with
  | [] => pure ⟨start, .root, slashAtEnd⟩
  | s :: before =>
      let parent ← d.descend maxLinks start before.reverse true
      match d.get? parent with
      | some (.directory _) =>
          if s = "." then pure ⟨parent, .here, slashAtEnd⟩
          else if s = ".." then pure ⟨parent, .up, slashAtEnd⟩
          else pure ⟨parent, .name s, slashAtEnd⟩
      | _ => throw .notDirectory

/-- The directory of a path and its last step. -/
def place (d : Disk) (p : Path) : Except Fault Place := d.placeFrom d.workingDirectory p.text

/-- Where a file that is written to a path comes to lie: links in the last step are followed. -/
def writeTarget (d : Disk) : (links : Nat) → (base : Location) → (text : String) →
    Except Fault Location
  | links, base, text => do
      let place ← d.placeFrom base text
      match place.last with
      | .name s =>
          if place.slashAtEnd then throw .isDirectory
          if maxName < Bytes.textSize s then throw .nameTooLong
          match d.get? (place.parent ++ [s]) with
          | some (.directory _) => throw .isDirectory
          | some (.link target) =>
              match links with
              | 0 => throw .tooManyLinks
              | links + 1 => d.writeTarget links place.parent target
          | _ => pure (place.parent ++ [s])
      | _ => throw .isDirectory

/-- The absolute path of a location. -/
def pathOf (l : Location) : Path := ⟨"/" ++ "/".intercalate l⟩

/-- The absolute path, without links, that a path leads to. -/
def canonicalize (d : Disk) (p : Path) : Except Fault Path := do
  let (l, _) ← d.status p
  pure (pathOf l)

/-- A path seen from the working directory. -/
def absolutize (d : Disk) (p : Path) : Path :=
  if p.isAbsolute then p else (pathOf d.workingDirectory).join p

theorem get?_put (d : Disk) (l : Location) (e : Entry) (h : l ≠ []) :
    (d.put l e).get? l = some e := by
  have gone : (d.entries.filter (·.1 ≠ l)).lookup l = none := by
    rw [List.lookup_eq_none_iff]
    intro p hp
    have hne : p.1 ≠ l := by simpa using (List.mem_filter.1 hp).2
    simpa using hne.symm
  rw [get?, if_neg h, put, List.lookup_append, gone]
  simp

end Disk

end ProtoForge.Files
