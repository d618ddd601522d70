import ProtoForge.CommandLine.Arguments
import ProtoForge.Settings.Layers

/-!
# Snapshots

A machine as a document: its working directory, its variables, and its files.
The command line reads one, and writes the files as a run leaves them.
-/
namespace ProtoForge.CommandLine

open Document Files

/-- A machine. -/
structure Snapshot where
  disk : Disk
  environment : Settings.Environment

namespace Snapshot

/-- The location of an absolute path without links. -/
def locationOf (p : Path) : Location :=
  p.components.filterMap fun
    | .name s => some s
    | _ => none

/-- The bytes that an entry of a document holds, as text or in hexadecimal. -/
def bytesOf (v : Value) : Bytes :=
  match (v.get? "text").bind Value.text?, (v.get? "hex").bind Value.text? with
  | some s, _ => Bytes.ofText s
  | none, some h => (Bytes.ofHex? h).getD []
  | none, none => []

/-- The permissions of an entry of a document. -/
def modeOf (v : Value) (otherwise : Nat) : Nat :=
  match v.get? "mode" with
  | some (.int n) => n.toNat
  | _ => otherwise

/-- The entry that a part of a document describes: a link, a directory, or a file. -/
def entryOf (v : Value) : Entry :=
  match (v.get? "link").bind Value.text?, v.get? "directory" with
  | some target, _ => .link target
  | none, some (.bool true) => .directory (modeOf v directoryMode)
  | none, _ => .file (.bytes (bytesOf v)) (modeOf v fileMode)

/-- Adds an entry and the directories that it needs. -/
def addEntry (d : Disk) (v : Value) : Disk :=
  match (v.get? "path").bind Value.text? with
  | none => d
  | some text =>
      let l := locationOf ⟨text⟩
      let d := ((List.range l.length).map l.take).foldl
        (fun d l => if (d.get? l).isSome then d else d.put l (.directory directoryMode)) d
      d.put l (entryOf v)

/-- The machine of a document. -/
def ofValue (v : Value) : Snapshot where
  disk :=
    let start : Disk := ⟨[(["tmp"], .directory 0o1777)], []⟩
    let d := (((v.get? "files").map Value.items).getD []).foldl addEntry start
    { d with workingDirectory :=
        locationOf ⟨((v.get? "workingDirectory").bind Value.text?).getD "/"⟩ }
  environment := (((v.get? "environment").map Value.entries).getD []).filterMap fun e =>
    e.2.text?.map fun s => (e.1, s)

/-- The content of a file as part of a document. -/
def contentEntry (b : Bytes) : String × Value :=
  match Bytes.toText? b with
  | some s => ("text", .text s)
  | none => ("hex", .text (Bytes.toHex b))

/-- An entry as part of a document. -/
def entryValue (l : Location) (e : Entry) : Value :=
  let path := ("path", Value.text (Disk.pathOf l).text)
  match e with
  | .link target => .table [path, ("link", .text target)]
  | .directory mode => .table [path, ("directory", .bool true), ("mode", .nat mode)]
  | .file c mode => .table [path, contentEntry c.toBytes, ("mode", .nat mode)]

/-- The files of a disk as a document. -/
def filesValue (d : Disk) : Value := .array ((d.below []).map fun e => entryValue e.1 e.2)

end Snapshot

/-- What a run printed, and the files afterwards, as a document. -/
def Console.toDocument (c : Console) (d : Disk) : Value :=
  .table [("code", .nat c.code), ("stdout", .text c.stdout), ("stderr", .text c.stderr),
    ("files", Snapshot.filesValue d)]

end ProtoForge.CommandLine
