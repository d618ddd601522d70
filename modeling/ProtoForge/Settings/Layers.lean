import ProtoForge.Decimal.Reader
import ProtoForge.Document.Json
import ProtoForge.Document.KeyPath
import ProtoForge.Document.Toml.Parser
import ProtoForge.Settings.Reader

/-!
# Layers of settings

Settings come from several files and from the environment; later layers win.
Files in the usual places may be missing, a file that is asked for may not.
-/
namespace ProtoForge.Settings

open Document Files

/-- The variables of the environment. -/
abbrev Environment := List (String × String)

/-- The formats of files of settings. -/
inductive Format where
  | toml
  | json
  deriving DecidableEq, Repr

namespace Format

/-- All formats, in the order in which they are looked for. -/
def all : List Format := [toml, json]

/-- The extension of files of a format. -/
def extension : Format → String
  | toml => "toml"
  | json => "json"

/-- The format of an extension. -/
def ofExtension? (s : String) : Option Format := all.find? (·.extension = s)

/-- The value of a text. -/
def parse? : Format → String → Option Value
  | toml, s => Toml.parse? s
  | json, s => Json.parse? s

end Format

/-- A path with an extension added to its file name. -/
def withSuffix? (p : Path) (extension : String) : Option Path := do
  let name ← p.fileName?
  let dir ← p.parent?
  pure (dir.join ⟨name ++ "." ++ extension⟩)

/-- The first file under a path with an extension added. -/
def suffixed? (d : Disk) (p : Path) : Option (Path × Format) :=
  Format.all.findSome? fun f =>
    match withSuffix? p f.extension with
    | some q => if d.isFile q then some (q, f) else none
    | none => none

/-- The file that a name stands for: of exactly this name, or with an extension added. -/
def findFile (d : Disk) (name : Path) : Except LoadFault (Path × Format) :=
  let p := d.absolutize name
  if d.isFile p then
    match Format.ofExtension? (p.extension?.getD "") with
    | some f => .ok (p, f)
    | none => .error (.unknownFormat p.text)
  else
    match suffixed? d p with
    | some found => .ok found
    | none => .error (.notFound name.text)

/-- The text of a file. -/
def readText? (d : Disk) (p : Path) : Except LoadFault String := do
  let content ← (d.read p).mapError .illegible
  match content with
  | .archive _ => throw (.illegible .notText)
  | .bytes b =>
      match Bytes.toText? b with
      | some s => pure s
      | none => throw (.illegible .notText)

/-- A number as settings know it: one that is too large for a sign is approximate. -/
def layerNumber (n : Int) : Scalar :=
  if n < Width.size 63 then .int n else .float (UInt64.ofNat n.toNat).toFloat

/-- The entries that a text sets, with their origin. -/
def entriesOf (f : Format) (origin text : String) : Except LoadFault (OrderedMap Tree) :=
  match f.parse? text with
  | some (.table es) => .ok (OrderedMap.ofList (Tree.ofEntries layerNumber (some origin) es))
  | _ => .error .unparsable

/-- The entries of the file that a name stands for. -/
def fileEntries (d : Disk) (name : Path) : Except LoadFault (OrderedMap Tree) := do
  let (p, f) ← findFile d name
  let text ← readText? d p
  entriesOf f (p.relativeTo (Disk.pathOf d.workingDirectory)).text text

/-- The entries of a file that need not be there; one that does not parse is still a fault. -/
def optionalEntries (d : Disk) (name : Path) : Except LoadFault (OrderedMap Tree) :=
  match fileEntries d name with
  | .ok es => .ok es
  | .error .unparsable => .error .unparsable
  | .error _ => .ok []

/-- The start of the names of variables that hold settings, in lower case. -/
def variableStem : String := "protoc_sandbox__"

/-- The value of a variable: truth and numbers are recognized. -/
def variableValue (s : String) : Scalar :=
  match Text.lowerCase s with
  | "true" => .bool true
  | "false" => .bool false
  | _ =>
      match Decimal.signed64? s with
      | some n => .int n
      | none =>
          match Decimal.number? s with
          | some x => .float x
          | none => .text s

/-- Two underscores in a row stand for a step in a document. -/
def dotted : List Char → List Char
  | '_' :: '_' :: rest => '.' :: dotted rest
  | c :: rest => c :: dotted rest
  | [] => []

/-- The key that the name of a variable stands for. -/
def variableKey? (name : String) : Option String :=
  let lower := (Text.lowerCase name).toList
  if variableStem.toList.isPrefixOf lower then
    some (String.ofList (dotted (lower.drop variableStem.length)))
  else none

/-- The entries that the environment sets. -/
def environmentEntries (env : Environment) : OrderedMap Tree :=
  OrderedMap.ofList (env.filterMap fun v =>
    (variableKey? v.1).map fun k => (k, .scalar (some "the environment") (variableValue v.2)))

/-- Where settings of the project are looked for. -/
def projectFiles : List Path :=
  [⟨"protoc-sandbox.toml"⟩, ⟨".protoc-sandbox.toml"⟩, ⟨"config/protoc-sandbox.toml"⟩]

/-- The directory of the settings of the user. -/
def userDirectory? (env : Environment) : Option Path :=
  match env.lookup "XDG_CONFIG_HOME" with
  | some dir => if (Path.mk dir).isAbsolute then some ⟨dir⟩ else homeDirectory?
  | none => homeDirectory?
where
  /-- The directory of the settings below the home of the user. -/
  homeDirectory? : Option Path :=
    match env.lookup "HOME" with
    | some "" => none
    | some home => some ((Path.mk home).join ⟨".config"⟩)
    | none => none

/-- Where settings of the user are looked for. -/
def userFile? (env : Environment) : Option Path :=
  (userDirectory? env).map fun dir => dir.join ⟨"protoc-sandbox/protoc-sandbox.toml"⟩

/-- The entries of all layers, the weakest first. -/
def layers (d : Disk) (env : Environment) (asked : Option Path) :
    List (Except LoadFault (OrderedMap Tree)) :=
  projectFiles.map (optionalEntries d) ++
    ((userFile? env).toList.filter d.reaches).map (optionalEntries d) ++
    asked.toList.map (fileEntries d) ++ [.ok (environmentEntries env)]

/-- Sets the value of a key, which is a path. -/
def addEntry (t : Tree) (e : String × Tree) : Except LoadFault Tree :=
  match t.setAt? (keyPath e.1) e.2 with
  | some t => .ok t
  | none => .error (.strayIndex e.1)

/-- Sets the entries of a layer. -/
def addLayer (t : Tree) (layer : Except LoadFault (OrderedMap Tree)) : Except LoadFault Tree := do
  (← layer).foldlM addEntry t

/-- The settings of all layers together. -/
def load (d : Disk) (env : Environment) (asked : Option Path) : Except LoadFault Config := do
  let merged ← (layers d env asked).foldlM addLayer (.table none [])
  (Config.read .lenient merged).mapError .unreadable

end ProtoForge.Settings
