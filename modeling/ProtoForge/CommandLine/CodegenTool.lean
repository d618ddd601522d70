import ProtoForge.CommandLine.Arguments
import ProtoForge.Document.Json
import ProtoForge.Pipeline
import ProtoForge.Settings.Layers

/-!
# The code generation tool

A program that runs the pipeline, or shows the graph of imports of the files
that it would compile.
-/
namespace ProtoForge.CommandLine

open Settings Files

namespace CodegenTool

/-- The commands of the tool. -/
inductive Command where
  | generate
  | graph
  deriving DecidableEq, Repr

/-- The option that names a package. -/
def packageOption : OptionSpec where
  long := "package"
  short := some 'p'
  valueName := some "PACKAGES"
  repeats := true

/-- The options of every run. -/
def runOptions : List OptionSpec := [
  { long := "config", short := some 'c', valueName := some "CONFIG" },
  { long := "source", short := some 's', valueName := some "SOURCE", allowsEmpty := false },
  { long := "out", short := some 'o', valueName := some "OUT", allowsEmpty := false },
  { long := "work", short := some 'w', valueName := some "WORK", allowsEmpty := false },
  packageOption,
  { long := "test" }]

/-- The options of a command. -/
def options : Command → List OptionSpec
  | .generate => runOptions ++ [{ long := "json" }]
  | .graph =>
      runOptions ++ [{ long := "output", valueName := some "OUTPUT", allowsEmpty := false }]

/-- The tool. -/
def program : Program Command where
  about := "Compile protobuf schemas in a WebAssembly sandbox and run code generators"
  commands := [("generate", .generate), ("graph", .graph)]
  options := options

/-- The package of a text `COORDINATE=PATH`: a directory, else an archive. -/
def parsePackage (d : Disk) (value : String) : Except String Package.Resolved :=
  let (before, after) := value.toList.span (· ≠ '=')
  match after with
  | [] => .error ("expected COORDINATE=PATH, got '" ++ value ++ "'")
  | _ :: path =>
      match Package.Coordinate.parse? (String.ofList before) with
      | none =>
          .error ("invalid coordinate '" ++ String.ofList before ++
            "', expected group:artifact[:version[:classifier]]")
      | some coordinate =>
          let p : Path := ⟨String.ofList path⟩
          .ok ⟨coordinate, if d.isDirectory p then .directory p else .archive p⟩

/-- The test of the values of options. -/
def check (d : Disk) : ValueCheck := fun o value =>
  if o = packageOption then do
    let _ ← parsePackage d value
    pure ()
  else pure ()

/-- The packages that a command names. -/
def packages (d : Disk) (given : Given) : List Package.Resolved :=
  (given.values "package").filterMap fun v => (parsePackage d v).toOption

/-- The settings of a command, with those that its options replace. -/
def loadGiven (d : Disk) (env : Environment) (given : Given) : Except LoadFault Config := do
  let c ← load d env ((given.value? "config").map Path.mk)
  let path (long : String) (p : Path) : Path := ((given.value? long).map Path.mk).getD p
  pure { c with
    paths := ⟨path "source" c.paths.sourceDir, path "work" c.paths.workDir,
      path "out" c.paths.outDir⟩
    test := c.test || given.has "test" }

/-- A report for people. -/
def summary (r : Pipeline.Report) : String :=
  if !r.processed then "Nothing to do\n"
  else
    Text.unlines ([s!"✅ Generated {r.written.length} files",
      "   Roots: " ++ ", ".intercalate r.roots,
      s!"   Descriptors: {r.requestFiles}"] ++
      (r.descriptorSet.toList.map fun p => "   Descriptor set: " ++ Text.quotedPath p.text)) ++
    if r.diagnostics.isEmpty then "" else "\n" ++ Diagnostics.text r.diagnostics

/-- A report as the command wants it. -/
def showReport (given : Given) (r : Pipeline.Report) : Console :=
  if given.has "json" then
    .said (Document.Json.renderPretty (r.toDocument (Diagnostics.toDocument r.diagnostics)) ++ "\n")
  else .said (summary r)

/-- A name inside a label. -/
def labelText (name : String) : String :=
  String.ofList ((Text.quoted name).toList.flatMap fun c =>
    if c = '"' || c = '\\' then ['\\', c] else [c])

/-- A graph in the DOT language. -/
def dotText (g : Resolution.DependencyGraph) : String :=
  "digraph \x7b\n" ++
    String.join (g.nodes.zipIdx.map fun n =>
      s!"    {n.2} [ label = \"" ++ labelText n.1 ++ "\" ]\n") ++
    String.join (g.edges.map fun e => s!"    {e.1} -> {e.2} [ ]\n") ++ "\x7d\n"

/-- A step of the tool. -/
abbrev Action := WorldAction Unit

/-- Runs the pipeline. -/
def generate (c : Config) (given : Given) : Action Console := do
  let r ← Pipeline.execute c (packages (← get).disk given) [] Resolution.maxDepth
  pure (showReport given r)

/-- The graph of imports, if there is anything to compile. -/
def graph? (c : Config) (given : Given) : Action (Option Resolution.DependencyGraph) := do
  match ← Pipeline.prepare c (packages (← get).disk given) [] with
  | none => pure none
  | some prepared => do
      let compiler ← prepared.compiler
      let request ← Resolution.CompilationRequest.build compiler.source Resolution.maxDepth
        prepared.staged.rootNames
      pure (some request.dependencyGraph)

/-- Writes a graph where the command wants it. -/
def showGraph (given : Given) (g : Resolution.DependencyGraph) : StateM Disk Console := do
  match given.value? "output" with
  | none => pure (.said (dotText g ++ "\n"))
  | some target =>
      match ← (Files.writeFile ⟨target⟩ (Bytes.ofText (dotText g))).run with
      | .ok () => pure (.said ("✅ Exported DOT to: " ++ Text.quotedPath target ++ "\n"))
      | .error fault => pure (.failed fault.message)

/-- Shows the graph of imports. -/
def graph (c : Config) (given : Given) : Action Console := do
  match ← graph? c given with
  | none => pure { stderr := "No schema files found\n" }
  | some g => WorldAction.onDisk (ExceptT.lift (showGraph given g))

/-- Runs a command with its settings. -/
def runCommand (c : Config) (command : Command) (given : Given) : Action Console :=
  match command with
  | .generate => generate c given
  | .graph => graph c given

end CodegenTool

open CodegenTool in
/-- Runs the code generation tool. -/
def runCodegenTool (env : Environment) (arguments : List String) : StateM Disk Console := do
  let d ← get
  match program.parse (check d) arguments with
  | .error fault => pure (.misused fault)
  | .ok (command, given) =>
      match loadGiven d env given with
      | .error fault => pure (.failed fault.message)
      | .ok c => do
          let (result, w) := (runCommand c command given).run.run ⟨d, [], ()⟩
          set w.disk
          match result with
          | .ok console => pure console
          | .error f => pure (.failed f.message)

end ProtoForge.CommandLine
