import ProtoForge.Guest.Image
import ProtoForge.Guest.Machine
import ProtoForge.Settings.Config
import ProtoForge.Staging.View

/-!
# Running guests

A guest runs within limits: the pages of its memory, the work it may do, and
the bytes kept of each stream. For the time of its run the staged view lies in
a directory that it can read.
-/
namespace ProtoForge.Guest

open Files

/-- What a guest may use. -/
structure Limits where
  minPages : UInt32 := 10
  maxPages : UInt32 := 65536
  fuel : Option UInt64 := none
  maxOutput : UInt64 := 67108864
  deriving DecidableEq, Repr

/-- The limits of a configuration. -/
def Limits.ofConfig (c : Settings.SandboxConfig) : Limits :=
  ⟨c.minMemoryPages, c.maxMemoryPages, c.fuel, c.maxOutputBytes⟩

/-- A number of pages as a 32-bit number; larger ones count as the largest. -/
def pagesOf (n : Nat) : Nat := min n (Width.size 32 - 1)

/-- The least and the most pages that an imported memory is given. -/
def Limits.importedPages (l : Limits) (r : PageRange) : Nat × Nat :=
  let maximum :=
    match r.maximum with
    | some m => min (pagesOf m) l.maxPages.toNat
    | none => l.maxPages.toNat
  (max (pagesOf r.minimum) (min l.minPages.toNat maximum), maximum)

/-- The requests that serve the imported functions, if all of them exist. -/
def hostCalls? (m : Module) : Option (List HostCall) :=
  m.importedFunctions.mapM fun i => HostCall.ofImport? i.1

/-- Whether an imported memory is the one that hosts provide. -/
def isHostMemory (i : Import) : Bool := i.moduleName == "env" && i.fieldName == "memory"

/-- The imported memory that hosts provide, if a module wants it. -/
def hostMemory? (m : Module) : Option PageRange :=
  (m.importedMemories.find? fun i => isHostMemory i.1).map (·.2)

/-- The memory that a guest starts with; its own one must fit the limits. -/
def initialMemory (l : Limits) (m : Module) : Option Memory :=
  match hostMemory? m, m.memories with
  | some r, _ =>
      let (minimum, maximum) := l.importedPages r
      some (.ofPages minimum maximum)
  | none, r :: _ =>
      if l.maxPages.toNat < r.minimum then none
      else some (.ofPages r.minimum (min (r.maximum.getD Module.pageLimit) l.maxPages.toNat))
  | none, [] => some (.ofPages 0 0)

/-- The memory with the data of a module. -/
def placeData (memory : Memory) (data : List DataSegment) : Option Memory :=
  data.foldlM (fun m s => m.write? s.offset.toNat s.bytes) memory

/-- The function under which a guest starts, if it is of the right type. -/
def entryPoint? (m : Module) : Option Nat :=
  match m.export? "_start" with
  | some (.function index) => if m.functionTypes[index]? = some ⟨[], []⟩ then some index else none
  | _ => none

/-- How a run ended, from how its last call ended. -/
def Halt.outcome : Halt → Outcome
  | .returned => .success
  | .exit code => if code = 0 then .success else .exit code
  | .trap t => .trap t.message
  | .hostFault f => .trap f.message

/-- The streams of a finished guest. -/
def Machine.output (m : Machine) : CapturedOutput := ⟨m.host.stdout.bytes, m.host.stderr.bytes⟩

/-- Runs the entry point; `none` if there is none. -/
def runEntry (p : Program) (m : Machine) : Option Execution :=
  (entryPoint? p.guest).map fun index =>
    let (h, m') := p.invoke m index
    ⟨h.outcome, m'.output⟩

/-- Runs a guest from its start function on; `none` if it cannot be brought up. -/
def runProgram (p : Program) (m : Machine) : Option Execution :=
  match placeData m.memory p.guest.data with
  | none => some ⟨(Halt.trap .outOfBounds).outcome, m.output⟩
  | some memory =>
      let m := { m with memory := memory }
      match p.guest.start with
      | none => runEntry p m
      | some index =>
          match p.invoke m index with
          | (.returned, m') => runEntry p m'
          | (.trap t, m') => some ⟨(Halt.trap t).outcome, m'.output⟩
          | _ => none

/-- The work that a guest without a budget may do. -/
def unlimitedFuel : Nat := Width.size 64 - 1

/-- Brings up a guest whose files lie below a location and runs it. -/
def launch (l : Limits) (m : Module) (args : List String) (stdin : Bytes) (d : Disk)
    (root : Location) : Option Execution := do
  let calls ← hostCalls? m
  if !(m.importedMemories.all fun i => isHostMemory i.1) then none
  let memory ← initialMemory l m
  let budget := (l.fuel.map UInt64.toNat).getD unlimitedFuel
  let host := Host.start args stdin l.maxOutput.toNat d root
  runProgram ⟨m, calls, budget⟩ ⟨memory, host, 0, []⟩

/-- The program name of a run. -/
def programName (image : Image) (args : List String) : String := args.headD image.name

/-- Runs a guest in a directory that already holds its files. -/
def executeIn (l : Limits) (image : Image) (args : List String) (stdin : Bytes) (root : Path) :
    RunAction Execution := do
  if let some r := hostMemory? image.module then
    let (minimum, maximum) := l.importedPages r
    if maximum < minimum then throw (.memoryBounds minimum maximum)
  let d ← get
  let place ← (FileAction.inspect (·.locate root true)).orFail (.staging root)
  match launch l image.module args stdin d place with
  | some e => pure e
  | none => throw (.instantiation (programName image args))

/-- Runs a guest on a staged view; how it ended is part of the result. -/
def execute (l : Limits) (image : Image) (args : List String) (stdin : Bytes)
    (view : Staging.View) : RunAction Execution := do
  let root ← view.materialize
  let e ← tryCatch (executeIn l image args stdin root) fun f => do
    Staging.View.dispose root
    throw f
  Staging.View.dispose root
  pure e

/-- The output of a run that ended well. -/
def Execution.stdout (e : Execution) (program : String) : Except Failure Bytes :=
  match e.outcome with
  | .success => .ok e.output.stdout
  | .exit code => .error (.nonZeroExit program code e.output)
  | .trap message => .error (.trap program message e.output)

/-- Runs a guest that must end well; its output. -/
def run (l : Limits) (image : Image) (args : List String) (stdin : Bytes) (view : Staging.View) :
    RunAction Bytes := do
  let e ← execute l image args stdin view
  ExceptT.mk (pure (e.stdout (programName image args)))

end ProtoForge.Guest
