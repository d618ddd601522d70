import ProtoForge.Files.Disk
import ProtoForge.Guest.Memory
import ProtoForge.Guest.Output

/-!
# The host of a guest

What a guest can ask of its host: its arguments, its streams, the files of one
read-only directory, and to end. Requests answer with an error number, zero
for success. A request that points outside the memory ends the guest.
-/
namespace ProtoForge.Guest

open Files

/-- The error numbers of requests. -/
inductive Errno where
  | success
  | badHandle
  | illegalText
  | interrupted
  | invalid
  | io
  | nameTooLong
  | missing
  | notDirectory
  | notSupported
  | notPermitted
  deriving DecidableEq, Repr

/-- The number of an error. -/
def Errno.code : Errno → UInt32
  | success => 0
  | badHandle => 8
  | illegalText => 25
  | interrupted => 27
  | invalid => 28
  | io => 29
  | nameTooLong => 37
  | missing => 44
  | notDirectory => 54
  | notSupported => 58
  | notPermitted => 63

/-- The flags of a request. -/
inductive FlagKind where
  | lookup
  | opening
  | rights
  | descriptor
  deriving DecidableEq, Repr

namespace FlagKind

/-- The name of a kind of flags. -/
def name : FlagKind → String
  | lookup => "Lookupflags"
  | opening => "Oflags"
  | rights => "Rights"
  | descriptor => "Fdflags"

/-- The number of bits that are passed. -/
def width : FlagKind → Nat
  | lookup => 32
  | opening | descriptor => 16
  | rights => 64

/-- The number of flags, from the lowest bit on. -/
def count : FlagKind → Nat
  | lookup => 1
  | opening => 4
  | rights => 30
  | descriptor => 5

end FlagKind

/-- Why the host ends a guest. -/
inductive HostFault where
  | noMemory
  | exitStatus
  | outside (start size : Nat)
  | misaligned (start size : Nat)
  | unknownFlags (kind : FlagKind)
  deriving DecidableEq, Repr

/-- The bytes that a pointer stands for, in messages. -/
def regionText (start size : Nat) : String :=
  "Region \x7b start: " ++ toString start ++ ", len: " ++ toString size ++ " \x7d"

/-- The wording of a host's fault. -/
def HostFault.message : HostFault → String
  | noMemory => "missing required memory export"
  | exitStatus => "exit with invalid exit status outside of [0..126)"
  | outside start size => "Pointer out of bounds: " ++ regionText start size
  | misaligned start size => "Pointer not aligned to 4: " ++ regionText start size
  | unknownFlags kind => "Invalid flag value " ++ kind.name

/-- What a descriptor stands for. -/
inductive Handle where
  | stdin
  | stdout
  | stderr
  | directory (l : Location)
  | file (rest : Bytes)
  deriving DecidableEq, Repr

/-- A captured stream, its pieces last first. -/
structure Sink where
  pieces : List Bytes := []
  size : Nat := 0

/-- The bytes of a stream. -/
def Sink.bytes (s : Sink) : Bytes := s.pieces.reverse.flatten

/-- Writes to a stream of a capacity; whether room is left afterwards. -/
def Sink.write (s : Sink) (capacity : Nat) (b : Bytes) : Sink × Bool :=
  let kept := b.take (capacity - s.size)
  (⟨kept :: s.pieces, s.size + kept.length⟩, s.size + b.length < capacity)

/-- A stream keeps what it held, and then what there is room for. -/
@[simp] theorem Sink.bytes_write (s : Sink) (capacity : Nat) (b : Bytes) :
    (s.write capacity b).1.bytes = s.bytes ++ b.take (capacity - s.size) := by
  simp [Sink.bytes, Sink.write]

/-- A stream within its capacity stays so. -/
theorem Sink.size_write_le (s : Sink) (capacity : Nat) (b : Bytes) (h : s.size ≤ capacity) :
    (s.write capacity b).1.size ≤ capacity := by
  have hkept := List.length_take_le (capacity - s.size) b
  simp only [Sink.write]
  omega

/-- What a host keeps for a guest; `freed` are the descriptors that were given back, the
latest first. -/
structure Host where
  args : List String
  stdin : Bytes
  stdout : Sink := {}
  stderr : Sink := {}
  capacity : Nat
  disk : Disk
  root : Location
  handles : List (Nat × Handle)
  freed : List Nat := []

namespace Host

/-- The host of a new guest, whose files lie below a location. -/
def start (args : List String) (stdin : Bytes) (capacity : Nat) (disk : Disk) (root : Location) :
    Host where
  args := args
  stdin := stdin
  capacity := capacity
  disk := disk
  root := root
  handles := [(0, .stdin), (1, .stdout), (2, .stderr), (3, .directory root)]

/-- What a descriptor stands for. -/
def handle? (h : Host) (fd : Nat) : Option Handle := h.handles.lookup fd

/-- Binds a descriptor. -/
def bind (h : Host) (fd : Nat) (x : Handle) : Host :=
  { h with handles := (fd, x) :: h.handles.filter (·.1 ≠ fd) }

/-- A bound descriptor stands for what it was bound to. -/
@[simp] theorem handle?_bind_self (h : Host) (fd : Nat) (x : Handle) :
    (h.bind fd x).handle? fd = some x := by
  simp [handle?, bind]

/-- Binds a new descriptor: the one given back last, else the one above all others. -/
def openHandle (h : Host) (x : Handle) : Nat × Host :=
  match h.freed with
  | fd :: freed => (fd, { h.bind fd x with freed := freed })
  | [] =>
      let fd := h.handles.foldl (fun n e => max n (e.1 + 1)) 0
      (fd, h.bind fd x)

/-- Gives a descriptor back. -/
def release (h : Host) (fd : Nat) : Host :=
  { h with handles := h.handles.filter (·.1 ≠ fd), freed := fd :: h.freed }

/-- A descriptor that was given back stands for nothing. -/
theorem handle?_release (h : Host) (fd : Nat) : (h.release fd).handle? fd = none := by
  simp only [handle?, release, List.lookup_eq_none_iff, List.mem_filter]
  rintro e ⟨-, he⟩
  exact bne_iff_ne.2 fun hfd => of_decide_eq_true he hfd.symm

/-- A descriptor that was given back is the next one to be bound. -/
theorem openHandle_release (h : Host) (fd : Nat) (x : Handle) :
    ((h.release fd).openHandle x).1 = fd := rfl

/-- Follows steps from a location without leaving the root. -/
def follow (d : Disk) (root : Location) : Location → List String → Except Errno Location
  | l, [] => .ok l
  | l, s :: rest =>
      match d.get? l with
      | some (.directory _) =>
          if Path.isIdle s then follow d root l rest
          else if s = ".." then
            if l = root then .error .notPermitted else follow d root l.dropLast rest
          else if Disk.maxName < Bytes.textSize s then .error .nameTooLong
          else
            match d.get? (l ++ [s]) with
            | none => .error .missing
            | some _ => follow d root (l ++ [s]) rest
      | _ => .error .notDirectory

/-- What a path below a directory stands for; it must not lead out of the directory. -/
def openPath (d : Disk) (base : Location) (path : String) (onlyDirectory : Bool) :
    Except Errno Handle := do
  if path.contains '\x00' then throw .invalid
  if path.isEmpty then throw .missing
  if Disk.maxPath ≤ Bytes.textSize path then throw .nameTooLong
  if path.startsWith "/" then throw .notPermitted
  let l ← follow d base base (Path.pieces path)
  match d.get? l with
  | some (.directory _) => pure (.directory l)
  | some (.file c _) => if onlyDirectory then throw .notDirectory else pure (.file c.toBytes)
  | _ => throw .missing

end Host

/-- A memory and the host beside it. -/
structure Surroundings where
  memory : Memory
  host : Host

/-- Why a request is not met: with an error number, or because the guest is ended. -/
inductive Refusal where
  | errno (e : Errno)
  | fault (f : HostFault)
  deriving DecidableEq, Repr

/-- A request: it may change memory and host, and may be refused. -/
abbrev Request := ExceptT Refusal (StateM Surroundings)

namespace Request

/-- Refuses a request with an error number. -/
def deny {α : Type} (e : Errno) : Request α := throw (.errno e)

/-- A result that depends on bytes being in memory. -/
def inMemory {α : Type} (start size : Nat) (r : Option α) : Request α :=
  match r with
  | some a => pure a
  | none => throw (.fault (.outside start size))

/-- Reads bytes of the guest. -/
def read (address count : Nat) : Request Bytes := do
  inMemory address count ((← get).memory.read? address count)

/-- Writes bytes for the guest. -/
def write (address : Nat) (b : Bytes) : Request Unit := do
  let s ← get
  let m ← inMemory address b.length (s.memory.write? address b)
  set { s with memory := m }

/-- Whether the address of a number is a multiple of its size. -/
def aligned (address : Nat) : Request Unit :=
  if address % 4 = 0 then pure () else throw (.fault (.misaligned address 4))

/-- Reads a number of the guest. -/
def readWord (address : Nat) : Request Nat := do
  aligned address
  let w ← inMemory address 4 ((← get).memory.readWord? address)
  pure w.toNat

/-- Writes a number for the guest. -/
def writeWord (address : Nat) (n : Nat) : Request Unit := do
  aligned address
  write address (Memory.bytesOf (UInt32.ofNat n))

/-- What a descriptor stands for. -/
def handle (fd : Nat) : Request Handle := do
  match (← get).host.handle? fd with
  | some x => pure x
  | none => deny .badHandle

/-- Changes the host. -/
def modifyHost (f : Host → Host) : Request Unit := modify fun s => { s with host := f s.host }

/-- The first buffer of a list that is not empty, as address and size; an empty one if
there is none. -/
def firstBuffer (address : Nat) : (count : Nat) → Request (Nat × Nat)
  | 0 => pure (0, 0)
  | count + 1 => do
      let start ← readWord address
      let size ← readWord (address + 4)
      if size = 0 then firstBuffer (address + 8) count else pure (start, size)

/-- The bytes of the first buffer of a list that is not empty. -/
def firstBytes (buffers count : Nat) : Request Bytes := do
  let (start, size) ← firstBuffer buffers count
  if size = 0 then pure [] else read start size

/-- Writes a buffer to a stream; a stream without room left is an error. -/
def fdWrite (fd buffers count written : Nat) : Request Unit := do
  let capacity := (← get).host.capacity
  let (size, room) ← match ← handle fd with
    | .stdout => do
        let b ← firstBytes buffers count
        let (sink, room) := (← get).host.stdout.write capacity b
        modifyHost fun h => { h with stdout := sink }
        pure (b.length, room)
    | .stderr => do
        let b ← firstBytes buffers count
        let (sink, room) := (← get).host.stderr.write capacity b
        modifyHost fun h => { h with stderr := sink }
        pure (b.length, room)
    | .file _ => do
        let _ ← firstBytes buffers count
        deny .badHandle
    | _ => deny .badHandle
  if room || size = 0 then writeWord written size else deny .io

/-- Reads into a buffer from a stream or file. Reading nothing from a stream that has more
counts as interrupted. -/
def fdRead (fd buffers count readCount : Nat) : Request Unit := do
  match ← handle fd with
  | .stdin => do
      let (start, size) ← firstBuffer buffers count
      let source := (← get).host.stdin
      if size = 0 && !source.isEmpty then deny .interrupted
      let b := source.take size
      modifyHost fun h => { h with stdin := source.drop size }
      if !b.isEmpty then write start b
      writeWord readCount b.length
  | .file source => do
      let (start, size) ← firstBuffer buffers count
      let b := source.take size
      if size ≠ 0 then
        let _ ← read start size
        write start b
      modifyHost fun h => h.bind fd (.file (source.drop size))
      writeWord readCount b.length
  | _ => deny .badHandle

/-- Gives a descriptor back. -/
def fdClose (fd : Nat) : Request Unit := do
  let _ ← handle fd
  modifyHost fun h => h.release fd

/-- The arguments as the guest sees them, each ended by a zero. -/
def argumentBytes (args : List String) : List Bytes := args.map fun a => Bytes.ofText a ++ [0]

/-- Tells the number of the arguments and of their bytes. -/
def argsSizes (count size : Nat) : Request Unit := do
  let args := argumentBytes (← get).host.args
  writeWord count args.length
  writeWord size args.flatten.length

/-- Writes arguments from an address on, and their addresses. -/
def placeArguments (table address : Nat) : List Bytes → Request Unit
  | [] => pure ()
  | a :: rest => do
      writeWord table address
      write address a.dropLast
      write (address + a.length - 1) (a.drop (a.length - 1))
      placeArguments (table + 4) (address + a.length) rest

/-- Tells the arguments. -/
def argsGet (table address : Nat) : Request Unit := do
  placeArguments table address (argumentBytes (← get).host.args)

/-- Flags as they are passed, if all of them are known. -/
def flags (kind : FlagKind) (n : Nat) : Request Nat :=
  let passed := n % Width.size kind.width
  if passed < Width.size kind.count then pure passed else throw (.fault (.unknownFlags kind))

/-- What opening a file asks for: flags of the path, of the way to open it, the rights on
it, those handed on, and flags of the descriptor. -/
structure OpenFlags where
  lookup : Nat
  opening : Nat
  rights : Nat
  inherited : Nat
  descriptor : Nat

/-- The way of opening, if it is permitted: creating, emptying and writing are not. Whether
only a directory will do. -/
def permitted (f : OpenFlags) : Request Bool := do
  if f.opening.testBit 0 || f.opening.testBit 3 || f.rights.testBit 6 then deny .notPermitted
  if f.descriptor.testBit 1 || f.descriptor.testBit 3 || f.descriptor.testBit 4 then
    deny .notSupported
  let onlyDirectory := f.opening.testBit 1
  if onlyDirectory && f.opening.testBit 2 then deny .invalid
  pure onlyDirectory

/-- Opens a file or directory. -/
def pathOpen (fd path size : Nat) (f : OpenFlags) (opened : Nat) : Request Unit := do
  let _ ← flags .lookup f.lookup
  let f := { f with opening := ← flags .opening f.opening }
  let f := { f with rights := ← flags .rights f.rights }
  let _ ← flags .rights f.inherited
  let f := { f with descriptor := ← flags .descriptor f.descriptor }
  let text ← match Bytes.toText? (← read path size) with
    | some t => pure t
    | none => deny .illegalText
  let base ← match ← handle fd with
    | .directory l => pure l
    | .file _ => deny .notDirectory
    | _ => deny .badHandle
  let onlyDirectory ← permitted f
  let h := (← get).host
  match Host.openPath h.disk base text onlyDirectory with
  | .error e => deny e
  | .ok found => do
      let (new, h) := h.openHandle found
      modifyHost fun _ => h
      writeWord opened new

end Request

/-- The requests that a guest can make. -/
inductive HostCall where
  | procExit
  | fdWrite
  | fdRead
  | fdClose
  | argsSizesGet
  | argsGet
  | pathOpen
  deriving DecidableEq, Repr

namespace HostCall

/-- All requests. -/
def all : List HostCall := [procExit, fdWrite, fdRead, fdClose, argsSizesGet, argsGet, pathOpen]

/-- The name of a request. -/
def name : HostCall → String
  | procExit => "proc_exit"
  | fdWrite => "fd_write"
  | fdRead => "fd_read"
  | fdClose => "fd_close"
  | argsSizesGet => "args_sizes_get"
  | argsGet => "args_get"
  | pathOpen => "path_open"

/-- What a request takes and gives. -/
def type : HostCall → FunctionType
  | procExit => ⟨[.i32], []⟩
  | fdWrite | fdRead => ⟨[.i32, .i32, .i32, .i32], [.i32]⟩
  | fdClose => ⟨[.i32], [.i32]⟩
  | argsSizesGet | argsGet => ⟨[.i32, .i32], [.i32]⟩
  | pathOpen => ⟨[.i32, .i32, .i32, .i32, .i32, .i64, .i64, .i32, .i32], [.i32]⟩

/-- The module under which requests are imported. -/
def moduleName : String := "wasi_snapshot_preview1"

/-- The request of an import, if it is one. -/
def ofImport? (i : Import) : Option HostCall :=
  all.find? fun c => i.moduleName = moduleName && i.fieldName = c.name && i.kind = .function c.type

end HostCall

/-- The number of a value. -/
def Word.toNat : Word → Nat
  | .i32 v => v.toNat
  | .i64 v => v.toNat

/-- What a request does; ending is not one of these. -/
def HostCall.request (c : HostCall) (args : List Nat) : Request Unit :=
  match c, args with
  | .fdWrite, [fd, buffers, count, written] => Request.fdWrite fd buffers count written
  | .fdRead, [fd, buffers, count, readCount] => Request.fdRead fd buffers count readCount
  | .fdClose, [fd] => Request.fdClose fd
  | .argsSizesGet, [count, size] => Request.argsSizes count size
  | .argsGet, [table, address] => Request.argsGet table address
  | .pathOpen, [fd, lookup, path, size, opening, rights, inherited, descriptor, opened] =>
      Request.pathOpen fd path size ⟨lookup, opening, rights, inherited, descriptor⟩ opened
  | _, _ => pure ()

end ProtoForge.Guest
