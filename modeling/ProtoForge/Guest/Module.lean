import ProtoForge.Bytes

/-!
# Guest modules

A guest is a module of functions over one linear memory. Blocks are nested, so
that a branch names how many enclosing blocks it leaves.
-/
namespace ProtoForge.Guest

/-- The types of values. -/
inductive ValueType where
  | i32
  | i64
  deriving DecidableEq, Repr, Inhabited

/-- What a function or block takes and gives. -/
structure FunctionType where
  params : List ValueType
  results : List ValueType
  deriving DecidableEq, Repr, Inhabited

/-- A value. -/
inductive Word where
  | i32 (v : UInt32)
  | i64 (v : UInt64)
  deriving DecidableEq, Repr, Inhabited

/-- How much of a memory an access touches. -/
inductive Width where
  | byte
  | word
  deriving DecidableEq, Repr

/-- The operations on two 32-bit numbers. -/
inductive BinaryOp where
  | eq
  | ltU
  | geU
  | add
  | mul
  | divS
  deriving DecidableEq, Repr

/-- The instructions. -/
inductive Instruction where
  | unreachable
  | nop
  | block (type : FunctionType) (body : List Instruction)
  | loop (type : FunctionType) (body : List Instruction)
  | ifElse (type : FunctionType) (yes no : List Instruction)
  | branch (depth : Nat)
  | branchIf (depth : Nat)
  | ret
  | call (index : Nat)
  | drop
  | localGet (index : Nat)
  | localSet (index : Nat)
  | localTee (index : Nat)
  | const (w : Word)
  | load (width : Width) (offset : Nat)
  | store (width : Width) (offset : Nat)
  | memorySize
  | memoryGrow
  | eqz
  | binary (op : BinaryOp)
  deriving Inhabited

/-- The least and, if bounded, the most pages of a memory. -/
structure PageRange where
  minimum : Nat
  maximum : Option Nat
  deriving DecidableEq, Repr

/-- What a module needs from its host. -/
inductive ImportKind where
  | function (type : FunctionType)
  | memory (range : PageRange)
  deriving DecidableEq, Repr

/-- An import under its two names. -/
structure Import where
  moduleName : String
  fieldName : String
  kind : ImportKind
  deriving DecidableEq, Repr

/-- What a module offers. -/
inductive ExportKind where
  | function (index : Nat)
  | memory (index : Nat)
  deriving DecidableEq, Repr

/-- A function of a module. -/
structure Function where
  type : FunctionType
  locals : List ValueType
  body : List Instruction
  deriving Inhabited

/-- Bytes that are in memory from the start. -/
structure DataSegment where
  offset : UInt32
  bytes : Bytes
  deriving DecidableEq, Repr

/-- A module. -/
structure Module where
  imports : List Import := []
  functions : List Function := []
  memories : List PageRange := []
  exports : List (String × ExportKind) := []
  start : Option Nat := none
  data : List DataSegment := []
  deriving Inhabited

namespace Module

/-- The types of the imported functions. -/
def importedFunctions (m : Module) : List (Import × FunctionType) :=
  m.imports.filterMap fun i =>
    match i.kind with
    | .function t => some (i, t)
    | .memory _ => none

/-- The sizes of the imported memories. -/
def importedMemories (m : Module) : List (Import × PageRange) :=
  m.imports.filterMap fun i =>
    match i.kind with
    | .memory r => some (i, r)
    | .function _ => none

/-- The types of all functions, imported ones first. -/
def functionTypes (m : Module) : List FunctionType :=
  m.importedFunctions.map (·.2) ++ m.functions.map (·.type)

/-- The number of memories, imported or not. -/
def memoryCount (m : Module) : Nat := m.importedMemories.length + m.memories.length

/-- The export of a name. -/
def export? (m : Module) (name : String) : Option ExportKind := m.exports.lookup name

end Module

end ProtoForge.Guest
