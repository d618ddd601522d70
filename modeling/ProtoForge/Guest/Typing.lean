import ProtoForge.Guest.Reader

/-!
# Typing of modules

A module makes sense if its indexes exist and its function bodies find the
values on the stack that their instructions take. After an instruction that
never ends the stack holds whatever is asked for.
-/
namespace ProtoForge.Guest

/-- The types on the stack, the top first; open-ended after a jump. -/
structure StackType where
  known : List ValueType
  openEnded : Bool
  deriving DecidableEq, Repr

namespace StackType

/-- Takes one value of a type. -/
def pop (s : StackType) (t : ValueType) : Option StackType :=
  match s.known with
  | u :: rest => if t = u then some { s with known := rest } else none
  | [] => if s.openEnded then some s else none

/-- Takes one value of any type. -/
def popAny (s : StackType) : Option StackType :=
  match s.known with
  | _ :: rest => some { s with known := rest }
  | [] => if s.openEnded then some s else none

/-- Takes values of several types, the last one from the top. -/
def popAll (s : StackType) (ts : List ValueType) : Option StackType := ts.reverse.foldlM pop s

/-- Puts values of several types, the last one on top. -/
def pushAll (s : StackType) (ts : List ValueType) : StackType :=
  { s with known := ts.reverse ++ s.known }

/-- The stack after a jump. -/
def unreachable : StackType := ⟨[], true⟩

/-- Whether exactly values of several types are left. -/
def holds (s : StackType) (ts : List ValueType) : Bool :=
  match s.popAll ts with
  | some rest => rest.known.isEmpty
  | none => false

end StackType

/-- What a function body can refer to. -/
structure TypingContext where
  functions : List FunctionType
  hasMemory : Bool
  locals : List ValueType
  results : List ValueType

/-- Takes parameters and puts results. -/
def applyType (s : StackType) (t : FunctionType) : Option StackType :=
  (s.popAll t.params).map (·.pushAll t.results)

mutual

/-- The stack after an instruction; `labels` are the types that branches carry, innermost first. -/
def checkInstruction (c : TypingContext) (labels : List (List ValueType)) (s : StackType) :
    Instruction → Option StackType
  | .unreachable => some .unreachable
  | .nop => some s
  | .block t body => do
      let s ← s.popAll t.params
      if checkBody c (t.results :: labels) t body then some (s.pushAll t.results) else none
  | .loop t body => do
      let s ← s.popAll t.params
      if checkBody c (t.params :: labels) t body then some (s.pushAll t.results) else none
  | .ifElse t yes no => do
      let s ← s.pop .i32
      let s ← s.popAll t.params
      if checkBody c (t.results :: labels) t yes && checkBody c (t.results :: labels) t no then
        some (s.pushAll t.results)
      else none
  | .branch depth => do
      let ts ← labels[depth]?
      let _ ← s.popAll ts
      some .unreachable
  | .branchIf depth => do
      let ts ← labels[depth]?
      let s ← s.pop .i32
      applyType s ⟨ts, ts⟩
  | .ret => do
      let _ ← s.popAll c.results
      some .unreachable
  | .call index => do applyType s (← c.functions[index]?)
  | .drop => s.popAny
  | .localGet index => do applyType s ⟨[], [← c.locals[index]?]⟩
  | .localSet index => do applyType s ⟨[← c.locals[index]?], []⟩
  | .localTee index => do
      let t ← c.locals[index]?
      applyType s ⟨[t], [t]⟩
  | .const (.i32 _) => applyType s ⟨[], [.i32]⟩
  | .const (.i64 _) => applyType s ⟨[], [.i64]⟩
  | .load _ _ => if c.hasMemory then applyType s ⟨[.i32], [.i32]⟩ else none
  | .store _ _ => if c.hasMemory then applyType s ⟨[.i32, .i32], []⟩ else none
  | .memorySize => if c.hasMemory then applyType s ⟨[], [.i32]⟩ else none
  | .memoryGrow => if c.hasMemory then applyType s ⟨[.i32], [.i32]⟩ else none
  | .eqz => applyType s ⟨[.i32], [.i32]⟩
  | .binary _ => applyType s ⟨[.i32, .i32], [.i32]⟩

/-- The stack after instructions. -/
def checkSequence (c : TypingContext) (labels : List (List ValueType)) (s : StackType) :
    List Instruction → Option StackType
  | [] => some s
  | i :: rest => do
      let s ← checkInstruction c labels s i
      checkSequence c labels s rest

/-- Whether the instructions of a block give what its type says. -/
def checkBody (c : TypingContext) (labels : List (List ValueType)) (t : FunctionType) :
    List Instruction → Bool
  | body =>
      match checkSequence c labels (StackType.pushAll ⟨[], false⟩ t.params) body with
      | some s => s.holds t.results
      | none => false

end

namespace Module

/-- Whether a function body makes sense. -/
def checkFunction (m : Module) (f : Function) : Bool :=
  let c : TypingContext :=
    ⟨m.functionTypes, 0 < m.memoryCount, f.type.params ++ f.locals, f.type.results⟩
  checkBody c [f.type.results] ⟨[], f.type.results⟩ f.body

/-- The most pages that can be addressed. -/
def pageLimit : Nat := 65536

/-- Whether the size of a memory makes sense. -/
def checkRange (r : PageRange) : Bool :=
  r.minimum ≤ pageLimit && r.maximum.all fun maximum => r.minimum ≤ maximum && maximum ≤ pageLimit

/-- Whether an export exists. -/
def checkExport (m : Module) : ExportKind → Bool
  | .function index => index < m.functionTypes.length
  | .memory index => index < m.memoryCount

/-- Whether the start function takes and gives nothing. -/
def checkStart (m : Module) : Bool :=
  m.start.all fun index => m.functionTypes[index]? == some ⟨[], []⟩

/-- Whether a module makes sense. -/
def isValid (m : Module) : Bool :=
  m.functions.all m.checkFunction &&
    (m.importedMemories.map (·.2) ++ m.memories).all checkRange &&
    m.memoryCount ≤ 1 &&
    (m.exports.all fun e => m.checkExport e.2) &&
    (m.exports.map (·.1)).Nodup && m.checkStart &&
    (m.data.isEmpty || 0 < m.memoryCount)

/-- The module of its binary form, if it makes sense. -/
def compile? (b : Bytes) : Option Module := (Module.read? b).filter isValid

end Module

end ProtoForge.Guest
