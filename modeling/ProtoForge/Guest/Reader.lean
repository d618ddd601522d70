import ProtoForge.Guest.Module

/-!
# The binary form of modules

A module is a header and a sequence of sections, each with its length. Numbers
are in groups of seven bits. A function body is read as a flat list of
operations first, whose blocks are then nested.
-/
namespace ProtoForge.Guest

/-- Reads a value from the front of bytes. -/
abbrev Reader := StateT Bytes Option

namespace Reader

/-- The next byte. -/
def byte : Reader UInt8 := fun b =>
  match b with
  | x :: rest => some (x, rest)
  | [] => none

/-- The next `n` bytes. -/
def take (n : Nat) : Reader Bytes := fun b =>
  if n ≤ b.length then some (b.take n, b.drop n) else none

/-- An unsigned number in at most `count` groups. -/
def unsignedWithin : (count : Nat) → Reader Nat
  | 0 => failure
  | count + 1 => do
      let x ← byte
      if x.toNat < 128 then pure x.toNat
      else
        let rest ← unsignedWithin count
        pure (x.toNat - 128 + 128 * rest)

/-- A number of 32 bits. -/
def u32 : Reader Nat := do
  let n ← unsignedWithin 5
  if n < Width.size 32 then pure n else failure

/-- A signed number in at most `count` groups. -/
def signedWithin : (count : Nat) → Reader Int
  | 0 => failure
  | count + 1 => do
      let x ← byte
      if x.toNat < 64 then pure x.toNat
      else if x.toNat < 128 then pure (x.toNat - 128)
      else
        let rest ← signedWithin count
        pure (x.toNat - 128 + 128 * rest)

/-- A signed number of a width in bits. -/
def signed (bits : Nat) : Reader Int := do
  let n ← signedWithin ((bits + 6) / 7)
  if Width.FitsSigned bits n then pure n else failure

/-- The longest name, in bytes. -/
def nameLimit : Nat := 100000

/-- A text after its length. -/
def name : Reader String := do
  let n ← u32
  if nameLimit < n then failure
  let b ← take n
  match Bytes.toText? b with
  | some s => pure s
  | none => failure

/-- `n` values one after the other. -/
def times {α : Type} (r : Reader α) : (n : Nat) → Reader (List α)
  | 0 => pure []
  | n + 1 => do
      let a ← r
      let rest ← times r n
      pure (a :: rest)

/-- Values after their number. -/
def vector {α : Type} (r : Reader α) : Reader (List α) := do
  let n ← u32
  times r n

/-- Reads all of some bytes. -/
def all {α : Type} (r : Reader α) (b : Bytes) : Option α :=
  match r b with
  | some (a, []) => some a
  | _ => none

/-- A value type. -/
def valueType : Reader ValueType := do
  match ← byte with
  | 0x7F => pure .i32
  | 0x7E => pure .i64
  | _ => failure

/-- The most parameters or results a function may have. -/
def arityLimit : Nat := 1000

/-- A function type. -/
def functionType : Reader FunctionType := do
  if (← byte) ≠ 0x60 then failure
  let params ← vector valueType
  let results ← vector valueType
  if arityLimit < params.length || arityLimit < results.length then failure
  pure ⟨params, results⟩

/-- The size of a memory. -/
def pageRange : Reader PageRange := do
  match ← byte with
  | 0 => pure ⟨← u32, none⟩
  | 1 =>
      let minimum ← u32
      let maximum ← u32
      pure ⟨minimum, some maximum⟩
  | _ => failure

/-- One of some types, by its number. -/
def typeIndex (types : List FunctionType) : Reader FunctionType := do
  match types[← u32]? with
  | some t => pure t
  | none => failure

/-- The type of a block: nothing, one result, or a function type. -/
def blockType (types : List FunctionType) : Reader FunctionType := do
  let n ← signed 33
  if n = -64 then pure ⟨[], []⟩
  else if n = -1 then pure ⟨[], [.i32]⟩
  else if n = -2 then pure ⟨[], [.i64]⟩
  else if 0 ≤ n then
    match types[n.toNat]? with
    | some t => pure t
    | none => failure
  else failure

/-- The offset of a memory access with at most a given alignment. -/
def memoryOffset (alignment : Nat) : Reader Nat := do
  if alignment < (← u32) then failure
  u32

end Reader

/-- An operation of a function body before its blocks are nested. -/
inductive Operation where
  | plain (i : Instruction)
  | openBlock (t : FunctionType)
  | openLoop (t : FunctionType)
  | openIf (t : FunctionType)
  | otherwise
  | close

namespace Reader

/-- The next operation. -/
def operation (types : List FunctionType) : Reader Operation := do
  match ← byte with
  | 0x00 => pure (.plain .unreachable)
  | 0x01 => pure (.plain .nop)
  | 0x02 => pure (.openBlock (← blockType types))
  | 0x03 => pure (.openLoop (← blockType types))
  | 0x04 => pure (.openIf (← blockType types))
  | 0x05 => pure .otherwise
  | 0x0B => pure .close
  | 0x0C => pure (.plain (.branch (← u32)))
  | 0x0D => pure (.plain (.branchIf (← u32)))
  | 0x0F => pure (.plain .ret)
  | 0x10 => pure (.plain (.call (← u32)))
  | 0x1A => pure (.plain .drop)
  | 0x20 => pure (.plain (.localGet (← u32)))
  | 0x21 => pure (.plain (.localSet (← u32)))
  | 0x22 => pure (.plain (.localTee (← u32)))
  | 0x28 => pure (.plain (.load .word (← memoryOffset 2)))
  | 0x2D => pure (.plain (.load .byte (← memoryOffset 0)))
  | 0x36 => pure (.plain (.store .word (← memoryOffset 2)))
  | 0x3A => pure (.plain (.store .byte (← memoryOffset 0)))
  | 0x3F => if (← byte) = 0 then pure (.plain .memorySize) else failure
  | 0x40 => if (← byte) = 0 then pure (.plain .memoryGrow) else failure
  | 0x41 => pure (.plain (.const (.i32 (UInt32.ofInt (← signed 32)))))
  | 0x42 => pure (.plain (.const (.i64 (UInt64.ofInt (← signed 64)))))
  | 0x45 => pure (.plain .eqz)
  | 0x46 => pure (.plain (.binary .eq))
  | 0x49 => pure (.plain (.binary .ltU))
  | 0x4F => pure (.plain (.binary .geU))
  | 0x6A => pure (.plain (.binary .add))
  | 0x6C => pure (.plain (.binary .mul))
  | 0x6D => pure (.plain (.binary .divS))
  | _ => failure

/-- Operations to the end of the bytes, of which each takes at least one. -/
def operations (types : List FunctionType) : (bound : Nat) → Reader (List Operation)
  | 0 => pure []
  | bound + 1 => do
      if (← get).isEmpty then pure []
      else
        let o ← operation types
        let rest ← operations types bound
        pure (o :: rest)

end Reader

/-- A block whose end was not read yet. -/
inductive OpenKind where
  | block (t : FunctionType)
  | loop (t : FunctionType)
  | yes (t : FunctionType)
  | no (t : FunctionType) (first : List Instruction)

/-- The instructions of the innermost block, last first, and the blocks around it. -/
structure NestState where
  current : List Instruction
  outer : List (OpenKind × List Instruction)
  ended : Bool

/-- The instruction of a finished block. -/
def OpenKind.finish (k : OpenKind) (body : List Instruction) : Instruction :=
  match k with
  | .block t => .block t body
  | .loop t => .loop t body
  | .yes t => .ifElse t body []
  | .no t first => .ifElse t first body

/-- Takes one operation into the nest of blocks. -/
def NestState.take (s : NestState) (o : Operation) : Option NestState :=
  let enter (k : OpenKind) : Option NestState := some ⟨[], (k, s.current) :: s.outer, false⟩
  if s.ended then none
  else
    match o, s.outer with
    | .plain i, _ => some { s with current := i :: s.current }
    | .openBlock t, _ => enter (.block t)
    | .openLoop t, _ => enter (.loop t)
    | .openIf t, _ => enter (.yes t)
    | .otherwise, (.yes t, before) :: outer =>
        some ⟨[], (.no t s.current.reverse, before) :: outer, false⟩
    | .otherwise, _ => none
    | .close, (k, before) :: outer =>
        some ⟨k.finish s.current.reverse :: before, outer, false⟩
    | .close, [] => some { s with ended := true }

/-- The nested instructions of a list of operations that ends the function. -/
def nest (os : List Operation) : Option (List Instruction) := do
  let s ← os.foldlM NestState.take ⟨[], [], false⟩
  if s.ended then pure s.current.reverse else none

/-- A section of a module. -/
structure Section where
  id : Nat
  body : Bytes

/-- The sections that matter, in the order in which they may come. -/
def sectionOrder : List Nat := [1, 2, 3, 5, 7, 8, 12, 10, 11]

/-- Whether sections come in order, each at most once. -/
def inOrder (ids : List Nat) : Bool := (sectionOrder.filter ids.contains) == ids

namespace Reader

/-- Sections to the end of the bytes, of which each takes at least one. -/
def sections : (bound : Nat) → Reader (List Section)
  | 0 => pure []
  | bound + 1 => do
      if (← get).isEmpty then pure []
      else
        let id ← byte
        let n ← u32
        let body ← take n
        let rest ← sections bound
        pure (⟨id.toNat, body⟩ :: rest)

/-- An import. -/
def import_ (types : List FunctionType) : Reader Import := do
  let m ← name
  let f ← name
  match ← byte with
  | 0 => pure ⟨m, f, .function (← typeIndex types)⟩
  | 2 => pure ⟨m, f, .memory (← pageRange)⟩
  | _ => failure

/-- An export. -/
def export_ : Reader (String × ExportKind) := do
  let n ← name
  match ← byte with
  | 0 => pure (n, .function (← u32))
  | 2 => pure (n, .memory (← u32))
  | _ => failure

/-- The most local variables a function may have, its parameters counted. -/
def localLimit : Nat := 50000

/-- A run of local variables of one type. -/
def localRun : Reader (Nat × ValueType) := do
  let n ← u32
  let t ← valueType
  pure (n, t)

/-- The body of a function. -/
def code (types : List FunctionType) (type : FunctionType) : Reader Function := do
  let size ← u32
  let body ← take size
  let read : Reader Function := do
    let runs ← vector localRun
    if localLimit < type.params.length + runs.foldl (· + ·.1) 0 then failure
    let b ← get
    let os ← operations types b.length
    match nest os with
    | some instructions =>
        pure ⟨type, runs.flatMap fun r => List.replicate r.1 r.2, instructions⟩
    | none => failure
  match all read body with
  | some f => pure f
  | none => failure

/-- The bodies of functions of given types. -/
def codes (types : List FunctionType) : List FunctionType → Reader (List Function)
  | [] => pure []
  | t :: rest => do
      let f ← code types t
      let more ← codes types rest
      pure (f :: more)

/-- The bodies of functions of given types, after their number. -/
def codeSection (types declared : List FunctionType) : Reader (List Function) := do
  if (← u32) ≠ declared.length then failure
  codes types declared

/-- Bytes that are in memory from the start. -/
def dataSegment : Reader DataSegment := do
  match ← u32 with
  | 0 => pure ()
  | 2 => if (← u32) ≠ 0 then failure
  | _ => failure
  if (← byte) ≠ 0x41 then failure
  let offset ← signed 32
  if (← byte) ≠ 0x0B then failure
  let n ← u32
  let b ← take n
  pure ⟨UInt32.ofInt offset, b⟩

end Reader

/-- The header of a module. -/
def moduleHeader : Bytes := [0x00, 0x61, 0x73, 0x6D, 0x01, 0x00, 0x00, 0x00]

/-- What a section holds; a missing one holds the default. -/
def readSection {α : Type} (sections : List Section) (id : Nat) (r : Reader α) (default_ : α) :
    Option α :=
  match sections.find? (·.id = id) with
  | some s => Reader.all r s.body
  | none => some default_

/-- Whether a custom section starts with its name. -/
def Section.isNamed (s : Section) : Bool := (Reader.name s.body).isSome

/-- The module of its binary form; whether it makes sense is not checked here. -/
def Module.read? (b : Bytes) : Option Module := do
  if !moduleHeader.isPrefixOf b then none
  let found ← Reader.all (Reader.sections b.length) (b.drop 8)
  let (custom, known) := found.partition (·.id = 0)
  if !custom.all Section.isNamed || !inOrder (known.map (·.id)) then none
  let types ← readSection known 1 (Reader.vector Reader.functionType) []
  let imports ← readSection known 2 (Reader.vector (Reader.import_ types)) []
  let declared ← readSection known 3 (Reader.vector (Reader.typeIndex types)) []
  let memories ← readSection known 5 (Reader.vector Reader.pageRange) []
  let exports ← readSection known 7 (Reader.vector Reader.export_) []
  let start ← readSection known 8 (some <$> Reader.u32) none
  let functions ← readSection known 10 (Reader.codeSection types declared) []
  if functions.length ≠ declared.length then none
  let announced ← readSection known 12 (some <$> Reader.u32) none
  let data ← readSection known 11 (Reader.vector Reader.dataSegment) []
  if announced.any (· ≠ data.length) then none
  pure ⟨imports, functions, memories, exports, start, data⟩

end ProtoForge.Guest
