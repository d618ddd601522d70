import ProtoForge.Guest.Host

/-!
# The guest machine

A guest runs step by step. Each active function has its local variables, a
stack of values, the instructions still to be done in its innermost block, and
the blocks around it. Work is counted, and where a function starts or a loop
comes round, a guest whose budget is used up is stopped.
-/
namespace ProtoForge.Guest

/-- Why a guest is stopped. -/
inductive Trap where
  | unreachable
  | budgetUsedUp
  | divideByZero
  | overflow
  | outOfBounds
  | stackExhausted
  deriving DecidableEq, Repr

/-- The wording of a trap. -/
def Trap.message : Trap → String
  | unreachable => "wasm `unreachable` instruction executed"
  | budgetUsedUp => "all fuel consumed by WebAssembly"
  | divideByZero => "integer divide by zero"
  | overflow => "integer overflow"
  | outOfBounds => "out of bounds memory access"
  | stackExhausted => "call stack exhausted"

/-- How a call from the host ends. -/
inductive Halt where
  | returned
  | exit (code : Nat)
  | trap (t : Trap)
  | hostFault (f : HostFault)
  deriving DecidableEq, Repr

/-- A block that is being executed: what a branch to it carries and where it goes on. -/
structure BlockFrame where
  arity : Nat
  repeats : Option (List Instruction)
  saved : List Word
  after : List Instruction

/-- An active function. -/
structure CallFrame where
  locals : List Word
  stack : List Word
  code : List Instruction
  blocks : List BlockFrame
  resultCount : Nat

/-- A running guest. -/
structure Machine where
  memory : Memory
  host : Host
  used : Nat
  frames : List CallFrame

/-- What stays the same while a guest runs. -/
structure Program where
  guest : Module
  calls : List HostCall
  budget : Nat

/-- Whether the host can reach the memory of a guest. -/
def Program.sharesMemory (p : Program) : Bool :=
  match p.guest.export? "memory" with
  | some (.memory _) => true
  | _ => false

/-- The most functions that can be active. -/
def maxFrames : Nat := 20000

/-- The work that an instruction counts for. -/
def Instruction.cost : Instruction → Nat
  | .unreachable | .nop | .drop | .block _ _ | .loop _ _ | .ret => 0
  | _ => 1

/-- The initial value of a local variable. -/
def ValueType.zero : ValueType → Word
  | .i32 => .i32 0
  | .i64 => .i64 0

/-- The quotient of signed numbers, towards zero. -/
def divideSigned (a b : UInt32) : Except Trap UInt32 :=
  if b = 0 then .error .divideByZero
  else if a = 0x80000000 && b = 0xFFFFFFFF then .error .overflow
  else .ok (a.toInt32 / b.toInt32).toUInt32

/-- The truth of a condition as a number. -/
def truth (b : Bool) : UInt32 := if b then 1 else 0

/-- The result of an operation on two numbers. -/
def BinaryOp.apply (op : BinaryOp) (a b : UInt32) : Except Trap UInt32 :=
  match op with
  | .eq => .ok (truth (a == b))
  | .ltU => .ok (truth (a < b))
  | .geU => .ok (truth (b ≤ a))
  | .add => .ok (a + b)
  | .mul => .ok (a * b)
  | .divS => divideSigned a b

/-- What a step leads to. -/
inductive Progress where
  | running (m : Machine)
  | halted (h : Halt) (m : Machine)

namespace Machine

/-- Stops a guest. -/
def stop (m : Machine) (t : Trap) : Progress := .halted (.trap t) m

/-- Goes on if the budget is not used up. -/
def checkBudget (m : Machine) (p : Program) : Progress :=
  if p.budget ≤ m.used then m.stop .budgetUsedUp else .running m

/-- Goes on with another innermost function. -/
def withFrame (m : Machine) (f : CallFrame) : Machine := { m with frames := f :: m.frames.drop 1 }

/-- Starts a function of the guest; its arguments come with the last one first. -/
def enter (m : Machine) (p : Program) (f : Function) (args : List Word) : Progress :=
  if maxFrames ≤ m.frames.length then m.stop .stackExhausted
  else if p.budget ≤ m.used then m.stop .budgetUsedUp
  else
    let frame : CallFrame :=
      ⟨args.reverse ++ f.locals.map ValueType.zero, [], f.body, [], f.type.results.length⟩
    .running { m with used := m.used + 1, frames := frame :: m.frames }

/-- What the host answers to a request with some arguments, the last one first. -/
def answer (m : Machine) (p : Program) (c : HostCall) (args : List Word) :
    Except Halt Errno × Machine :=
  if !p.sharesMemory then (.error (.hostFault .noMemory), m)
  else
    match c, args with
    | .procExit, code :: _ =>
        (.error (if code.toNat < 126 then .exit code.toNat else .hostFault .exitStatus), m)
    | c, args =>
        let (result, s) := (c.request (args.reverse.map Word.toNat)).run.run ⟨m.memory, m.host⟩
        let m := { m with memory := s.memory, host := s.host }
        match result with
        | .ok () => (.ok .success, m)
        | .error (.errno e) => (.ok e, m)
        | .error (.fault f) => (.error (.hostFault f), m)

/-- Calls a function by its index. -/
def call (m : Machine) (p : Program) (f : CallFrame) (index : Nat) : Progress :=
  match p.calls[index]? with
  | some c =>
      let count := c.type.params.length
      match m.answer p c (f.stack.take count) with
      | (.error h, m') => .halted h m'
      | (.ok e, m') =>
          let results : List Word := c.type.results.map fun _ => .i32 e.code
          .running (m'.withFrame { f with stack := results ++ f.stack.drop count })
  | none =>
      match p.guest.functions[index - p.calls.length]? with
      | some g =>
          let count := g.type.params.length
          (m.withFrame { f with stack := f.stack.drop count }).enter p g (f.stack.take count)
      | none => m.stop .unreachable

/-- Leaves the innermost function. -/
def leave (m : Machine) (f : CallFrame) : Progress :=
  let results := f.stack.take f.resultCount
  match m.frames.drop 1 with
  | [] => .halted .returned { m with frames := [] }
  | g :: rest => .running { m with frames := { g with stack := results ++ g.stack } :: rest }

/-- Leaves `depth` blocks and goes on where a branch to the next one leads. -/
def branch (m : Machine) (p : Program) (f : CallFrame) (depth : Nat) : Progress :=
  match f.blocks.drop depth with
  | [] => m.leave f
  | b :: outer =>
      let stack := f.stack.take b.arity ++ b.saved
      match b.repeats with
      | some body =>
          (m.withFrame { f with stack := stack, code := body, blocks := b :: outer }).checkBudget p
      | none => .running (m.withFrame { f with stack := stack, code := b.after, blocks := outer })

/-- Starts a block. -/
def openBlock (m : Machine) (f : CallFrame) (t : FunctionType) (body : List Instruction)
    (repeats : Bool) : Machine :=
  let count := t.params.length
  let block : BlockFrame :=
    ⟨if repeats then count else t.results.length, if repeats then some body else none,
      f.stack.drop count, f.code⟩
  m.withFrame { f with stack := f.stack.take count, code := body, blocks := block :: f.blocks }

/-- Loads from memory. -/
def load (m : Machine) (width : Width) (address : Nat) : Option UInt32 :=
  match width with
  | .word => m.memory.readWord? address
  | .byte => (m.memory.read? address 1).map fun b => (b.headD 0).toUInt32

/-- Stores to memory. -/
def store (m : Machine) (width : Width) (address : Nat) (v : UInt32) : Option Memory :=
  match width with
  | .word => m.memory.writeWord? address v
  | .byte => m.memory.write? address [v.toUInt8]

/-- Does an instruction of a function whose remaining code is that after it. -/
def perform (m : Machine) (p : Program) (f : CallFrame) (i : Instruction) : Progress :=
  let go (f : CallFrame) : Progress := .running (m.withFrame f)
  let push (w : Word) (stack : List Word) : Progress := go { f with stack := w :: stack }
  match i, f.stack with
  | .unreachable, _ => m.stop .unreachable
  | .nop, _ => go f
  | .block t body, _ => .running (m.openBlock f t body false)
  | .loop t body, _ => (m.openBlock f t body true).checkBudget p
  | .ifElse t yes no, .i32 c :: stack =>
      .running (m.openBlock { f with stack := stack } t (if c = 0 then no else yes) false)
  | .branch depth, _ => m.branch p f depth
  | .branchIf depth, .i32 c :: stack =>
      if c = 0 then go { f with stack := stack } else m.branch p { f with stack := stack } depth
  | .ret, _ => m.leave f
  | .call index, _ => m.call p f index
  | .drop, _ :: stack => go { f with stack := stack }
  | .localGet index, stack => push (f.locals.getD index (.i32 0)) stack
  | .localSet index, w :: stack => go { f with locals := f.locals.set index w, stack := stack }
  | .localTee index, w :: _ => go { f with locals := f.locals.set index w }
  | .const w, stack => push w stack
  | .load width offset, .i32 a :: stack =>
      match m.load width (a.toNat + offset) with
      | some v => push (.i32 v) stack
      | none => m.stop .outOfBounds
  | .store width offset, .i32 v :: .i32 a :: stack =>
      match m.store width (a.toNat + offset) v with
      | some memory => .running ({ m with memory := memory }.withFrame { f with stack := stack })
      | none => m.stop .outOfBounds
  | .memorySize, stack => push (.i32 (UInt32.ofNat m.memory.pages)) stack
  | .memoryGrow, .i32 delta :: stack =>
      match m.memory.grow? delta.toNat with
      | some memory =>
          let before := UInt32.ofNat m.memory.pages
          .running ({ m with memory := memory }.withFrame { f with stack := .i32 before :: stack })
      | none => push (.i32 0xFFFFFFFF) stack
  | .eqz, .i32 v :: stack => push (.i32 (truth (v == 0))) stack
  | .binary op, .i32 b :: .i32 a :: stack =>
      match op.apply a b with
      | .ok v => push (.i32 v) stack
      | .error t => m.stop t
  | _, _ => m.stop .unreachable

/-- Does one step. -/
def step (m : Machine) (p : Program) : Progress :=
  match m.frames with
  | [] => .halted .returned m
  | f :: _ =>
      match f.code with
      | i :: rest => { m with used := m.used + i.cost }.perform p { f with code := rest } i
      | [] =>
          match f.blocks with
          | [] => m.leave f
          | b :: outer =>
              .running (m.withFrame
                { f with stack := f.stack ++ b.saved, code := b.after, blocks := outer })

/-- Does steps until the guest halts, at most `bound` many. -/
def run (p : Program) : (bound : Nat) → Machine → Halt × Machine
  | 0, m => (.trap .budgetUsedUp, m)
  | bound + 1, m =>
      match m.step p with
      | .running m' => run p bound m'
      | .halted h m' => (h, m')

end Machine

mutual

/-- The number of instructions, nested ones included, and of the ends of their blocks. -/
def Instruction.weight : Instruction → Nat
  | .block _ body => 2 + sequenceWeight body
  | .loop _ body => 2 + sequenceWeight body
  | .ifElse _ yes no => 2 + sequenceWeight yes + sequenceWeight no
  | _ => 1

/-- The weight of a sequence of instructions. -/
def sequenceWeight : List Instruction → Nat
  | [] => 1
  | i :: rest => i.weight + sequenceWeight rest

end

/-- A number of steps that no run within a budget exceeds: between two pieces of
work that count, less is done than the whole module holds. -/
def Program.stepBound (p : Program) : Nat :=
  2 * (p.budget + 2) * ((p.guest.functions.map fun f => sequenceWeight f.body).foldl (· + ·) 0 + 2)

/-- Runs a function by its index from a state without active functions. -/
def Program.invoke (p : Program) (m : Machine) (index : Nat) : Halt × Machine :=
  let base : CallFrame := ⟨[], [], [], [], 0⟩
  match ({ m with frames := [base] }).call p base index with
  | .running m' => Machine.run p p.stepBound m'
  | .halted h m' => (h, m')

end ProtoForge.Guest
