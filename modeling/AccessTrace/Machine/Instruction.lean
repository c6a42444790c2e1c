import AccessTrace.Machine.Names
import AccessTrace.Machine.Operand

/-!
Application instructions. Each lists its source and destination operands, those it uses
implicitly included, so that the memory operands of an instruction can be found without a look
at its opcode. The constructors give the operand lists of each instruction form.
-/

namespace AccessTrace

inductive Opcode where
  | nop | mov | add | sub | cmp | setz | push | pop
  /-- Pushes a frame pointer and `nesting` further frame words. -/
  | enter
  | leave | movs | cmps | fxsave
deriving DecidableEq, Repr

namespace Opcode

def all : List Opcode :=
  [nop, mov, add, sub, cmp, setz, push, pop, enter, leave, movs, cmps, fxsave]

def name : Opcode → String
  | nop => "nop" | mov => "mov" | add => "add" | sub => "sub" | cmp => "cmp"
  | setz => "setz" | push => "push" | pop => "pop" | enter => "enter" | leave => "leave"
  | movs => "movs" | cmps => "cmps" | fxsave => "fxsave"

def ofName? (name : String) : Option Opcode :=
  all.find? fun op => op.name == name

end Opcode

structure Instruction where
  opcode : Opcode
  /-- Where the instruction stands in the application; `none` if the host made it up. -/
  address : Option Word
  sources : List Operand
  destinations : List Operand
deriving DecidableEq

namespace Instruction

def nop (pc : Word) : Instruction :=
  ⟨.nop, some pc, [], []⟩

def mov (pc : Word) (dst src : Operand) : Instruction :=
  ⟨.mov, some pc, [src], [dst]⟩

/-- Three operands: `dst = a <op> b`. -/
def ternary (op : Opcode) (pc : Word) (dst a b : Operand) : Instruction :=
  ⟨op, some pc, [a, b], [dst]⟩

/-- Two operands: `dst = dst + src`. -/
def add (pc : Word) (dst src : Operand) : Instruction :=
  ternary .add pc dst dst src

/-- Two operands: `dst = dst - src`. -/
def sub (pc : Word) (dst src : Operand) : Instruction :=
  ternary .sub pc dst dst src

def cmp (pc : Word) (a b : Operand) : Instruction :=
  ⟨.cmp, some pc, [a, b], []⟩

def setz (pc : Word) (dst : Register) : Instruction :=
  ⟨.setz, some pc, [], [.register dst]⟩

def push (pc : Word) (src : Operand) : Instruction :=
  ⟨.push, some pc, [src, .register .rsp],
    [.memory (.atRegister .rsp (-8) .b8), .register .rsp]⟩

def pop (pc : Word) (dst : Operand) : Instruction :=
  ⟨.pop, some pc, [.memory (.atRegister .rsp 0 .b8), .register .rsp], [dst, .register .rsp]⟩

def enter (pc : Word) (frame : UInt16) (nesting : UInt8) : Instruction :=
  ⟨.enter, some pc,
    [.immediate (.ofNat frame.toNat), .immediate (.ofNat nesting.toNat),
      .register .rbp, .register .rsp],
    [.memory (.atRegister .rsp (-8) .b8), .register .rbp, .register .rsp]⟩

def leave (pc : Word) : Instruction :=
  ⟨.leave, some pc, [.memory (.atRegister .rbp 0 .b8), .register .rbp],
    [.register .rsp, .register .rbp]⟩

/-- Moves one element from `[rsi]` to `[rdi]` and advances both pointers. -/
def movs (pc : Word) (size : OperandSize) : Instruction :=
  ⟨.movs, some pc,
    [.memory (.atRegister .rsi 0 size), .register .rsi, .register .rdi],
    [.memory (.atRegister .rdi 0 size), .register .rsi, .register .rdi]⟩

/-- Compares one element at `[rsi]` with one at `[rdi]` and advances both pointers. -/
def cmps (pc : Word) (size : OperandSize) : Instruction :=
  ⟨.cmps, some pc,
    [.memory (.atRegister .rsi 0 size), .memory (.atRegister .rdi 0 size),
      .register .rsi, .register .rdi],
    [.register .rsi, .register .rdi]⟩

/-- How many bytes `fxsave` stores. -/
def fxsaveLength : Nat := 512

def fxsave (pc : Word) (dst : MemoryOperand) : Instruction :=
  ⟨.fxsave, some pc, [], [.memory { dst with size := .region fxsaveLength }]⟩

def readsMemory (i : Instruction) : Bool :=
  i.sources.any Operand.isMemory

def writesMemory (i : Instruction) : Bool :=
  i.destinations.any Operand.isMemory

/-- How many memory operands the instruction has. -/
def memoryOperandCount (i : Instruction) : Nat :=
  (i.sources ++ i.destinations).countP Operand.isMemory

end Instruction

end AccessTrace
