import AccessTrace.Host.Program

/-!
Built-in programs. Each advertises how many memory accesses one iteration makes.
-/

namespace AccessTrace

inductive Workload where
  /-- Loads, stores and a string move that walk two arrays. -/
  | copy
  /-- Pushes, pops and stack frames. -/
  | stack
  /-- Updates in place, compares, a register image and an addition of two sources. -/
  | mixed
deriving DecidableEq, Repr

namespace Workload

def dataBase : Word := 0x10000000
def stackTop : Word := 0x20000000
def stackSize : Nat := 0x10000
def codeBase : Word := 0x400000

def all : List Workload := [copy, stack, mixed]

def name : Workload → String
  | copy => "copy"
  | stack => "stack"
  | mixed => "mixed"

def title : Workload → String
  | copy => "Copy"
  | stack => "Stack"
  | mixed => "Mixed"

def ofName? (name : String) : Option Workload :=
  all.find? fun w => w.name == name

def accessesPerIteration : Workload → Nat
  | copy => 4
  | stack => 5
  | mixed => 8

/-- Gives the instructions addresses four apart, from `pc` on. -/
def placedAt (pc : Word) : List Instruction → List Instruction
  | [] => []
  | i :: rest => { i with address := some pc } :: placedAt (pc + 4) rest

/-- The block of the instructions that are placed from `pc` on. -/
def blockAt (pc : Word) (is : List Instruction) : Block :=
  ⟨pc, placedAt pc is⟩

/-- How far the copy may walk through each of its two arrays, as a word. -/
def copySpan (iterations : Nat) : Word :=
  UInt64.ofNat (min (iterations * 16) 0xFFFFFFFFFFFFFFFF) + 16

def copyInstructions : List Instruction :=
  let source : Operand := .memory (.atRegister .rsi 0 .b8)
  let target : Operand := .memory (.atRegister .rdi 0 .b8)
  [.mov 0 (.register .rax) source,
    .mov 0 target (.register .rax),
    .add 0 (.register .rsi) (.immediate 8),
    .add 0 (.register .rdi) (.immediate 8),
    .movs 0 .b8]

def stackInstructions : List Instruction :=
  [.push 0 (.register .rax),
    .pop 0 (.register .rbx),
    .enter 0 32 1,
    .mov 0 (.memory (.atRegister .rbp (-16) .b8)) (.register .rax),
    .leave 0]

def mixedInstructions : List Instruction :=
  let cell (offset : Word) (size : OperandSize) : Operand :=
    .memory (.absolute (dataBase + offset) size)
  [.add 0 (cell 0 .b8) (.immediate 1),
    .cmp 0 (.register .rax) (cell 8 .b8),
    .fxsave 0 (.absolute (dataBase + 0x100) .b8),
    .setz 0 .rbx,
    .mov 0 (cell 48 .b8) (.register .rbx),
    .ternary .add 0 (cell 24 .b4) (cell 32 .b4) (cell 40 .b4)]

def program (w : Workload) (iterations : Nat) : Program :=
  match w with
  | copy =>
    let span := copySpan iterations
    { blocks := [blockAt codeBase copyInstructions]
      iterations
      regions := [(dataBase, (span * 2).toNat)]
      registers := [(.rsi, dataBase), (.rdi, dataBase + span)] }
  | stack =>
    { blocks := [blockAt (codeBase + 0x100) stackInstructions]
      iterations
      regions := [(stackTop - UInt64.ofNat stackSize, stackSize)]
      registers := [(.rsp, stackTop - 0x100), (.rbp, stackTop - 0x80), (.rax, 0x5a)] }
  | mixed =>
    { blocks := [blockAt (codeBase + 0x200) mixedInstructions]
      iterations
      regions := [(dataBase, 0x1000)]
      registers := [] }

end Workload

end AccessTrace
