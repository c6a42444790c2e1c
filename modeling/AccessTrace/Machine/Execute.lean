import AccessTrace.Machine.Arithmetic

/-!
Execution of application instructions. Effects happen in a fixed order, and an instruction that
fails keeps those it had already had: `leave` sets the stack pointer before it pops, `pop` moves
it before the destination is written, and `enter` pushes its words one after the other.
-/

namespace AccessTrace

open Guest

/-- The size of an address, and of what `push` and `pop` move. -/
def pointerSize : Nat := 8

/-- The width of a memory operand that is read or written as a number. -/
def MemoryOperand.scalarWidth (mem : MemoryOperand) : GuestM Nat :=
  if AddressSpace.isScalarWidth mem.size.bytes then pure mem.size.bytes
  else throw (.badOperand .regionAsScalar)

namespace Operand

def value : Operand → GuestM Word
  | register r => Guest.register r
  | immediate value => pure value.toUInt64
  | memory mem => do
    load ((← get).machine.effectiveAddress mem) (← mem.scalarWidth)

def assign (op : Operand) (value : Word) : GuestM Unit :=
  match op with
  | register r => setRegister r value
  | immediate _ => throw (.badOperand .immediateDestination)
  | memory mem => do
    store ((← get).machine.effectiveAddress mem) (← mem.scalarWidth) value

end Operand

/-- The operand at an index; its absence is reported under the name of the instruction. -/
def operandAt (ops : List Operand) (i : Nat) (instruction : String) : GuestM Operand :=
  match ops[i]? with
  | some op => pure op
  | none => throw (.badOperand (.missing instruction))

def pushWord (value : Word) : GuestM Unit := do
  let top := (← register .rsp) - 8
  store top pointerSize value
  setRegister .rsp top

def popWord : GuestM Word := do
  let top ← register .rsp
  let value ← load top pointerSize
  setRegister .rsp (top + 8)
  return value

/-- Pushes the `count` words that stand below `frame`, from the top down. -/
def pushFrames : (count : Nat) → (frame : Word) → GuestM Unit
  | 0, _ => pure ()
  | count + 1, frame => do
    pushWord (← load (frame - 8) pointerSize)
    pushFrames count (frame - 8)

namespace Instruction

/-- The width of arithmetic in bytes: that of the first memory operand, or a full word. -/
def arithmeticWidth (i : Instruction) : Nat :=
  match (i.sources ++ i.destinations).findSome? Operand.memory? with
  | some mem => mem.size.bytes
  | none => 8

def executeMov (i : Instruction) : GuestM Unit := do
  let value ← (← operandAt i.sources 0 "mov").value
  (← operandAt i.destinations 0 "mov").assign value

/-- Adds or subtracts; the flags change once the destination is written. -/
def executeArithmetic (i : Instruction) (op : ArithmeticOp) (keepsResult : Bool) :
    GuestM Unit := do
  let a ← (← operandAt i.sources 0 "arith").value
  let b ← (← operandAt i.sources 1 "arith").value
  let (result, flags) := op.apply a b i.arithmeticWidth
  if keepsResult then
    (← operandAt i.destinations 0 "arith").assign result
  setFlags flags

def executeSetz (i : Instruction) : GuestM Unit := do
  let value := if (← get).machine.flags.zero then 1 else 0
  (← operandAt i.destinations 0 "setz").assign value

def executePush (i : Instruction) : GuestM Unit := do
  pushWord (← (← operandAt i.sources 0 "push").value)

def executePop (i : Instruction) : GuestM Unit := do
  let value ← popWord
  (← operandAt i.destinations 0 "pop").assign value

/-- Saves the frame pointer, copies `nesting - 1` outer frame pointers, pushes the new one if
there is any nesting, and makes room for the frame. Only five bits of the nesting count. -/
def executeEnter (i : Instruction) : GuestM Unit := do
  let frame ← (← operandAt i.sources 0 "enter").value
  let nesting := (← (← operandAt i.sources 1 "enter").value) &&& 31
  let outer ← register .rbp
  pushWord outer
  let inner ← register .rsp
  if nesting ≠ 0 then
    pushFrames (nesting.toNat - 1) outer
    pushWord inner
  setRegister .rbp inner
  setRegister .rsp ((← register .rsp) - frame)

def executeLeave : GuestM Unit := do
  setRegister .rsp (← register .rbp)
  setRegister .rbp (← popWord)

def advance (r : Register) (length : Nat) : GuestM Unit := do
  setRegister r ((← register r) + UInt64.ofNat length)

/-- The size of the elements that a string instruction works on. -/
def elementSize (op : Operand) : Nat :=
  match op.memory? with
  | some mem => mem.size.bytes
  | none => 8

def executeMovs (i : Instruction) : GuestM Unit := do
  let source ← operandAt i.sources 0 "string op"
  let value ← source.value
  (← operandAt i.destinations 0 "movs").assign value
  advance .rsi (elementSize source)
  advance .rdi (elementSize source)

def executeCmps (i : Instruction) : GuestM Unit := do
  let source ← operandAt i.sources 0 "string op"
  let a ← source.value
  let b ← (← operandAt i.sources 1 "cmps").value
  setFlags (ArithmeticOp.subtract.apply a b (elementSize source)).2
  advance .rsi (elementSize source)
  advance .rdi (elementSize source)

/-- The registers in the order of their numbers, as many as fit into `length` bytes. -/
def registerImage (m : MachineState) (length : Nat) : List UInt8 :=
  (Register.all.take (length / 8)).flatMap fun r => littleEndian 8 (m.get r).toNat

/-- Clears the destination region and stores the registers at its start. -/
def executeFxsave (i : Instruction) : GuestM Unit := do
  let some mem := (← operandAt i.destinations 0 "fxsave").memory?
    | throw (.badOperand (.missing "fxsave"))
  let g ← get
  let address := (g.machine.effectiveAddress mem).toNat
  let image := registerImage g.machine mem.size.bytes
  let cleared ← lift (g.memory.fill address mem.size.bytes 0)
  if image.isEmpty then setMemory cleared
  else setMemory (← lift (cleared.write address image))

def execute (i : Instruction) : GuestM Unit :=
  match i.opcode with
  | .nop => pure ()
  | .mov => i.executeMov
  | .add => i.executeArithmetic .add true
  | .sub => i.executeArithmetic .subtract true
  | .cmp => i.executeArithmetic .subtract false
  | .setz => i.executeSetz
  | .push => i.executePush
  | .pop => i.executePop
  | .enter => i.executeEnter
  | .leave => executeLeave
  | .movs => i.executeMovs
  | .cmps => i.executeCmps
  | .fxsave => i.executeFxsave

end Instruction

end AccessTrace
