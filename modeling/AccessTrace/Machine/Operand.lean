import AccessTrace.Machine.Register

/-!
Operands of instructions: a register, an immediate value, or a memory reference
`[base + index * scale + displacement]` of a given size.
-/

namespace AccessTrace

/-- The size of a memory operand. -/
inductive OperandSize where
  | b1 | b2 | b4 | b8
  /-- An operand that is a region as a whole, such as a register image. -/
  | region (length : Nat)
deriving DecidableEq, Repr

/-- The size in bytes. -/
def OperandSize.bytes : OperandSize → Nat
  | b1 => 1
  | b2 => 2
  | b4 => 4
  | b8 => 8
  | region length => length

structure MemoryOperand where
  base : Option Register
  index : Option Register
  scale : UInt8
  displacement : Int64
  size : OperandSize
deriving DecidableEq

namespace MemoryOperand

def atRegister (base : Register) (displacement : Int64) (size : OperandSize) : MemoryOperand :=
  ⟨some base, none, 1, displacement, size⟩

/-- A fixed address, held as a displacement. -/
def absolute (address : UInt64) (size : OperandSize) : MemoryOperand :=
  ⟨none, none, 1, address.toInt64, size⟩

end MemoryOperand

inductive Operand where
  | register (r : Register)
  | immediate (value : Int64)
  | memory (m : MemoryOperand)
deriving DecidableEq

namespace Operand

def memory? : Operand → Option MemoryOperand
  | memory m => some m
  | _ => none

def immediate? : Operand → Option Int64
  | immediate value => some value
  | _ => none

def isMemory (op : Operand) : Bool :=
  op.memory?.isSome

end Operand

end AccessTrace
