import AccessTrace.Machine.Names
import AccessTrace.Machine.Operand

/-!
Injected instructions, the ones that instrumentation adds in front of application instructions.
Only `testZero` and `restoreFlags` change the arithmetic flags.
-/

namespace AccessTrace

/-- The width of a stored immediate. -/
inductive StoreWidth where
  | w32
  | w64
deriving DecidableEq, Repr

def StoreWidth.bytes : StoreWidth → Nat
  | w32 => 4
  | w64 => 8

inductive Injected where
  | spill (reg : Register) (slot : SpillSlot)
  | restore (reg : Register) (slot : SpillSlot)
  | saveFlags (slot : SpillSlot)
  | restoreFlags (slot : SpillSlot)
  /-- `dst` becomes the effective address of `mem`. -/
  | loadAddress (dst : Register) (mem : MemoryOperand)
  /-- `dst` becomes the word of a thread-local field. -/
  | readField (dst : Register) (field : FieldIndex)
  | load (dst base : Register) (disp : Int32)
  | store (base : Register) (disp : Int32) (src : Register)
  | storeImmediate (base : Register) (disp : Int32) (value : Word) (width : StoreWidth)
  /-- `dst = base + index + disp`; the flags stay as they are. -/
  | sum (dst base : Register) (index : Option Register) (disp : Int32)
  /-- Sets the zero flag if the register is zero, and overwrites the other flags. -/
  | testZero (reg : Register)
  | jumpIfCounterZero (target : Label)
  | jumpIfZero (target : Label)
  | jump (target : Label)
  | label (l : Label)
  /-- `dst` becomes the code address of a label. -/
  | labelAddress (dst : Register) (l : Label)
  | jumpTo (target : Word)
  | jumpIndirect (reg : Register)
  /-- Calls a host routine; the registers and flags are kept over the call. -/
  | hostCall (routine : RoutineId)
deriving DecidableEq

end AccessTrace
