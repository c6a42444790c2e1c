import AccessTrace.Machine.Instruction

/-!
Which accesses of an instruction are recorded: its memory operands, sources before destinations,
each with the number of bytes it stands for.
-/

namespace AccessTrace

/-- A memory operand that is to be recorded. -/
structure Access where
  direction : Direction
  /-- The place of the operand among the sources of a read, or the destinations of a write. -/
  operandIndex : Nat
  mem : MemoryOperand
  size : Nat
deriving DecidableEq

namespace Instruction

/-- How many words `enter` pushes; only five bits of the nesting count. -/
def frameWords (i : Instruction) : Nat :=
  let nesting := ((i.sources[1]?.bind Operand.immediate?).getD 0).toUInt64 &&& 31
  nesting.toNat + 1

/-- How many bytes a memory operand of the instruction stands for. -/
def accessSize (i : Instruction) (mem : MemoryOperand) : Nat :=
  match i.opcode with
  | .enter => mem.size.bytes * i.frameWords
  | _ => mem.size.bytes

/-- The memory operands in a list, from index `first` on. -/
def accessesIn (i : Instruction) (direction : Direction) : (first : Nat) → List Operand → List Access
  | _, [] => []
  | first, op :: rest =>
    match op.memory? with
    | some mem => ⟨direction, first, mem, i.accessSize mem⟩ :: accessesIn i direction (first + 1) rest
    | none => accessesIn i direction (first + 1) rest

/-- The accesses to record, in the order of recording. -/
def accesses (i : Instruction) : List Access :=
  i.accessesIn .read 0 i.sources ++ i.accessesIn .write 0 i.destinations

end Instruction

end AccessTrace
