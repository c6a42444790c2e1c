import AccessTrace.Machine.Instruction

/-!
Programs: straight-line blocks that run in order, a number of times over, on data regions and
register values that are set up before the start.
-/

namespace AccessTrace

structure Block where
  /-- The application address of the first instruction; blocks with one tag are translated once. -/
  tag : Word
  instructions : List Instruction
deriving DecidableEq

structure Program where
  blocks : List Block
  iterations : Nat
  /-- Base and length of the regions to map for reading and writing. -/
  regions : List (Word × Nat)
  registers : List (Register × Word)
deriving DecidableEq

/-- How many memory operands the instructions of a program have. -/
def Program.operandsPerIteration (p : Program) : Nat :=
  (p.blocks.flatMap (·.instructions)).foldl (fun n i => n + i.memoryOperandCount) 0

/-- How many memory operands a whole run executes, as a product of words, which wraps around. -/
def Program.memoryOperandCount (p : Program) : Nat :=
  (UInt64.ofNat p.operandsPerIteration * UInt64.ofNat p.iterations).toNat

end AccessTrace
