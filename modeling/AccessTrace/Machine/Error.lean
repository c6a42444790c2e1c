import AccessTrace.Machine.Injected.Text

/-!
What the machine and the instrumentation host refuse, by cause, and the message of each cause.
-/

namespace AccessTrace

/-- Why a range or an image was not mapped, or an image not written. -/
inductive MappingProblem where
  /-- The range is empty or meets a mapped region. -/
  | rangeRefused (length base : Nat)
  | imageNotSealed
  | imageOverlap (base : Nat)
  | imageSealed
  /-- The system has no room for the image. -/
  | systemRefused
deriving DecidableEq

def MappingProblem.message : MappingProblem → String
  | rangeRefused length base => s!"cannot map {length} bytes at {Text.hex base}"
  | imageNotSealed => "image is not sealed"
  | imageOverlap base => s!"image overlaps at {Text.hex base}"
  | imageSealed => "image is sealed"
  | systemRefused => "Cannot allocate memory (os error 12)"

/-- Which operand could not be used. -/
inductive OperandProblem where
  | scalarLoad
  | scalarStore
  | regionAsScalar
  | immediateDestination
  /-- The instruction of this name lacks an operand, or has one of the wrong form. -/
  | missing (instruction : String)
  | counterNeeded
deriving DecidableEq

def OperandProblem.message : OperandProblem → String
  | scalarLoad => "scalar load"
  | scalarStore => "scalar store"
  | regionAsScalar => "region operand used as scalar"
  | immediateDestination => "immediate destination"
  | missing instruction => instruction
  | counterNeeded => "jump-if-rcx-zero needs the cursor in rcx"

inductive MachineError where
  | outOfMemory (length : Nat)
  | fault (address length : Nat) (access : Direction)
  | noRegionAt (base : Nat)
  | noFreeRegister (wanted : RegisterClass) (position : Nat)
  /-- The only register that would do is held already, or is not the one needed. -/
  | registerTaken (reg : Register)
  | registerNotHeld (reg : Register)
  | noSpillSlot
  | noSuchSpillSlot (slot : SpillSlot)
  | noSuchField (field : FieldIndex)
  | unknownLabel (l : Label)
  | unknownHandle (handle : Handle)
  | noCodeAt (address : Word)
  | unknownRoutine (routine : RoutineId)
  | badOperand (problem : OperandProblem)
  | unencodable (i : Injected)
  | malformedImage (offset : Nat)
  | mapping (problem : MappingProblem)
  | stepLimit (limit : Nat)
  | routineFailed (message : String)
deriving DecidableEq

def MachineError.message : MachineError → String
  | outOfMemory length => s!"Out of memory: cannot allocate {length} bytes"
  | fault address length access =>
    s!"Memory fault at {Text.hex address} ({length} bytes, {access.word})"
  | noRegionAt base => s!"No mapped region starts at {Text.hex base}"
  | noFreeRegister wanted position =>
    s!"No free register of class {wanted.name} at instruction {position}"
  | registerTaken reg => s!"Register {reg.name} is already reserved"
  | registerNotHeld reg => s!"Register {reg.name} is not reserved"
  | noSpillSlot => "All spill slots are in use"
  | noSuchSpillSlot slot => s!"Spill slot {slot.text} is out of range"
  | noSuchField field => s!"TLS field {field.number} is not registered"
  | unknownLabel l => s!"Unknown label {l.number}"
  | unknownHandle handle => s!"Instruction handle {handle.number} is not in the list"
  | noCodeAt address => s!"No code at address {Text.hex address.toNat}"
  | unknownRoutine routine => s!"Clean-call target {routine.number.toNat} is not registered"
  | badOperand problem => s!"Unsupported operand for {problem.message}"
  | unencodable i => s!"Instruction cannot be encoded into a shared image: {i.text}"
  | malformedImage offset => s!"Malformed code image at byte {offset}"
  | mapping problem => s!"Executable mapping failed: {problem.message}"
  | stepLimit limit => s!"Execution exceeded {limit} steps"
  | routineFailed message => s!"Clean call failed: {message}"

end AccessTrace
