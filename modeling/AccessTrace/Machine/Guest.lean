import AccessTrace.Machine.Instruction
import AccessTrace.Memory.AddressSpace

/-!
What application code can see of its thread: sixteen registers, three arithmetic flags, and
memory. `GuestM` runs steps on it; a step that fails leaves the guest as the failing step made
it.
-/

namespace AccessTrace

structure ArithmeticFlags where
  zero : Bool
  sign : Bool
  carry : Bool
deriving DecidableEq, Repr

namespace ArithmeticFlags

def clear : ArithmeticFlags := ⟨false, false, false⟩

/-- The flags in a word: carry is bit 0, zero bit 6, sign bit 7. -/
def toWord (f : ArithmeticFlags) : Word :=
  (if f.carry then 1 else 0) ||| (if f.zero then 64 else 0) ||| (if f.sign then 128 else 0)

/-- The flags that a word holds; its other bits are ignored. -/
def ofWord (w : Word) : ArithmeticFlags :=
  ⟨w &&& 64 != 0, w &&& 128 != 0, w &&& 1 != 0⟩

theorem ofWord_toWord (f : ArithmeticFlags) : ofWord f.toWord = f := by
  rcases f with ⟨_ | _, _ | _, _ | _⟩ <;> decide

end ArithmeticFlags

/-- The registers and flags of a thread. -/
structure MachineState where
  registers : Vector Word 16
  flags : ArithmeticFlags
deriving DecidableEq

namespace MachineState

def initial : MachineState :=
  ⟨Vector.replicate 16 0, .clear⟩

def get (m : MachineState) (r : Register) : Word :=
  m.registers[r.index]

def set (m : MachineState) (r : Register) (value : Word) : MachineState :=
  { m with registers := m.registers.set r.index value }

theorem get_set (m : MachineState) (r t : Register) (value : Word) :
    (m.set r value).get t = if r = t then value else m.get t := by
  by_cases h : r = t
  · subst h
    simp [get, set]
  · have hi : (r.index : Nat) ≠ t.index := fun e => h (Register.index_inj (Fin.ext e))
    simp [get, set, h, hi]

/-- The base and scaled index registers and the displacement, added with wrap-around. -/
def effectiveAddress (m : MachineState) (mem : MemoryOperand) : Word :=
  let base := (mem.base.map m.get).getD 0
  let index := (mem.index.map fun r => m.get r * mem.scale.toUInt64).getD 0
  base + index + mem.displacement.toUInt64

end MachineState

structure Guest where
  machine : MachineState
  memory : AddressSpace

abbrev GuestM := EStateM MachineError Guest

namespace Guest

/-- An all-or-nothing answer as a step that changes nothing when it fails. -/
def lift {α : Type} (answer : Except MachineError α) : GuestM α :=
  match answer with
  | .ok a => pure a
  | .error e => throw e

def register (r : Register) : GuestM Word :=
  return (← get).machine.get r

def setRegister (r : Register) (value : Word) : GuestM Unit :=
  modify fun g => { g with machine := g.machine.set r value }

def setFlags (flags : ArithmeticFlags) : GuestM Unit :=
  modify fun g => { g with machine := { g.machine with flags } }

def setMemory (memory : AddressSpace) : GuestM Unit :=
  modify fun g => { g with memory }

def load (address : Word) (width : Nat) : GuestM Word := do
  lift ((← get).memory.load address.toNat width)

def store (address : Word) (width : Nat) (value : Word) : GuestM Unit := do
  setMemory (← lift ((← get).memory.store address.toNat width value))

end Guest

end AccessTrace
