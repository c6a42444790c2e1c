import AccessTrace.Code.Cpu
import AccessTrace.Code.Encoding

/-!
The host: what is registered for a whole session before threads run. Thread-local fields and
routines are numbered in the order of registration; shared code is placed once and reachable at
the same address in every thread.
-/

namespace AccessTrace

/-- Where the first piece of shared code is placed. -/
def sharedCodeBase : Nat := 0x7fff00000000

/-- The distance between the addresses of shared code. -/
def sharedCodeSpan : Nat := 0x10000

structure SharedCode where
  address : Nat
  image : CodeImage
  fragment : Fragment

structure Host (δ ω : Type) where
  /-- Whether there is a zero test that leaves the flags alone. -/
  hasCounterTest : Bool
  routines : Array (Routine δ ω)
  /-- In the order of installation. -/
  shared : List SharedCode
  fieldCount : Nat
  /-- The most storage that the address space of a thread may take. -/
  memoryLimit : Option Nat
  /-- The most nodes that one run of a block may execute. -/
  stepLimit : Nat
  /-- Where the address spaces of threads have their storage from. -/
  allocator : Allocator

namespace Host

variable {δ ω : Type}

def create (hasCounterTest : Bool) (memoryLimit : Option Nat) (stepLimit : Nat)
    (allocator : Allocator := .generous) : Host δ ω :=
  ⟨hasCounterTest, #[], [], 0, memoryLimit, stepLimit, allocator⟩

def registerField (h : Host δ ω) : FieldIndex × Host δ ω :=
  (⟨h.fieldCount⟩, { h with fieldCount := h.fieldCount + 1 })

def registerRoutine (h : Host δ ω) (routine : Routine δ ω) : RoutineId × Host δ ω :=
  (⟨UInt32.ofNat h.routines.size⟩, { h with routines := h.routines.push routine })

/-- Where the next piece of shared code goes: behind the one installed last. -/
def nextSharedAddress (h : Host δ ω) : Nat :=
  match h.shared.getLast? with
  | some code => code.address + sharedCodeSpan
  | none => sharedCodeBase

/-- Seals an image and makes it reachable from every thread, if it holds instructions. -/
def install (h : Host δ ω) (image : CodeImage) : Except MachineError (Nat × Host δ ω) := do
  let instructions ← Injected.decode image.bytes
  let address := h.nextSharedAddress
  let fragment : Fragment := ⟨address, (instructions.map Node.injected).toArray⟩
  return (address, { h with shared := h.shared ++ [⟨address, image.sealUp, fragment⟩] })

/-- Takes the shared code at an address away from threads that are still to start. -/
def uninstall (h : Host δ ω) (address : Nat) : Except MachineError (Host δ ω) :=
  if h.shared.any (·.address == address) then
    .ok { h with shared := h.shared.eraseP (·.address == address) }
  else .error (.noRegionAt address)

/-- The bytes of the shared code at an address. -/
def sharedBytes? (h : Host δ ω) (address : Nat) : Option (List UInt8) :=
  (h.shared.find? (·.address == address)).map (·.image.bytes)

end Host

end AccessTrace
