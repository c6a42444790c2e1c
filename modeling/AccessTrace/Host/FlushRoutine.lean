import AccessTrace.FastPath.Injector
import AccessTrace.Host.Basic

/-!
The code that fast paths divert to when a buffer is full, one for a whole session: a host call,
and an indirect jump back through the resume register, which the host call leaves as it was.
-/

namespace AccessTrace

structure FlushRoutine where
  address : Nat
  /-- How many bytes its image has. -/
  length : Nat
deriving DecidableEq, Repr

namespace FlushRoutine

variable {δ ω : Type}

/-- How many bytes an image of the routine is made for. -/
def imageCapacity : Nat := 64

def body (flush : RoutineId) : List Injected :=
  [.hostCall flush, .jumpIndirect resumeRegister]

/-- The routine in a new image, which is not sealed yet. -/
def buildImage (flush : RoutineId) : Except MachineError CodeImage := do
  let bytes ← Injected.encodeAll (body flush)
  (← CodeImage.withCapacity imageCapacity).write bytes

/-- Builds the routine and installs it in the host. -/
def install (h : Host δ ω) (flush : RoutineId) : Except MachineError (FlushRoutine × Host δ ω) := do
  let image ← buildImage flush
  let (address, h) ← h.install image
  return (⟨address, image.bytes.length⟩, h)

end FlushRoutine

end AccessTrace
