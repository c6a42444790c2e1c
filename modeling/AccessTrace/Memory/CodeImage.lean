import AccessTrace.Machine.Error

/-!
Code images: page-granular room that is written to, then sealed, and never written to again.
-/

namespace AccessTrace

/-- The size of a page; allocations and images are rounded up to it. -/
def pageSize : Nat := 4096

def roundUpToPage (length : Nat) : Nat :=
  (length + (pageSize - 1)) / pageSize * pageSize

theorem le_roundUpToPage (length : Nat) : length ≤ roundUpToPage length := by
  unfold roundUpToPage pageSize
  omega

theorem dvd_roundUpToPage (length : Nat) : pageSize ∣ roundUpToPage length :=
  Nat.dvd_mul_left _ _

/-- No single piece of storage can be this large. -/
def storageBound : Nat := 0x800000000000

structure CodeImage where
  capacity : Nat
  bytes : List UInt8
  isSealed : Bool
deriving DecidableEq

namespace CodeImage

/-- An empty image with room for at least `capacity` bytes. -/
def withCapacity (capacity : Nat) : Except MachineError CodeImage :=
  let capacity := roundUpToPage (max capacity 1)
  if capacity < storageBound then .ok ⟨capacity, [], false⟩
  else .error (.mapping .systemRefused)

/-- Appends bytes to an image that is not sealed and has room for them. -/
def write (image : CodeImage) (bytes : List UInt8) : Except MachineError CodeImage :=
  if image.isSealed then .error (.mapping .imageSealed)
  else
    let length := image.bytes.length + bytes.length
    if image.capacity < length then .error (.outOfMemory length)
    else .ok { image with bytes := image.bytes ++ bytes }

/-- Makes the image executable and fixes its bytes. -/
def sealUp (image : CodeImage) : CodeImage :=
  { image with isSealed := true }

end CodeImage

end AccessTrace
