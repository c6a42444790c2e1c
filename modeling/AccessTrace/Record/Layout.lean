import AccessTrace.Bytes
import AccessTrace.Machine.Names

/-!
The layouts that injected code and the collector share: the record of one memory access, and the
header of a trace buffer. The offsets are part of the layout, since injected code stores to them
one by one.
-/

namespace AccessTrace

/-- One memory access. -/
structure Record where
  /-- Not zero for a write. -/
  isWrite : UInt32
  address : Word
  size : Word
  /-- The address of the instruction that made the access. -/
  origin : Word
deriving DecidableEq, Repr

namespace Record

def of (isWrite : Bool) (address size origin : Word) : Record :=
  ⟨if isWrite then 1 else 0, address, size, origin⟩

def direction (r : Record) : Direction :=
  .ofIsWrite (r.isWrite != 0)

/-- The length of a record in bytes. -/
def length : Nat := 32

def isWriteOffset : Nat := 0
def addressOffset : Nat := 8
def sizeOffset : Nat := 16
def originOffset : Nat := 24

/-- The bytes of a record; the four after the direction are padding and zero. -/
def toBytes (r : Record) : List UInt8 :=
  littleEndian 4 r.isWrite.toNat ++ littleEndian 4 0 ++ littleEndian 8 r.address.toNat ++
    littleEndian 8 r.size.toNat ++ littleEndian 8 r.origin.toNat

/-- The record at the start of the bytes, if there are enough of them; padding is ignored. -/
def ofBytes? (bytes : List UInt8) : Option Record :=
  if (bytes.take length).length < length then none
  else
    let word (offset count : Nat) : Nat := ofLittleEndian ((bytes.drop offset).take count)
    some ⟨UInt32.ofNat (word isWriteOffset 4), UInt64.ofNat (word addressOffset 8),
      UInt64.ofNat (word sizeOffset 8), UInt64.ofNat (word originOffset 8)⟩

/-- The first `count` records that the bytes hold. -/
def readMany : (count : Nat) → (bytes : List UInt8) → List Record
  | 0, _ => []
  | count + 1, bytes => (ofBytes? bytes).toList ++ readMany count (bytes.drop length)

@[simp] theorem length_toBytes (r : Record) : r.toBytes.length = length := by
  simp [toBytes, length]

end Record

/-- The header of a trace buffer. The end is kept negated, so that adding it to the cursor gives
zero exactly when the buffer is full. -/
structure BufferHeader where
  /-- Where the next record goes. -/
  cursor : Word
  /-- Where the first record goes. -/
  base : Word
  negatedEnd : Word
deriving DecidableEq, Repr

namespace BufferHeader

/-- The length of a header in bytes. -/
def length : Nat := 24

def cursorOffset : Nat := 0
def baseOffset : Nat := 8
def negatedEndOffset : Nat := 16

/-- The header of an empty buffer. -/
def forBuffer (base : Word) (capacity : Nat) : BufferHeader :=
  ⟨base, base, 0 - (base + UInt64.ofNat (capacity * Record.length))⟩

/-- One past the last byte of the buffer. -/
def stop (h : BufferHeader) : Word :=
  0 - h.negatedEnd

def isFull (h : BufferHeader) : Bool :=
  h.cursor + h.negatedEnd == 0

end BufferHeader

end AccessTrace
