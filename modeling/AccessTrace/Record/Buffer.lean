import AccessTrace.Memory.AddressSpace
import AccessTrace.Record.Layout
import AccessTrace.Session.Error

/-!
The trace buffer of a thread. It lives in the thread's address space: a header, whose address
injected code finds in a thread-local field, and storage for `capacity` records. The records from
the base up to the cursor are pending. Steps that fail keep what they had done to memory.
-/

namespace AccessTrace

abbrev MemoryM := EStateM MachineError AddressSpace

namespace AddressSpace

/-- Replaces the memory by the answer of an all-or-nothing operation. -/
def step (operation : AddressSpace → Except MachineError AddressSpace) : MemoryM Unit := do
  match operation (← get) with
  | .ok memory => set memory
  | .error e => throw e

/-- Looks something up in memory. -/
def look {α : Type} (operation : AddressSpace → Except MachineError α) : MemoryM α := do
  match operation (← get) with
  | .ok a => return a
  | .error e => throw e

/-- Allocates on the heap. -/
def allocateM (length : Nat) (permissions : Permissions) : MemoryM Nat := do
  let (base, memory) ← look (·.allocate length permissions)
  set memory
  return base

end AddressSpace

structure TraceBuffer where
  headerAddress : Nat
  /-- Where the storage starts. -/
  base : Nat
  /-- How many records there is storage for. -/
  capacity : Nat
deriving DecidableEq, Repr

namespace TraceBuffer

open AddressSpace

/-- How many bytes of storage the buffer has. -/
def storageLength (b : TraceBuffer) : Nat :=
  b.capacity * Record.length

/-- One past the last byte of the storage. -/
def stop (b : TraceBuffer) : Nat :=
  b.base + b.storageLength

def cursorAddress (b : TraceBuffer) : Nat :=
  b.headerAddress + BufferHeader.cursorOffset

def writeHeader (b : TraceBuffer) (h : BufferHeader) : MemoryM Unit := do
  step (·.store b.cursorAddress 8 h.cursor)
  step (·.store (b.headerAddress + BufferHeader.baseOffset) 8 h.base)
  step (·.store (b.headerAddress + BufferHeader.negatedEndOffset) 8 h.negatedEnd)

/-- Allocates the storage, and gives the header back if there is no room. -/
def allocateStorage (headerAddress length : Nat) : MemoryM Nat := fun memory =>
  match allocateM length .readWrite memory with
  | .ok base memory => .ok base memory
  | .error e memory => (do step (·.unmap headerAddress); throw e : MemoryM Nat) memory

/-- Allocates and initializes header and storage. A buffer without storage is refused, and so is
one whose storage has a length of more than a word. -/
def allocate (capacity : Nat) : MemoryM TraceBuffer := do
  let length := capacity * Record.length
  if length = 0 ∨ addressBound ≤ length then
    throw (.outOfMemory (addressBound - 1))
  let headerAddress ← allocateM BufferHeader.length .readWrite
  let base ← allocateStorage headerAddress length
  let buffer : TraceBuffer := ⟨headerAddress, base, capacity⟩
  buffer.writeHeader (.forBuffer (UInt64.ofNat base) capacity)
  return buffer

def header (b : TraceBuffer) (memory : AddressSpace) : Except MachineError BufferHeader :=
  return ⟨← memory.load b.cursorAddress 8,
    ← memory.load (b.headerAddress + BufferHeader.baseOffset) 8,
    ← memory.load (b.headerAddress + BufferHeader.negatedEndOffset) 8⟩

def cursor (b : TraceBuffer) (memory : AddressSpace) : Except MachineError Word :=
  memory.load b.cursorAddress 8

def isFull (b : TraceBuffer) (memory : AddressSpace) : Except MachineError Bool :=
  (b.header memory).map (·.isFull)

/-- How many records are pending. The cursor has to stand at a record's place or at the end. -/
def pending (b : TraceBuffer) (memory : AddressSpace) : Except TraceError Nat := do
  let cursor := (← (b.cursor memory).mapError .machine).toNat
  if b.base ≤ cursor ∧ (cursor - b.base) % Record.length = 0 ∧ cursor ≤ b.stop then
    return (cursor - b.base) / Record.length
  else throw (.corruptBuffer cursor b.base b.stop)

/-- Writes a record at the cursor and moves the cursor behind it. There is no check for room. -/
def append (b : TraceBuffer) (r : Record) : MemoryM Unit := do
  let cursor ← look b.cursor
  step (·.write cursor.toNat r.toBytes)
  step (·.store b.cursorAddress 8 (cursor + UInt64.ofNat Record.length))

/-- Clears the storage and moves the cursor to the base. -/
def reset (b : TraceBuffer) : MemoryM Unit := do
  step (·.fill b.base b.storageLength 0)
  step (·.store b.cursorAddress 8 (UInt64.ofNat b.base))

/-- Takes all pending records out, oldest first, and resets the buffer. -/
def drain (b : TraceBuffer) : EStateM TraceError AddressSpace (List Record) := fun memory =>
  match b.pending memory with
  | .error e => .error e memory
  | .ok count =>
    match memory.read b.base (count * Record.length) with
    | .error e => .error (.machine e) memory
    | .ok bytes =>
      match b.reset memory with
      | .error e memory => .error (.machine e) memory
      | .ok _ memory => .ok (Record.readMany count bytes) memory

/-- Unmaps the storage, then the header. -/
def release (b : TraceBuffer) : MemoryM Unit := do
  step (·.unmap b.base)
  step (·.unmap b.headerAddress)

end TraceBuffer

end AccessTrace
