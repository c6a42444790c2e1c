import AccessTrace.Bytes
import AccessTrace.Memory.Cells
import AccessTrace.Memory.CodeImage

/-!
The address space of a thread: regions sorted by base, each with permissions, backed by storage
of its own or by a sealed code image that threads share. An access has to lie in one region as a
whole; anything else is a fault. Every operation is all or nothing, so it returns either an
error or the new address space.
-/

namespace AccessTrace

structure Permissions where
  read : Bool
  write : Bool
  execute : Bool
deriving DecidableEq, Repr

namespace Permissions

def readWrite : Permissions := ⟨true, true, false⟩

def readExecute : Permissions := ⟨true, false, true⟩

end Permissions

/-- Where the bytes of a region are kept. -/
inductive Backing where
  | owned (storage : Storage)
  | image (image : CodeImage)

structure Region where
  base : Nat
  length : Nat
  permissions : Permissions
  backing : Backing

namespace Region

/-- One past the last address. -/
def stop (r : Region) : Nat :=
  r.base + r.length

/-- How many bytes of storage the region has for itself. -/
def ownedBytes (r : Region) : Nat :=
  match r.backing with
  | .owned storage => storage.size
  | .image _ => 0

def covers (r : Region) (address length : Nat) : Bool :=
  r.base ≤ address && address + length ≤ r.stop

/-- The bytes of a range that the region covers, if they are there and may be read. -/
def read? (r : Region) (address length : Nat) : Option (List UInt8) :=
  let start := address - r.base
  if !r.permissions.read then none
  else
    match r.backing with
    | .owned storage => some (storage.read start length)
    | .image image =>
      if start + length ≤ image.bytes.length then some ((image.bytes.drop start).take length)
      else none

/-- The region after a change to its storage, if it has storage that may be written to. -/
def change? (r : Region) (change : Storage → Storage) : Option Region :=
  match r.backing with
  | .owned storage =>
    if r.permissions.write then some { r with backing := .owned (change storage) } else none
  | .image _ => none

end Region

/-- Addresses end below this one. -/
def addressBound : Nat := 0x10000000000000000

/-- Where allocations without an address of their own start. -/
def heapBase : Nat := 0x700000000000

/-- Whether storage can be had, as the system answers it. -/
structure Allocator where
  /-- `grants owned length`: `length` more bytes can be had where `owned` bytes are in use. -/
  grants : Nat → Nat → Bool
  bounded : ∀ {owned length : Nat}, grants owned length = true → length < storageBound

/-- An allocator that grants whatever can be granted. -/
def Allocator.generous : Allocator where
  grants _ length := length < storageBound
  bounded h := of_decide_eq_true h

structure AddressSpace where
  /-- Sorted by base. -/
  regions : List Region
  /-- Where the next allocation goes. -/
  nextAllocation : Nat
  /-- Bytes of storage in mapped regions. -/
  ownedBytes : Nat
  /-- The most that `ownedBytes` may become. -/
  limit : Option Nat
  allocator : Allocator

namespace AddressSpace

def withLimit (limit : Option Nat) (allocator : Allocator := .generous) : AddressSpace :=
  ⟨[], heapBase, 0, limit, allocator⟩

def empty : AddressSpace :=
  withLimit none

/-- Whether a range meets a mapped region; its end stays below `addressBound`. -/
def overlaps (m : AddressSpace) (base length : Nat) : Bool :=
  m.regions.any fun r => base < r.stop && r.base < min (base + length) (addressBound - 1)

/-- Puts a region before the first one that does not start below it. -/
def insertSorted (region : Region) : List Region → List Region
  | [] => [region]
  | r :: rest => if r.base < region.base then r :: insertSorted region rest else region :: r :: rest

/-- Replaces the region that starts at `base`. -/
def replaceAt (base : Nat) (region : Region) : List Region → List Region
  | [] => []
  | r :: rest => if r.base = base then region :: rest else r :: replaceAt base region rest

/-- Whether `length` more bytes of storage can be had. -/
def hasRoom (m : AddressSpace) (length : Nat) : Bool :=
  (m.limit.all fun limit => m.ownedBytes + length ≤ limit) &&
    m.allocator.grants m.ownedBytes length

theorem lt_of_hasRoom {m : AddressSpace} {length : Nat} (h : m.hasRoom length = true) :
    length < storageBound := by
  simp only [hasRoom, Bool.and_eq_true] at h
  exact m.allocator.bounded h.2

/-- Maps `length` zeroed bytes at a fixed address. -/
def map (m : AddressSpace) (base length : Nat) (permissions : Permissions) :
    Except MachineError AddressSpace :=
  if length = 0 ∨ m.overlaps base length then .error (.mapping (.rangeRefused length base))
  else if !m.hasRoom length then .error (.outOfMemory length)
  else
    let region := ⟨base, length, permissions, .owned (.zeroed length)⟩
    .ok { m with
      regions := insertSorted region m.regions
      ownedBytes := m.ownedBytes + length }

/-- Maps `length` zeroed bytes on the heap, and leaves a page free behind them. -/
def allocate (m : AddressSpace) (length : Nat) (permissions : Permissions) :
    Except MachineError (Nat × AddressSpace) := do
  let base := m.nextAllocation
  let mapped ← m.map base length permissions
  return (base, { mapped with nextAllocation := base + roundUpToPage length + pageSize })

/-- Maps a sealed image; an empty one still takes one address. -/
def mapImage (m : AddressSpace) (base : Nat) (image : CodeImage) :
    Except MachineError AddressSpace :=
  let length := max image.bytes.length 1
  if !image.isSealed then .error (.mapping .imageNotSealed)
  else if m.overlaps base length then .error (.mapping (.imageOverlap base))
  else
    let region := ⟨base, length, .readExecute, .image image⟩
    .ok { m with regions := insertSorted region m.regions }

/-- The region that starts at `base`. -/
def regionAt? (m : AddressSpace) (base : Nat) : Option Region :=
  m.regions.find? fun r => r.base == base

/-- Removes the region that starts at `base`. -/
def unmap (m : AddressSpace) (base : Nat) : Except MachineError AddressSpace :=
  match m.regionAt? base with
  | none => .error (.noRegionAt base)
  | some r =>
    .ok { m with
      regions := m.regions.eraseP fun r => r.base == base
      ownedBytes := m.ownedBytes - r.ownedBytes }

/-- Changes the permissions of the region that starts at `base`. -/
def protect (m : AddressSpace) (base : Nat) (permissions : Permissions) :
    Except MachineError AddressSpace :=
  match m.regionAt? base with
  | none => .error (.noRegionAt base)
  | some r => .ok { m with regions := replaceAt base { r with permissions } m.regions }

def isMapped (m : AddressSpace) (address : Nat) : Bool :=
  m.regions.any fun r => r.base ≤ address && address < r.stop

/-- The region that covers a range. -/
def locate? (m : AddressSpace) (address length : Nat) : Option Region :=
  if address + length < addressBound then m.regions.find? (·.covers address length) else none

def read (m : AddressSpace) (address length : Nat) : Except MachineError (List UInt8) :=
  match (m.locate? address length).bind (·.read? address length) with
  | some bytes => .ok bytes
  | none => .error (.fault address length .read)

/-- Changes the storage under a range of `length` bytes; `change` is told where it starts. -/
def change (m : AddressSpace) (address length : Nat) (change : Nat → Storage → Storage) :
    Except MachineError AddressSpace :=
  match (m.locate? address length).bind fun r => r.change? (change (address - r.base)) with
  | some r => .ok { m with regions := replaceAt r.base r m.regions }
  | none => .error (.fault address length .write)

def write (m : AddressSpace) (address : Nat) (bytes : List UInt8) :
    Except MachineError AddressSpace :=
  m.change address bytes.length fun start storage => storage.write start bytes

def fill (m : AddressSpace) (address length : Nat) (byte : UInt8) :
    Except MachineError AddressSpace :=
  m.change address length fun start storage => storage.fill start length byte

/-- The widths of a scalar access. -/
def isScalarWidth (width : Nat) : Bool :=
  width == 1 || width == 2 || width == 4 || width == 8

/-- A little-endian load of 1, 2, 4 or 8 bytes. -/
def load (m : AddressSpace) (address width : Nat) : Except MachineError Word :=
  if isScalarWidth width then
    (m.read address width).map fun bytes => UInt64.ofNat (ofLittleEndian bytes)
  else .error (.badOperand .scalarLoad)

/-- A little-endian store of the low 1, 2, 4 or 8 bytes of a word. -/
def store (m : AddressSpace) (address width : Nat) (value : Word) :
    Except MachineError AddressSpace :=
  if isScalarWidth width then m.write address (littleEndian width value.toNat)
  else .error (.badOperand .scalarStore)

end AddressSpace

end AccessTrace
