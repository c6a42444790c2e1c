import AccessTrace.Code.Listing

/-!
Reservations of scratch registers. A register is spilled before it is handed out and restored
when it is released; the flags can be kept aside in the same way. A step that fails keeps what
it had done up to the failure, a spill slot that it had taken included.
-/

namespace AccessTrace

/-- How many spill slots a thread has. -/
def spillSlotCount : Nat := 8

/-- The order in which free registers are handed out. The counter comes last, so that a request
for any register does not take it from a later request for the counter. -/
def preference : List Register :=
  [.rbx, .rdx, .rsi, .rdi, .r8, .r9, .r10, .r11, .r12, .r13, .r14, .r15, .rax, .rbp, .rcx]

structure Reservations where
  /-- The held registers and where their values are kept, oldest first. -/
  held : List (Register × SpillSlot)
  /-- Where the flags are kept. -/
  flags : Option SpillSlot
  slotsInUse : Vector Bool spillSlotCount
deriving DecidableEq

namespace Reservations

def none : Reservations := ⟨[], .none, Vector.replicate spillSlotCount false⟩

def isHeld (s : Reservations) (r : Register) : Bool :=
  s.held.any fun h => h.1 == r

/-- The number of the first spill slot that is not in use. -/
def freeSlot? (s : Reservations) : Option (Fin spillSlotCount) :=
  (List.finRange spillSlotCount).find? fun i => !s.slotsInUse[i]

def markSlot (s : Reservations) (slot : SpillSlot) (inUse : Bool) : Reservations :=
  { s with slotsInUse := s.slotsInUse.setIfInBounds slot.number.toNat inUse }

/-- Why a request cannot be met although no candidate is free. -/
def refusal (candidates : List Register) (wanted : RegisterClass) (position : Nat) :
    MachineError :=
  match candidates with
  | [only] => .registerTaken only
  | _ => .noFreeRegister wanted position

end Reservations

/-- A listing in the making together with the registers reserved in it. -/
structure Scratch where
  listing : Listing
  reservations : Reservations
deriving DecidableEq

abbrev ScratchM := EStateM MachineError Scratch

namespace Scratch

def takeSlot : ScratchM SpillSlot := do
  match (← get).reservations.freeSlot? with
  | some i =>
    let slot : SpillSlot := ⟨UInt8.ofNat i⟩
    modify fun s => { s with reservations := s.reservations.markSlot slot true }
    return slot
  | none => throw .noSpillSlot

def insertBefore (anchor : Handle) (i : Injected) : ScratchM Handle := do
  let s ← get
  match s.listing.insertBefore anchor i with
  | .ok (handle, listing) =>
    set { s with listing }
    return handle
  | .error e => throw e

/-- Reserves a register of a class out of an allowed set, and spills it before `anchor`. -/
def reserve (anchor : Handle) (wanted : RegisterClass) (allowed : RegisterSet) :
    ScratchM Register := do
  let s ← get
  let candidates := preference.filter fun r => wanted.admits r && allowed.contains r
  match candidates.find? fun r => !s.reservations.isHeld r with
  | none =>
    let position := (s.listing.position? anchor).getD 0
    throw (Reservations.refusal candidates wanted position)
  | some reg =>
    let slot ← takeSlot
    discard <| insertBefore anchor (.spill reg slot)
    modify fun s =>
      { s with reservations := { s.reservations with held := s.reservations.held ++ [(reg, slot)] } }
    return reg

/-- Restores a held register before `anchor` and gives it up. -/
def release (anchor : Handle) (reg : Register) : ScratchM Unit := do
  match (← get).reservations.held.lookup reg with
  | none => throw (.registerNotHeld reg)
  | some slot =>
    discard <| insertBefore anchor (.restore reg slot)
    modify fun s =>
      let held := s.reservations.held.eraseP fun h => h.1 == reg
      { s with reservations := { s.reservations with held }.markSlot slot false }

/-- Keeps the flags aside before `anchor`, unless they are already. -/
def reserveFlags (anchor : Handle) : ScratchM Unit := do
  match (← get).reservations.flags with
  | some _ => pure ()
  | none =>
    let slot ← takeSlot
    discard <| insertBefore anchor (.saveFlags slot)
    modify fun s => { s with reservations := { s.reservations with flags := some slot } }

/-- Restores the flags before `anchor` if they were kept aside. -/
def releaseFlags (anchor : Handle) : ScratchM Unit := do
  match (← get).reservations.flags with
  | none => pure ()
  | some slot =>
    discard <| insertBefore anchor (.restoreFlags slot)
    modify fun s =>
      { s with reservations := { s.reservations with flags := .none }.markSlot slot false }

end Scratch

end AccessTrace
