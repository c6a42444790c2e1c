import AccessTrace.Machine.Guest
import AccessTrace.Scratch.Reservations

/-!
A thread as the host keeps it: what its code sees, the spill slots, and the thread-local fields.
A field has a word that injected code can read, and may hold data of a client, of type `δ`.
-/

namespace AccessTrace

structure ThreadField (δ : Type) where
  word : Word
  data : Option δ

structure Thread (δ : Type) where
  id : ThreadId
  guest : Guest
  spill : Vector Word spillSlotCount
  fields : Array (ThreadField δ)

namespace Thread

variable {δ α : Type}

def create (id : ThreadId) (memory : AddressSpace) : Thread δ :=
  ⟨id, ⟨.initial, memory⟩, Vector.replicate spillSlotCount 0, #[]⟩

def setMemory (t : Thread δ) (memory : AddressSpace) : Thread δ :=
  { t with guest := { t.guest with memory } }

def setRegister (t : Thread δ) (r : Register) (value : Word) : Thread δ :=
  { t with guest := { t.guest with machine := t.guest.machine.set r value } }

def spilled (t : Thread δ) (slot : SpillSlot) : Except MachineError Word :=
  match t.spill[slot.number.toNat]? with
  | some value => .ok value
  | none => .error (.noSuchSpillSlot slot)

def setSpilled (t : Thread δ) (slot : SpillSlot) (value : Word) :
    Except MachineError (Thread δ) :=
  if slot.number.toNat < spillSlotCount then
    .ok { t with spill := t.spill.setIfInBounds slot.number.toNat value }
  else .error (.noSuchSpillSlot slot)

/-- The word of a field; a field that was never set, and has none set after it, has no word. -/
def fieldWord (t : Thread δ) (field : FieldIndex) : Except MachineError Word :=
  match t.fields[field.number]? with
  | some f => .ok f.word
  | none => .error (.noSuchField field)

/-- Changes a field, after adding empty fields up to it. -/
def modifyField (t : Thread δ) (field : FieldIndex) (change : ThreadField δ → ThreadField δ) :
    Thread δ :=
  let missing := field.number + 1 - t.fields.size
  let fields := t.fields ++ Array.replicate missing ⟨0, none⟩
  { t with fields := fields.modify field.number change }

def setFieldWord (t : Thread δ) (field : FieldIndex) (word : Word) : Thread δ :=
  t.modifyField field fun f => { f with word }

def setFieldData (t : Thread δ) (field : FieldIndex) (data : δ) : Thread δ :=
  t.modifyField field fun f => { f with data := some data }

/-- The data of a field. -/
def fieldData? (t : Thread δ) (field : FieldIndex) : Option δ :=
  t.fields[field.number]?.bind (·.data)

/-- Changes the data of a field, if the field has data that `view` accepts. -/
def changeData? (t : Thread δ) (field : FieldIndex) (view : δ → Option α) (change : α → δ) :
    Option (Thread δ) :=
  (t.fieldData? field).bind view |>.map fun a => t.setFieldData field (change a)

end Thread

end AccessTrace
