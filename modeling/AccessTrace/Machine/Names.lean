import AccessTrace.Text.Digits

/-!
Names for the things that a thread, its code and the instrumentation refer to by number. Each
kind of number has a type of its own, so one cannot stand in for another.
-/

namespace AccessTrace

/-- The number of an application thread. -/
structure ThreadId where
  number : Word
deriving DecidableEq, Repr

def ThreadId.text (id : ThreadId) : String :=
  s!"TID:{id.number.toNat}"

/-- A place where one register, or the flags, can be kept aside. -/
structure SpillSlot where
  number : UInt8
deriving DecidableEq, Repr

def SpillSlot.text (slot : SpillSlot) : String :=
  s!"slot#{slot.number.toNat}"

/-- A thread-local field that was registered with the host. -/
structure FieldIndex where
  number : Nat
deriving DecidableEq, Repr

/-- A host routine that injected code can call. -/
structure RoutineId where
  number : UInt32
deriving DecidableEq, Repr

/-- A branch target inside one block. -/
structure Label where
  number : Nat
deriving DecidableEq, Repr

def Label.text (l : Label) : String :=
  s!"L{l.number}"

/-- The name of an entry of a listing; it stays the same while the listing grows. -/
structure Handle where
  number : Nat
deriving DecidableEq, Repr

/-- Which way the bytes of a memory access go. -/
inductive Direction where
  | read
  | write
deriving DecidableEq, Repr

namespace Direction

def isWrite (d : Direction) : Bool :=
  d == .write

def ofIsWrite (isWrite : Bool) : Direction :=
  if isWrite then .write else .read

/-- The letter that stands for the direction in a text log. -/
def letter : Direction → Char
  | read => 'r'
  | write => 'w'

def word : Direction → String
  | read => "read"
  | write => "write"

end Direction

end AccessTrace
