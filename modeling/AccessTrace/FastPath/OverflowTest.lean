import AccessTrace.Scratch.Scope

/-!
The test for a full buffer at the end of every fast path. It adds the negated end of the buffer
to the cursor and branches on a zero sum: either with a jump that tests the counter and leaves
the flags alone, or with a test that sets them, after the flags have been kept aside.
-/

namespace AccessTrace

structure OverflowTest where
  name : String
  /-- What the register of the cursor has to be. -/
  cursorClass : RegisterClass
  /-- Comes before any register is reserved. -/
  prepare : ScopeM Unit
  /-- Adds up, and branches to `divert` if the sum is zero and to `resume` otherwise. -/
  emit : (cursor negatedEnd : Register) → (divert resume : Label) → ScopeM Unit

namespace OverflowTest

def emitSum (cursor negatedEnd : Register) : ScopeM Unit :=
  Scope.emit (.sum cursor negatedEnd (some cursor) 0)

/-- Leaves the flags alone; the cursor has to be in the counter. -/
def counterZero : OverflowTest where
  name := "lea+jrcxz"
  cursorClass := .counter
  prepare := pure ()
  emit cursor negatedEnd divert resume := do
    if cursor ≠ .rcx then
      throw (.badOperand .counterNeeded)
    emitSum cursor negatedEnd
    Scope.emit (.jumpIfCounterZero divert)
    Scope.emit (.jump resume)

/-- Sets the flags, which are kept aside over the whole fast path. -/
def savedFlags : OverflowTest where
  name := "test+jz (flags saved)"
  cursorClass := .counter
  prepare := Scope.saveFlags
  emit cursor negatedEnd divert resume := do
    emitSum cursor negatedEnd
    Scope.emit (.testZero cursor)
    Scope.emit (.jumpIfZero divert)
    Scope.emit (.jump resume)

/-- The test that leaves the flags alone, if the host has it and the caller wants it. -/
def select (hostHasCounterTest wanted : Bool) : OverflowTest :=
  if hostHasCounterTest && wanted then counterZero else savedFlags

end OverflowTest

end AccessTrace
