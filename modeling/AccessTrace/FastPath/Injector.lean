import AccessTrace.FastPath.Access
import AccessTrace.FastPath.OverflowTest
import AccessTrace.Record.Layout
import AccessTrace.Session.Error

/-!
Fast paths. In front of an instruction each of its accesses gets a sequence that appends one
record to the thread's buffer. The sequence takes the effective address while the registers still
are the application's, writes the record at the cursor, moves the cursor, and tests for a full
buffer. If it is full the sequence diverts to the flush routine, which comes back to the label
whose address the resume register holds.
-/

namespace AccessTrace

/-- The register that takes the resume address to the flush routine. -/
def resumeRegister : Register := .rcx

structure Injector where
  /-- The thread-local field that holds the address of the buffer header. -/
  field : FieldIndex
  /-- The code address of the flush routine. -/
  flushAddress : Word
  test : OverflowTest

namespace Injector

open Scope

/-- Stores one record for an access of the instruction at `pc`, through the cursor. -/
def emitRecord (j : Injector) (pc : Word) (access : Access) (cursor scratch : Register) :
    ScopeM Unit := do
  emit (.loadAddress scratch access.mem)
  emit (.readField cursor j.field)
  emit (.load cursor cursor (.ofNat BufferHeader.cursorOffset))
  let isWrite : Word := if access.direction.isWrite then 1 else 0
  emit (.storeImmediate cursor (.ofNat Record.isWriteOffset) isWrite .w32)
  emit (.store cursor (.ofNat Record.addressOffset) scratch)
  emit (.storeImmediate cursor (.ofNat Record.sizeOffset) (.ofNat access.size) .w64)
  emit (.storeImmediate cursor (.ofNat Record.originOffset) pc .w64)

/-- Moves the cursor behind the record, and loads the negated end of the buffer. -/
def emitAdvance (j : Injector) (cursor scratch : Register) : ScopeM Unit := do
  emit (.sum cursor cursor none (.ofNat Record.length))
  emit (.readField scratch j.field)
  emit (.store scratch (.ofNat BufferHeader.cursorOffset) cursor)
  emit (.load scratch scratch (.ofNat BufferHeader.negatedEndOffset))

/-- The way to the flush routine and back. -/
def emitDivert (j : Injector) (divert resume : Label) : ScopeM Unit := do
  emit (.label divert)
  emit (.labelAddress resumeRegister resume)
  emit (.jumpTo j.flushAddress)
  emit (.label resume)

/-- The whole fast path, from reservation to restores. -/
def emitBody (j : Injector) (pc : Word) (access : Access) (divert resume : Label) :
    ScopeM Unit := do
  j.test.prepare
  let cursor ← acquire j.test.cursorClass
  if cursor ≠ resumeRegister then
    throw (.registerTaken resumeRegister)
  let scratch ← acquire .any
  j.emitRecord pc access cursor scratch
  j.emitAdvance cursor scratch
  j.test.emit cursor scratch divert resume
  j.emitDivert divert resume
  close

/-- Takes a new label from a listing. -/
def newLabel : EStateM MachineError Listing Label :=
  modifyGet Listing.newLabel

/-- Inserts the fast path of one access before `anchor`. -/
def insertFastPath (j : Injector) (anchor : Handle) (pc : Word) (access : Access) :
    EStateM MachineError Listing Unit := do
  let divert ← newLabel
  let resume ← newLabel
  within anchor (j.emitBody pc access divert resume)

/-- Inserts the fast paths of the accesses in order; the first that fails ends it. -/
def insertFastPaths (j : Injector) (anchor : Handle) (pc : Word) :
    List Access → EStateM TraceError Listing Unit
  | [] => pure ()
  | access :: rest => fun listing =>
    match j.insertFastPath anchor pc access listing with
    | .ok _ listing => insertFastPaths j anchor pc rest listing
    | .error e listing => .error (.instrumentation pc e) listing

/-- Instruments the instruction under a handle and gives the number of fast paths. Injected
instructions, and those that do not come from the application, get none. -/
def instrument (j : Injector) (anchor : Handle) : EStateM TraceError Listing Nat := do
  match (← get).node? anchor with
  | none => throw (.machine (.unknownHandle anchor))
  | some (.injected _) => return 0
  | some (.app i) =>
    match i.address with
    | none => return 0
    | some pc =>
      j.insertFastPaths anchor pc i.accesses
      return i.accesses.length

end Injector

end AccessTrace
