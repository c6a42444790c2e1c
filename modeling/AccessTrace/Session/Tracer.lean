import AccessTrace.Host.FlushRoutine
import AccessTrace.Host.Run
import AccessTrace.Session.Summary
import AccessTrace.Session.TraceState

/-!
The tracer: the client that gives every thread a buffer and a log, puts fast paths in front of the
instructions that access memory, and drains the buffers. A session is set up once, follows its
threads from start to end, and is shut down to give a summary.
-/

namespace AccessTrace

structure Config (ω : Type) where
  /-- How many records the buffer of a thread holds. -/
  capacity : Nat
  format : LogFormat
  target : LogTarget ω
  /-- Whether to use the test that leaves the flags alone, where the host has it. -/
  prefersCounterTest : Bool

/-- A configuration needs a capacity, and the directory of its logs. -/
def Config.validate {ω : Type} (c : Config ω) (world : ω) : Except TraceError Unit :=
  if c.capacity = 0 then .error (.invalidConfig .noCapacity)
  else
    match c.target.missing? world with
    | some path => .error (.invalidConfig (.missingDirectory path))
    | none => .ok ()

/-- How many records a buffer holds if nothing else is asked for. -/
def defaultCapacity : Nat := 8192

/-- A step of a session on a running thread whose fields hold trace states. -/
abbrev SessionM (ω : Type) := TraceM (TraceState ω) (Session ω)

/-- Runs a step on the trace state in a field of the thread. -/
def onTraceState {ω α : Type} (field : FieldIndex) (step : CollectM ω (Session ω) α) :
    SessionM ω α := fun s =>
  match s.thread.fieldData? field with
  | none => .error (.notStarted s.thread.id) s
  | some state =>
    let put (state : TraceState ω) (memory : AddressSpace) : Thread (TraceState ω) :=
      (s.thread.setFieldData field state).setMemory memory
    match step (state, s.thread.guest.memory, s.world) with
    | .ok a (state, memory, world) => .ok a ⟨put state memory, world⟩
    | .error e (state, memory, world) => .error e ⟨put state memory, world⟩

/-- Flushes the buffer of a running thread. -/
def flushThread {ω : Type} (field : FieldIndex) : SessionM ω Nat :=
  onTraceState field (TraceState.inSession TraceState.flush)

/-- Ends the tracing of a running thread. -/
def finalizeThread {ω : Type} (field : FieldIndex) : SessionM ω ThreadTotals :=
  onTraceState field TraceState.finalize

/-- What a fast path calls when its buffer is full. -/
def flushRoutine {ω : Type} (field : FieldIndex) : Routine (TraceState ω) (Session ω) := fun s =>
  match flushThread field s with
  | .ok _ s => .ok () s
  | .error e s => .error (.routineFailed e.message) s

structure Tracer (ω : Type) where
  config : Config ω
  /-- The field that holds the trace state, and the address of the buffer header as its word. -/
  field : FieldIndex
  routine : FlushRoutine
  injector : Injector

namespace Tracer

variable {ω : Type}

abbrev TracerHost (ω : Type) := Host (TraceState ω) (Session ω)

/-- Registers with a host: a field, a routine, and the code that calls it. -/
def init (h : TracerHost ω) (config : Config ω) (world : ω) :
    Except TraceError (Tracer ω × TracerHost ω) := do
  config.validate world
  let (field, h) := h.registerField
  let (flush, h) := h.registerRoutine (flushRoutine field)
  let (routine, h) ← (FlushRoutine.install h flush).mapError .flushRoutine
  let test := OverflowTest.select h.hasCounterTest config.prefersCounterTest
  let injector : Injector := ⟨field, UInt64.ofNat routine.address, test⟩
  return (⟨config, field, routine, injector⟩, h)

/-- Gives the thread a buffer; a thread that gets none aborts the session. -/
def startBuffer (t : Tracer ω) : SessionM ω TraceBuffer := fun s =>
  match TraceBuffer.allocate t.config.capacity s.thread.guest.memory with
  | .ok buffer memory => .ok buffer { s with thread := s.thread.setMemory memory }
  | .error e memory =>
    let error := TraceError.bufferAllocation s.thread.id e
    let totals := s.world.totals.abort error.message
    .error error { s with thread := s.thread.setMemory memory, world := { s.world with totals } }

/-- Gives a buffer back for lack of a log. -/
def returnBuffer (buffer : TraceBuffer) (cause : TraceError) : SessionM ω Unit := fun s =>
  match buffer.release s.thread.guest.memory with
  | .ok _ memory => .error cause { s with thread := s.thread.setMemory memory }
  | .error e memory => .error (.machine e) { s with thread := s.thread.setMemory memory }

/-- Starts the tracing of the thread with a buffer and a sink. A trace state that was in the field
before is lost. -/
def startState (t : Tracer ω) (buffer : TraceBuffer) (sink : Sink ω) : SessionM ω Unit := fun s =>
  let thread := s.thread.setFieldWord t.field (UInt64.ofNat buffer.headerAddress)
  match (TraceState.create thread.id).activate buffer sink with
  | .error e => .error e { s with thread }
  | .ok state =>
    let world :=
      match thread.fieldData? t.field with
      | some lost => lost.abandon s.world.world
      | none => s.world.world
    .ok () ⟨thread.setFieldData t.field state, ⟨s.world.totals.register, world⟩⟩

/-- Starts the log of a thread that has a buffer, and with it the tracing. -/
def startLog (t : Tracer ω) (buffer : TraceBuffer) : SessionM ω Unit := fun s =>
  match t.config.target.start t.config.format s.thread.id s.world.world with
  | .ok sink world => t.startState buffer sink { s with world := { s.world with world } }
  | .error e world => returnBuffer buffer (.log e) { s with world := { s.world with world } }

def threadStart (t : Tracer ω) : SessionM ω Unit := do
  match (← get).world.totals.aborted with
  | some reason => throw (.aborted reason)
  | none => t.startLog (← t.startBuffer)

/-- Puts fast paths in front of an instruction. -/
def instrument (t : Tracer ω) (anchor : Handle) : EStateM TraceError (Listing × Session ω) Unit :=
  fun (listing, session) =>
    match t.injector.instrument anchor listing with
    | .ok _ listing => .ok () (listing, session)
    | .error e listing => .error e (listing, session)

def threadEnd (t : Tracer ω) : SessionM ω Unit :=
  discard (finalizeThread t.field)

/-- The trace state of a thread. -/
def traceState? (t : Tracer ω) (thread : Thread (TraceState ω)) : Option (TraceState ω) :=
  thread.fieldData? t.field

/-- What the loss of a thread does: the sink of its trace state is given up. -/
def abandon (t : Tracer ω) (thread : Thread (TraceState ω)) (session : Session ω) : Session ω :=
  match t.traceState? thread with
  | some state => { session with world := state.abandon session.world }
  | none => session

def client (t : Tracer ω) : Client (TraceState ω) (Session ω) :=
  ⟨t.threadStart, t.instrument, t.threadEnd, t.abandon⟩

/-- The summary of a session in which every started thread has ended. -/
def summary (t : Tracer ω) (totals : Totals) : Except TraceError Summary :=
  match totals.aborted with
  | some reason => .error (.aborted reason)
  | none =>
    if 0 < totals.unfinalized then .error (.unfinalized totals.unfinalized)
    else .ok (.ofTotals totals t.config.format t.config.capacity t.injector.test.name)

/-- Ends a session: takes the flush routine away from the host, reaches for the totals and sums
up. -/
def shutdownBehind (lock : TotalsLock) (t : Tracer ω) (h : TracerHost ω) (totals : Totals) :
    Except TraceError Summary :=
  match h.uninstall t.routine.address with
  | .error e => .error (.machine e)
  | .ok _ => lock.guard totals >>= t.summary

/-- Ends a session while the lock is intact. -/
def shutdown (t : Tracer ω) (h : TracerHost ω) (totals : Totals) : Except TraceError Summary :=
  shutdownBehind .intact t h totals

end Tracer

end AccessTrace
