import AccessTrace.Log.Sink
import AccessTrace.Record.Buffer
import AccessTrace.Session.Totals

/-!
The tracing of one thread. It begins without a buffer, becomes active when it gets a buffer and a
sink, and gives both up when it is finalized. A flush drains the buffer into the sink; a batch that
the sink does not take is counted and lost.

    uninitialized --activate--> active --flush--> flushing --> active
                                active --finalize--> finalizing --> closed
-/

namespace AccessTrace

structure TraceState (ω : Type) where
  thread : ThreadId
  phase : Phase
  buffer? : Option TraceBuffer
  sink? : Option (Sink ω)
  totals : ThreadTotals

/-- The totals of a session in a world that its logs are in. -/
structure Session (ω : Type) where
  totals : Totals
  world : ω

/-- Steps on a trace state, the memory that its buffer is in, and something outside of the
thread. -/
abbrev CollectM (ω σ : Type) := EStateM TraceError (TraceState ω × AddressSpace × σ)

namespace TraceState

variable {ω σ : Type}

def create (thread : ThreadId) : TraceState ω :=
  ⟨thread, .uninitialized, none, none, .start thread⟩

/-- Refuses a step that needs another phase. -/
def expect (s : TraceState ω) (expected : Phase) : Except TraceError Unit :=
  if s.phase = expected then .ok () else .error (.wrongPhase s.thread expected s.phase)

/-- Takes a buffer and a sink. -/
def activate (s : TraceState ω) (buffer : TraceBuffer) (sink : Sink ω) :
    Except TraceError (TraceState ω) := do
  s.expect .uninitialized
  return { s with phase := .active, buffer? := some buffer, sink? := some sink }

/-- Writes a batch and counts it. -/
def writeBatch (s : TraceState ω) (sink : Sink ω) (batch : List Record) (world : ω) :
    TraceState ω × ω :=
  match sink.writeBatch batch world with
  | .ok _ world => ({ s with totals := s.totals.count batch.length true }, world)
  | .error _ world => ({ s with totals := s.totals.count batch.length false }, world)

/-- Hands a batch to the sink, if there is one, and counts it. -/
def hand (s : TraceState ω) (batch : List Record) (world : ω) : TraceState ω × ω :=
  match s.sink? with
  | some sink => s.writeBatch sink batch world
  | none => ({ s with totals := s.totals.count batch.length true }, world)

/-- Drains the buffer into the sink and gives the number of records; no records, no batch. -/
def drainToSink : CollectM ω ω Nat := fun (s, memory, world) =>
  match s.buffer? with
  | none => .error (.notStarted s.thread) (s, memory, world)
  | some buffer =>
    match buffer.drain memory with
    | .error e memory => .error e (s, memory, world)
    | .ok batch memory =>
      if batch.isEmpty then .ok 0 (s, memory, world)
      else
        let (s, world) := s.hand batch world
        .ok batch.length (s, memory, world)

/-- Runs a step in one phase and goes on to another, whether the step succeeds or fails. -/
def during {α : Type} (phase next : Phase) (step : CollectM ω σ α) : CollectM ω σ α :=
  fun (s, rest) =>
    match step ({ s with phase }, rest) with
    | .ok a (s, rest) => .ok a ({ s with phase := next }, rest)
    | .error e (s, rest) => .error e ({ s with phase := next }, rest)

/-- Drains the buffer of an active state into its sink; the state is active again afterwards. -/
def flush : CollectM ω ω Nat := fun x =>
  match x.1.expect .active with
  | .ok _ => during .flushing .active drainToSink x
  | .error e => .error e x

/-- Closes a sink; what it cannot write out any more is lost. -/
def finishSink (sink : Sink ω) (world : ω) : ω :=
  match sink.finish world with
  | .ok _ world => world
  | .error _ world => world

/-- Runs a step on the world inside of a session. -/
def inSession {α : Type} (step : CollectM ω ω α) : CollectM ω (Session ω) α :=
  fun (s, memory, session) =>
    match step (s, memory, session.world) with
    | .ok a (s, memory, world) => .ok a (s, memory, { session with world })
    | .error e (s, memory, world) => .error e (s, memory, { session with world })

/-- Gives the storage of the buffer back, if there is one. -/
def releaseBuffer (s : TraceState ω) : MemoryM Unit :=
  match s.buffer? with
  | some buffer => buffer.release
  | none => pure ()

/-- Closes the sink, if there is one. -/
def closeSink (s : TraceState ω) (world : ω) : ω :=
  match s.sink? with
  | some sink => finishSink sink world
  | none => world

/-- Merges the counters and gives them, and gives buffer and sink up. A failed merge keeps neither;
it is reported before a buffer that cannot be given back. -/
def giveUp (lock : TotalsLock) : CollectM ω (Session ω) ThreadTotals :=
  fun (s, memory, session) =>
    let merged := lock.guard (session.totals.merge s.totals)
    let totals := merged.toOption.getD session.totals
    let session := ⟨totals, s.closeSink session.world⟩
    let empty := { s with buffer? := none, sink? := none }
    match merged, s.releaseBuffer memory with
    | .error e, .ok _ memory | .error e, .error _ memory => .error e (empty, memory, session)
    | .ok _, .error e memory => .error (.machine e) (empty, memory, session)
    | .ok _, .ok _ memory => .ok s.totals (empty, memory, session)

/-- The state is closed even if the merge fails or the buffer cannot be given back. -/
def close (lock : TotalsLock) : CollectM ω (Session ω) ThreadTotals :=
  during .finalizing .closed (giveUp lock)

/-- Flushes a last time, and closes the state if the flush succeeds. -/
def finalizeBehind (lock : TotalsLock) : CollectM ω (Session ω) ThreadTotals := do
  discard <| inSession flush
  close lock

/-- Finalizes a state while the lock is intact. -/
def finalize : CollectM ω (Session ω) ThreadTotals :=
  finalizeBehind .intact

/-- What the loss of a state does to the world: its sink is given up. -/
def abandon (s : TraceState ω) (world : ω) : ω :=
  match s.sink? with
  | some sink => sink.abandon world
  | none => world

end TraceState

end AccessTrace
