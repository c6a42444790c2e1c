import AccessTrace.Log.Format

/-!
Sinks. A writer puts bytes somewhere into a world `ω`; a sink writes batches of records through a
writer, each batch with a single write, so that batches of several threads never mix.
-/

namespace AccessTrace

structure Writer (ω : Type) where
  /-- Takes all bytes, or fails. -/
  write : List UInt8 → EStateM IoFailure ω Unit
  flush : EStateM IoFailure ω Unit
  /-- What giving up the writer without a flush does. -/
  abandon : ω → ω

structure Sink (ω : Type) where
  writeBatch : List Record → EStateM LogError ω Unit
  /-- Writes out what is held back; nothing is written after it. -/
  finish : EStateM LogError ω Unit
  abandon : ω → ω

namespace Writer

variable {ω : Type}

/-- Writes bytes unless there are none. -/
def writeAll (w : Writer ω) (bytes : List UInt8) : EStateM LogError ω Unit := fun world =>
  if bytes.isEmpty then .ok () world
  else
    match w.write bytes world with
    | .ok _ world => .ok () world
    | .error e world => .error (.writeFailed e) world

def finish (w : Writer ω) : EStateM LogError ω Unit := fun world =>
  match w.flush world with
  | .ok _ world => .ok () world
  | .error e world => .error (.writeFailed e) world

/-- The sink of a log in a format, without the header of the log. -/
def sink (w : Writer ω) (format : LogFormat) : Sink ω where
  writeBatch batch := w.writeAll (format.encode batch)
  finish := w.finish
  abandon := w.abandon

/-- Starts a log: writes its header and gives its sink. If the header fails the writer is given
up. -/
def startLog (w : Writer ω) (format : LogFormat) : EStateM LogError ω (Sink ω) := fun world =>
  match w.writeAll format.header world with
  | .ok _ world => .ok (w.sink format) world
  | .error e world => .error e (w.abandon world)

end Writer

/-- Where the logs of threads go. -/
structure LogTarget (ω : Type) where
  description : String
  /-- A directory that the logs need and that does not exist. -/
  missing? : ω → Option String
  /-- Starts the log of a thread. -/
  start : LogFormat → ThreadId → EStateM LogError ω (Sink ω)

end AccessTrace
