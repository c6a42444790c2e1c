import AccessTrace.Log.Error
import AccessTrace.Machine.Error

/-!
What can go wrong in a tracing session, by cause, with the message of each cause.
-/

namespace AccessTrace

/-- How far the tracing of one thread has come. -/
inductive Phase where
  | uninitialized
  | active
  | flushing
  | finalizing
  | closed
deriving DecidableEq, Repr

def Phase.name : Phase → String
  | uninitialized => "Uninitialized"
  | active => "Active"
  | flushing => "Flushing"
  | finalizing => "Finalizing"
  | closed => "Closed"

/-- What is wrong with a configuration. -/
inductive ConfigProblem where
  | noCapacity
  | missingDirectory (path : String)
  /-- A client does not accept what it was asked to do. -/
  | refused (what : String)
deriving DecidableEq, Repr

def ConfigProblem.message : ConfigProblem → String
  | noCapacity => "buffer capacity must be at least one record"
  | missingDirectory path => s!"output directory {path} does not exist"
  | refused what => s!"{what} refused"

inductive TraceError where
  | bufferAllocation (thread : ThreadId) (cause : MachineError)
  | flushRoutine (cause : MachineError)
  /-- No fast path could be put in front of the instruction at `pc`. -/
  | instrumentation (pc : Word) (cause : MachineError)
  | wrongPhase (thread : ThreadId) (expected actual : Phase)
  | notStarted (thread : ThreadId)
  | corruptBuffer (cursor base stop : Nat)
  /-- This many threads were started and never finalized. -/
  | unfinalized (count : Nat)
  | aborted (reason : String)
  | invalidConfig (problem : ConfigProblem)
  | machine (cause : MachineError)
  | log (cause : LogError)
deriving DecidableEq

def TraceError.message : TraceError → String
  | bufferAllocation thread cause =>
    s!"Failed to allocate trace buffer for {thread.text}: {cause.message}"
  | flushRoutine cause => s!"Failed to build flush trampoline: {cause.message}"
  | instrumentation pc cause =>
    s!"Cannot instrument instruction at {Text.hexPadded pc}: {cause.message}"
  | wrongPhase thread expected actual =>
    s!"Thread {thread.text} is {actual.name}, expected {expected.name}"
  | notStarted thread => s!"Thread {thread.text} has no trace state"
  | corruptBuffer cursor base stop =>
    s!"Trace buffer cursor {Text.hex cursor} outside [{Text.hex base}, {Text.hex stop}]"
  | unfinalized count => s!"{count} thread(s) never reached finalize"
  | aborted reason => s!"Session aborted: {reason}"
  | invalidConfig problem => s!"Invalid configuration: {problem.message}"
  | machine cause => cause.message
  | log cause => cause.message

end AccessTrace
