import AccessTrace.Command.Arguments
import AccessTrace.Log.Outputs
import AccessTrace.Log.Reader

/-!
The command: runs a built-in program on a number of threads under the tracer, shows the summary,
and on request exports it and checks the logs against it.
-/

namespace AccessTrace

/-- The name and version that the command shows. -/
def programTitle : String := "memtrace v0.1.0"

inductive CommandError where
  | init (cause : TraceError)
  | shutdown (cause : TraceError)
  | createFailed (path : String) (cause : IoFailure)
  | exportFailed (cause : ExportError)
  | threadsFailed (count : Nat) (first : String)
  | readBackFailed (path : String) (cause : LogError)
  | logMismatch (path : String) (held counted : Nat)
  | totalMismatch (traced executed : Nat)
deriving DecidableEq

/-- The failure of the system behind a failed export. -/
def ExportError.cause : ExportError → IoFailure
  | serialization cause => cause
  | io cause => cause

namespace CommandError

def message : CommandError → String
  | init cause => s!"Failed to initialize tracer: {cause.message}"
  | shutdown cause => s!"Session did not shut down cleanly: {cause.message}"
  | createFailed path cause => s!"Failed to create {path}: {cause.message}"
  | exportFailed cause => s!"Failed to export summary: {cause.message}: {cause.cause.message}"
  | threadsFailed count first => s!"{count} thread(s) failed; first: {first}"
  | readBackFailed path cause => s!"Failed to read back {path}: {cause.message}"
  | logMismatch path held counted =>
    s!"{path}: log holds {held} records, tracer counted {counted}"
  | totalMismatch traced executed =>
    s!"traced {traced} references, workload executed {executed}"

/-- Whether one text stands somewhere in another. -/
def isInfix (part : List Char) : List Char → Bool
  | [] => part.isEmpty
  | c :: rest => part.isPrefixOf (c :: rest) || isInfix part rest

/-- Two if the message speaks of an invalid configuration, in letters of any case, else one. -/
def exitCode (e : CommandError) : Nat :=
  if isInfix "invalid configuration".toList (e.message.toList.map Char.toLower) then 2 else 1

end CommandError

abbrev CommandM := EStateM CommandError Outputs

namespace Command

/-- Prints a line on standard output. -/
def print (line : String) : CommandM Unit :=
  modify fun o => { o with standardOutput := o.standardOutput.push (utf8 (line ++ "\n")) }

def destination (a : Arguments) : Destination :=
  if a.toStandardOutput then .standardOutput else .directory a.outputDirectory

def config (a : Arguments) : Config Outputs :=
  ⟨a.capacity, a.format, (destination a).target, !a.noCounterTest⟩

abbrev CommandHost := Tracer.TracerHost Outputs

/-- A host with the tracer of the session. -/
def start (a : Arguments) : CommandM (Tracer Outputs × CommandHost) := fun o =>
  match Tracer.init (Host.create true none Cpu.defaultStepLimit) (config a) o with
  | .ok started => .ok started o
  | .error e => .error (.init e) o

def banner (a : Arguments) (t : Tracer Outputs) : CommandM Unit := do
  print programTitle
  print s!"workload: {a.workload.title}, {a.threads} thread(s) x {a.iterations} iteration(s)"
  print s!"buffer: {a.capacity} records, overflow check: {t.injector.test.name}"
  print s!"logs: {a.outputDirectory} ({a.format.title})"

/-- Runs one thread; a failure is given as a text. -/
def runThread (t : Tracer Outputs) (h : CommandHost) (p : Program) (id : ThreadId)
    (session : Session Outputs) : Option String × Session Outputs :=
  match h.runThread t.client id p session with
  | .ok _ session => (none, session)
  | .error e session => (some s!"{id.text}: {e.message}", session)

/-- Runs `count` threads from number `first` on, and gives what the failed ones report. -/
def runThreads (t : Tracer Outputs) (h : CommandHost) (p : Program) :
    (count first : Nat) → Session Outputs → List String × Session Outputs
  | 0, _, session => ([], session)
  | count + 1, first, session =>
    let (failure, session) := runThread t h p ⟨UInt64.ofNat first⟩ session
    let (failures, session) := runThreads t h p count (first + 1) session
    (failure.toList ++ failures, session)

/-- Runs all threads and shuts the session down. -/
def trace (a : Arguments) (t : Tracer Outputs) (h : CommandHost) (p : Program) :
    CommandM (List String × Summary) := fun o =>
  let (failures, session) := runThreads t h p a.threads 1 ⟨.empty, o⟩
  match t.shutdown h session.totals with
  | .ok summary => .ok (failures, summary) session.world
  | .error e => .error (.shutdown e) session.world

/-- Exports the summary to a file. -/
def exportTo (path : String) (summary : Summary) : CommandM Unit := fun o =>
  match Outputs.createFile path o with
  | .error e o => .error (.createFailed path e) o
  | .ok writer o =>
    match summary.exportTo writer o with
    | .ok _ o => .ok () o
    | .error e o => .error (.exportFailed e) o

/-- Reads the log of a thread back and compares its length with what was counted. -/
def verifyLog (a : Arguments) (counted : ThreadTotals) : CommandM Unit := do
  let o ← get
  let path := joinPath a.outputDirectory (logFileName o.process counted.thread)
  match (o.files.read path).mapError LogError.io >>= a.format.read with
  | .error e => throw (.readBackFailed path e)
  | .ok records =>
    if counted.writeErrors = 0 ∧ records.length ≠ counted.records then
      throw (.logMismatch path records.length counted.records)

def verify (a : Arguments) (summary : Summary) (expected : Nat) : CommandM Unit := do
  summary.perThread.forM (verifyLog a)
  if summary.records ≠ expected then
    throw (.totalMismatch summary.records expected)

def body (a : Arguments) : CommandM Unit := do
  let (t, h) ← start a
  let p := a.workload.program a.iterations
  if !a.quiet && !a.toStandardOutput then
    banner a t
  let (failures, summary) ← trace a t h p
  print summary.text
  if let some path := a.exportPath then
    exportTo path summary
    if !a.quiet then
      print s!"export: {path}"
  if let first :: _ := failures then
    throw (.threadsFailed failures.length first)
  if a.verify then
    verify a summary (UInt64.ofNat p.memoryOperandCount * UInt64.ofNat a.threads).toNat
    if !a.quiet then
      print s!"verify: {summary.perThread.length} log(s) match"

/-- What a run of the command leaves behind. -/
structure Outcome where
  exitCode : Nat
  outputs : Outputs

def run (a : Arguments) (o : Outputs) : Outcome :=
  match body a o with
  | .ok _ o => ⟨0, o⟩
  | .error e o =>
    let line := utf8 s!"error: {e.message}\n"
    ⟨e.exitCode, { o with standardError := o.standardError.push line }⟩

end Command

end AccessTrace
