import AccessTrace.Log.FileStore

/-!
Where logs can go: one file for each thread, standard output, memory, or one stream in memory that
all threads share.
-/

namespace AccessTrace

/-- The writes of each thread, sorted by thread. -/
abbrev MemoryLogs := List (ThreadId × Array (List UInt8))

namespace MemoryLogs

/-- Adds a write to the log of a thread. -/
def push (thread : ThreadId) (bytes : List UInt8) : MemoryLogs → MemoryLogs
  | [] => [(thread, #[bytes])]
  | entry :: rest =>
    if entry.1.number < thread.number then entry :: push thread bytes rest
    else if entry.1 = thread then (thread, entry.2.push bytes) :: rest
    else (thread, #[bytes]) :: entry :: rest

/-- The writes of a thread. -/
def writes (logs : MemoryLogs) (thread : ThreadId) : List (List UInt8) :=
  ((logs.lookup thread).map Array.toList).getD []

/-- The bytes that a thread has written. -/
def contents? (logs : MemoryLogs) (thread : ThreadId) : Option (List UInt8) :=
  (logs.lookup thread).map fun writes => writes.toList.flatten

end MemoryLogs

/-- All that sessions write to. -/
structure Outputs where
  /-- The number of the process, which names of log files contain. -/
  process : Nat
  files : FileStore
  standardOutput : Array (List UInt8)
  standardError : Array (List UInt8)
  memory : MemoryLogs
  shared : Array (List UInt8)

/-- The name of the log file of a thread. -/
def logFileName (process : Nat) (thread : ThreadId) : String :=
  s!"memtrace.{process}.{thread.number.toNat}.log"

/-- The thread whose log file has a name. -/
def logThread? (process : Nat) (name : String) : Option ThreadId :=
  match Text.pieces '.' name.toList with
  | [_, _, number, _] => do
    let thread : ThreadId := ⟨← Text.readWord? 10 number⟩
    if name = logFileName process thread then some thread else none
  | _ => none

/-- The path of a name in a directory; a path from the root on stands for itself. -/
def joinPath (directory name : String) : String :=
  if directory.isEmpty ∨ FileStore.startsWithSlash name then name
  else if FileStore.endsInSlash directory then directory ++ name
  else directory ++ "/" ++ name

namespace Outputs

def ofFiles (process : Nat) (files : FileStore) : Outputs :=
  ⟨process, files, #[], #[], [], #[]⟩

/-- A writer that keeps every write and cannot fail. -/
def recording (record : List UInt8 → Outputs → Outputs) : Writer Outputs where
  write bytes := modify (record bytes)
  flush := pure ()
  abandon := id

def memoryWriter (thread : ThreadId) : Writer Outputs :=
  recording fun bytes o => { o with memory := o.memory.push thread bytes }

def sharedWriter : Writer Outputs :=
  recording fun bytes o => { o with shared := o.shared.push bytes }

def standardWriter : Writer Outputs :=
  recording fun bytes o => { o with standardOutput := o.standardOutput.push bytes }

def errorWriter : Writer Outputs :=
  recording fun bytes o => { o with standardError := o.standardError.push bytes }

/-- Runs a step on the files. -/
def onFiles {α : Type} (step : EStateM IoFailure FileStore α) : EStateM IoFailure Outputs α :=
  fun o =>
    match step o.files with
    | .ok a files => .ok a { o with files }
    | .error e files => .error e { o with files }

def fileWriter (number : Nat) : Writer Outputs where
  write bytes := onFiles ((FileStore.writer number).write bytes)
  flush := onFiles (FileStore.writer number).flush
  abandon o := { o with files := (FileStore.writer number).abandon o.files }

/-- Creates a file and gives its writer; the standard streams can be written to by their names. -/
def createFile (path : String) : EStateM IoFailure Outputs (Writer Outputs) := do
  match (← get).files.newFile? path with
  | .ok ["dev", "stdout"] => return standardWriter
  | .ok ["dev", "stderr"] => return errorWriter
  | _ => return fileWriter (← onFiles (FileStore.create path))

/-- Creates the log file of a thread and gives its writer. -/
def createLog (directory : String) (thread : ThreadId) : EStateM LogError Outputs (Writer Outputs) :=
  fun o =>
    let path := joinPath directory (logFileName o.process thread)
    match createFile path o with
    | .ok writer o => .ok writer o
    | .error e o => .error (.openFailed path e) o

/-- Puts a log before the first one that does not belong to a lower thread. -/
def insertLog (log : ThreadId × List UInt8) : List (ThreadId × List UInt8) → List (ThreadId × List UInt8)
  | [] => [log]
  | other :: rest =>
    if other.1.number < log.1.number then other :: insertLog log rest else log :: other :: rest

/-- The log of a file, if that lies in a directory and has the name of a log. -/
def logOf? (o : Outputs) (directory : Path) (file : Path) : Option (ThreadId × List UInt8) := do
  if file.dropLast ≠ directory then none
  let thread ← logThread? o.process (← file.getLast?)
  return (thread, ← o.files.contentsAt? file)

/-- The logs in a directory, sorted by thread. -/
def logsIn (o : Outputs) (directory : Path) : List (ThreadId × List UInt8) :=
  (o.files.files.filterMap fun f => o.logOf? directory f.1).foldr insertLog []

end Outputs

/-- The places for logs that can be named. -/
inductive Destination where
  | directory (path : String)
  | standardOutput
  | memory
  | shared
deriving DecidableEq, Repr

namespace Destination

def description : Destination → String
  | directory path => path
  | standardOutput => "stdout"
  | memory => "memory"
  | shared => "shared stream"

/-- The writer for the log of a thread. -/
def writer (d : Destination) (thread : ThreadId) : EStateM LogError Outputs (Writer Outputs) :=
  match d with
  | directory path => Outputs.createLog path thread
  | standardOutput => pure Outputs.standardWriter
  | memory => pure (Outputs.memoryWriter thread)
  | shared => pure Outputs.sharedWriter

def missing? (d : Destination) (o : Outputs) : Option String :=
  match d with
  | directory path => if o.files.isDirectory path then none else some path
  | _ => none

def target (d : Destination) : LogTarget Outputs where
  description := d.description
  missing? := d.missing?
  start format thread := do
    (← d.writer thread).startLog format

end Destination

end AccessTrace
