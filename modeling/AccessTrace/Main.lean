import AccessTrace.Command.Run

/-!
The command as a program. It reads its arguments, looks which of the directories that they lead
through exist, runs the command on a store with these directories, and then writes out what the
run has left behind. All decisions are those of `Command.run`.
-/

namespace AccessTrace.CommandLine

def usage : String :=
  "Usage: memtrace [OPTIONS]\n\n" ++
  "  -c, --capacity <N>       records in the buffer of a thread [8192]\n" ++
  "  -f, --format <FORMAT>    format of the logs: text or binary [text]\n" ++
  "  -o, --output-dir <PATH>  directory of the logs [.]\n" ++
  "      --stdout             write the logs to standard output\n" ++
  "  -t, --threads <N>        threads to run [4]\n" ++
  "  -i, --iterations <N>     iterations of each thread [1000]\n" ++
  "  -w, --workload <NAME>    what to run: copy, stack or mixed [copy]\n" ++
  "      --no-flag-safe-test  do not use the test that leaves the flags alone\n" ++
  "      --export <PATH>      file for the summary as JSON\n" ++
  "      --verify             check the logs against the summary\n" ++
  "  -q, --quiet              show nothing but the summary\n" ++
  "  -h, --help               show this text\n"

/-- The number of this process, which is the first word of its status. -/
def processNumber : IO Nat := do
  let status ← IO.FS.readFile "/proc/self/stat"
  let word := ((Text.pieces ' ' status.toList).head?).getD []
  return (Text.readNat? 10 word).getD 0

/-- The places that a written path leads through if every directory on it is there. -/
def placesFrom (current : Path) : List String → List Path
  | [] => [current]
  | "." :: rest => placesFrom current rest
  | ".." :: rest => current :: placesFrom current.dropLast rest
  | name :: rest => current :: placesFrom (current ++ [name]) rest

def written (p : Path) : String :=
  "/" ++ "/".intercalate p

def isPresent (path : String) : IO Bool := do
  try
    discard <| IO.FS.realPath path
    return true
  catch _ => return false

def isDirectory (p : Path) : IO Bool :=
  isPresent (written p ++ "/.")

def isObstacle (p : Path) : IO Bool := do
  return (← isPresent (written p)) && !(← isDirectory p)

/-- A store with the working directory and those directories that the named paths lead through. A
file that stands in the way of a path is known to be none. -/
def storeOf (named : List String) : IO FileStore := do
  let workingDirectory := FileStore.componentsOf (← IO.currentDir).toString
  let origin (path : String) : Path := if FileStore.startsWithSlash path then [] else workingDirectory
  let ways := named.map fun path => placesFrom (origin path) (FileStore.componentsOf path)
  let places := (FileStore.ancestors workingDirectory ++ ways.flatten).eraseDups
  let obstacles ← (ways.flatMap List.dropLast).eraseDups.filterM isObstacle
  let store := FileStore.ofDirectories workingDirectory (← places.filterM isDirectory)
  return { store with files := store.files ++ obstacles.map fun p => (p, .null) }

/-- The paths that a run may follow. -/
def pathsOf (a : Arguments) : List String :=
  a.outputDirectory :: a.exportPath.toList

def writeBytes (bytes : List UInt8) : ByteArray :=
  ⟨bytes.toArray⟩

/-- Writes out the files and the texts that a run has left behind. -/
def writeOut (outcome : Command.Outcome) : IO Unit := do
  let files := outcome.outputs.files
  for (path, kind) in files.files do
    if let (.regular _, some bytes) := (kind, files.contentsAt? path) then
      IO.FS.writeBinFile (written path) (writeBytes bytes)
  let out ← IO.getStdout
  out.write (writeBytes outcome.outputs.standardOutput.toList.flatten)
  out.flush
  (← IO.getStderr).write (writeBytes outcome.outputs.standardError.toList.flatten)

def runWith (a : Arguments) : IO UInt32 := do
  let store ← storeOf (pathsOf a)
  let outcome := Command.run a (.ofFiles (← processNumber) store)
  writeOut outcome
  return UInt32.ofNat outcome.exitCode

/-- Runs the command on the words of a command line. -/
def run (words : List String) : IO UInt32 := do
  match Arguments.parse words with
  | .ok a => runWith a
  | .error .helpRequested =>
    IO.print usage
    return 0
  | .error e =>
    IO.eprintln s!"error: {e.message}\n\nFor more information, try '--help'."
    return 2

end AccessTrace.CommandLine

def main (words : List String) : IO UInt32 :=
  AccessTrace.CommandLine.run words
