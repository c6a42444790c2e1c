import AccessTrace.Host.Workload
import AccessTrace.Log.Format
import AccessTrace.Session.Tracer

/-!
The arguments of the command. A flag stands alone, an option has a value: in the same word or in
the next one, unless that looks like a flag or an option itself. The value of the next word is
only examined when the word after it is, so what is wrong with that word may come to light first.
-/

namespace AccessTrace

structure Arguments where
  capacity : Nat
  format : LogFormat
  outputDirectory : String
  toStandardOutput : Bool
  threads : Nat
  iterations : Nat
  workload : Workload
  noCounterTest : Bool
  exportPath : Option String
  verify : Bool
  quiet : Bool
deriving DecidableEq, Repr

inductive ArgumentError where
  | unknown
  /-- A value is missing, empty, or not one of the names that are allowed. -/
  | invalidValue
  | invalidNumber
  /-- Two arguments exclude each other, or one is given twice. -/
  | conflict
  /-- A flag has a value. -/
  | unneededValue
  | helpRequested
deriving DecidableEq, Repr

def ArgumentError.message : ArgumentError → String
  | unknown => "an argument is not known"
  | invalidValue => "a value is missing or not allowed"
  | invalidNumber => "a value is not a number"
  | conflict => "an argument excludes another one or is given twice"
  | unneededValue => "a flag has a value"
  | helpRequested => "help was asked for"

inductive Flag where
  | toStandardOutput
  | noCounterTest
  | verify
  | quiet
  | help
deriving DecidableEq, Repr

/-- The options, which have a value. -/
inductive Setting where
  | capacity
  | format
  | outputDirectory
  | threads
  | iterations
  | workload
  | exportPath
deriving DecidableEq, Repr

/-- What a name on the command line stands for. -/
inductive ArgumentName where
  | flag (f : Flag)
  | setting (s : Setting)
deriving DecidableEq, Repr

namespace ArgumentName

def ofLong? (name : String) : Option ArgumentName :=
  [("capacity", setting .capacity), ("format", setting .format),
    ("output-dir", setting .outputDirectory), ("stdout", flag .toStandardOutput),
    ("threads", setting .threads), ("iterations", setting .iterations),
    ("workload", setting .workload), ("no-flag-safe-test", flag .noCounterTest),
    ("export", setting .exportPath), ("verify", flag .verify), ("quiet", flag .quiet),
    ("help", flag .help)].lookup name

def ofShort? (letter : Char) : Option ArgumentName :=
  [('c', setting .capacity), ('f', setting .format), ('o', setting .outputDirectory),
    ('t', setting .threads), ('i', setting .iterations), ('w', setting .workload),
    ('q', flag .quiet), ('h', flag .help)].lookup letter

end ArgumentName

/-- What the command line has given so far. -/
structure Given where
  capacity : Option Nat
  format : Option LogFormat
  outputDirectory : Option String
  threads : Option Nat
  iterations : Option Nat
  workload : Option Workload
  exportPath : Option String
  flags : List Flag
deriving DecidableEq, Repr

namespace Given

def nothing : Given := ⟨none, none, none, none, none, none, none, []⟩

def number (value : String) : Except ArgumentError Nat :=
  match Text.readWord? 10 value.toList with
  | some n => .ok n.toNat
  | none => .error .invalidNumber

def path (value : String) : Except ArgumentError String :=
  if value.isEmpty then .error .invalidValue else .ok value

def named {α : Type} (ofName? : String → Option α) (value : String) : Except ArgumentError α :=
  match ofName? value with
  | some a => .ok a
  | none => .error .invalidValue

def formatOfName? (name : String) : Option LogFormat :=
  [LogFormat.text, LogFormat.binary].find? fun f => f.name == name

/-- Whether an option has a value already. -/
def has (g : Given) : Setting → Bool
  | .capacity => g.capacity.isSome
  | .format => g.format.isSome
  | .outputDirectory => g.outputDirectory.isSome
  | .threads => g.threads.isSome
  | .iterations => g.iterations.isSome
  | .workload => g.workload.isSome
  | .exportPath => g.exportPath.isSome

/-- Gives an option its value. -/
def assign (g : Given) (s : Setting) (value : String) : Except ArgumentError Given :=
  if g.has s then .error .conflict
  else
    match s with
    | .capacity => return { g with capacity := some (← number value) }
    | .format => return { g with format := some (← named formatOfName? value) }
    | .outputDirectory => return { g with outputDirectory := some (← path value) }
    | .threads => return { g with threads := some (← number value) }
    | .iterations => return { g with iterations := some (← number value) }
    | .workload => return { g with workload := some (← named Workload.ofName? value) }
    | .exportPath => return { g with exportPath := some (← path value) }

def raise (g : Given) (f : Flag) : Except ArgumentError Given :=
  if f = .help then .error .helpRequested
  else if g.flags.contains f then .error .conflict
  else .ok { g with flags := g.flags ++ [f] }

/-- All arguments, with the defaults for what was not given. -/
def complete (g : Given) : Arguments where
  capacity := g.capacity.getD defaultCapacity
  format := g.format.getD .text
  outputDirectory := g.outputDirectory.getD "."
  toStandardOutput := g.flags.contains .toStandardOutput
  threads := g.threads.getD 4
  iterations := g.iterations.getD 1000
  workload := g.workload.getD .copy
  noCounterTest := g.flags.contains .noCounterTest
  exportPath := g.exportPath
  verify := g.flags.contains .verify
  quiet := g.flags.contains .quiet

/-- Logs on standard output exclude a directory for them, and their verification. -/
def excludesItself (g : Given) : Bool :=
  g.flags.contains .toStandardOutput && (g.outputDirectory.isSome || g.flags.contains .verify)

end Given

/-- A command line that is read up to some word. -/
structure Reading where
  given : Given
  /-- The last option, and its value once that is there, if they are not examined yet. -/
  pending : Option (Setting × Option String)
  /-- Whether the word that ends flags and options has come. -/
  ended : Bool
deriving DecidableEq, Repr

namespace Reading

/-- Examines the pending option. -/
def settle (r : Reading) : Except ArgumentError Reading :=
  match r.pending with
  | none => .ok r
  | some (_, none) => .error .invalidValue
  | some (s, some value) => return { r with given := ← r.given.assign s value, pending := none }

def setting (r : Reading) (s : Setting) (value : Option String) : Except ArgumentError Reading := do
  let r ← r.settle
  match value with
  | some value => return { r with given := ← r.given.assign s value }
  | none => return { r with pending := some (s, none) }

def flag (r : Reading) (f : Flag) : Except ArgumentError Reading := do
  let r ← r.settle
  return { r with given := ← r.given.raise f }

/-- Reads a long name, and the value behind an equals sign. -/
def long (r : Reading) (word : List Char) : Except ArgumentError Reading :=
  let name := word.takeWhile (· != '=')
  let value := (word.drop name.length).tail?.map String.ofList
  match ArgumentName.ofLong? (String.ofList name), value with
  | none, _ => .error .unknown
  | some (.setting s), value => r.setting s value
  | some (.flag f), none => r.flag f
  | some (.flag _), some _ => .error .unneededValue

/-- The value behind a letter in the same word; an equals sign before it does not count. -/
def attached : List Char → Option String
  | [] => none
  | '=' :: value => some (String.ofList value)
  | value => some (String.ofList value)

/-- Reads letters, of which an option takes the rest of the word as its value. -/
def short (r : Reading) : List Char → Except ArgumentError Reading
  | [] => .ok r
  | letter :: rest =>
    match ArgumentName.ofShort? letter with
    | none => .error .unknown
    | some (.setting s) => r.setting s (attached rest)
    | some (.flag f) => do short (← r.flag f) rest

/-- Reads a word that is neither flag nor option: the value of the option before it. -/
def plain (r : Reading) (word : List Char) : Except ArgumentError Reading :=
  match r.pending with
  | some (s, none) => .ok { r with pending := some (s, some (String.ofList word)) }
  | _ => .error .unknown

def word (r : Reading) (w : List Char) : Except ArgumentError Reading :=
  if r.ended then .error .unknown
  else
    match w with
    | ['-', '-'] => .ok { r with ended := true }
    | '-' :: '-' :: name => r.long name
    | '-' :: letter :: letters => r.short (letter :: letters)
    | w => r.plain w

end Reading

/-- Reads the words of a command line. -/
def Arguments.parse (words : List String) : Except ArgumentError Arguments := do
  let r ← words.foldlM (fun r w => Reading.word r w.toList) ⟨.nothing, none, false⟩
  let r ← r.settle
  if r.given.excludesItself then throw .conflict
  return r.given.complete

end AccessTrace
