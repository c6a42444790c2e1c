import AccessTrace.Log.Sink
import AccessTrace.Session.Totals
import AccessTrace.Text.Blank

/-!
The summary of a session, as a text for people and as an indented JSON document.
-/

namespace AccessTrace

structure Summary where
  records : Nat
  flushes : Nat
  writeErrors : Nat
  format : LogFormat
  /-- How many records each buffer held. -/
  capacity : Nat
  overflowTest : String
  /-- Sorted by thread; counters of one thread stay in the order of their merges. -/
  perThread : List ThreadTotals
deriving DecidableEq, Repr

namespace Summary

/-- Puts counters before the first ones that do not belong to a lower thread. -/
def insertByThread (t : ThreadTotals) : List ThreadTotals → List ThreadTotals
  | [] => [t]
  | u :: rest =>
    if u.thread.number < t.thread.number then u :: insertByThread t rest else t :: u :: rest

/-- Sorts by thread and keeps the order among the counters of one thread. -/
def sortByThread (ts : List ThreadTotals) : List ThreadTotals :=
  ts.foldr insertByThread []

def ofTotals (t : Totals) (format : LogFormat) (capacity : Nat) (overflowTest : String) :
    Summary :=
  ⟨t.records, t.flushes, t.writeErrors, format, capacity, overflowTest, sortByThread t.threads⟩

def text (s : Summary) : String :=
  s!"Instrumentation results:\n  saw {s.records} memory references"

/-- Lines between brackets, two columns further in than these. -/
def bracketed (indent : Nat) (opening closing : String) (items : List String) : String :=
  let margin := String.ofList (List.replicate indent ' ')
  if items.isEmpty then opening ++ closing
  else
    opening ++ "\n" ++ ",\n".intercalate (items.map fun item => margin ++ "  " ++ item) ++ "\n" ++
      margin ++ closing

/-- A JSON object whose values are given as text. -/
def object (indent : Nat) (fields : List (String × String)) : String :=
  bracketed indent "\x7b" "\x7d" (fields.map fun f => "\"" ++ f.1 ++ "\": " ++ f.2)

/-- A text between quotes; the texts of a summary hold nothing that would have to be escaped. -/
def quoted (text : String) : String :=
  "\"" ++ text ++ "\""

def threadJson (indent : Nat) (t : ThreadTotals) : String :=
  object indent [("thread", toString t.thread.number.toNat), ("records", toString t.records),
    ("flushes", toString t.flushes), ("write_errors", toString t.writeErrors)]

/-- The summary as a JSON document without a final newline. -/
def json (s : Summary) : String :=
  object 0 [("total_refs", toString s.records), ("threads", toString s.perThread.length),
    ("flushes", toString s.flushes), ("write_errors", toString s.writeErrors),
    ("format", quoted s.format.name), ("buffer_records", toString s.capacity),
    ("overflow_check", quoted s.overflowTest),
    ("per_thread", bracketed 2 "[" "]" (s.perThread.map (threadJson 4)))]

end Summary

inductive ExportError where
  | serialization (cause : IoFailure)
  | io (cause : IoFailure)
deriving DecidableEq, Repr

def ExportError.message : ExportError → String
  | serialization cause => s!"Failed to serialize summary: {cause.message}"
  | io cause => s!"Failed to write summary: {cause.message}"

namespace Summary

variable {ω : Type}

/-- Runs a step of a writer and gives its failures a place. -/
def exporting (place : IoFailure → ExportError) (step : EStateM IoFailure ω Unit) :
    EStateM ExportError ω Unit := fun world =>
  match step world with
  | .ok _ world => .ok () world
  | .error e world => .error (place e) world

/-- The pieces in which a document is written: its lines, each behind the line break before it. -/
def linePieces (document : String) : List String :=
  match Text.pieces '\n' document.toList with
  | [] => []
  | first :: rest => String.ofList first :: rest.map fun line => String.ofList ('\n' :: line)

/-- Writes the JSON document piece by piece, a newline, and whatever the writer holds back. So a
writer that holds back a document as a whole does not fail before the newline. -/
def exportTo (s : Summary) (w : Writer ω) : EStateM ExportError ω Unit := do
  exporting .serialization ((linePieces s.json).forM fun piece => w.write (utf8 piece))
  exporting .io (w.write (utf8 "\n"))
  exporting .io w.flush

end Summary

end AccessTrace
