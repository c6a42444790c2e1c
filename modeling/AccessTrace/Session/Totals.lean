import AccessTrace.Session.Error

/-!
Counters of one thread, and the totals of a session. A thread is counted when it starts and its
counters are merged once, when it ends. The first reason to abort a session is kept.

Counters are numbers without a bound. Where they are kept in words of 64 bits, they are these
numbers as long as none of them reaches 2 ^ 64.
-/

namespace AccessTrace

/-- What was drained from the buffer of one thread. -/
structure ThreadTotals where
  thread : ThreadId
  records : Nat
  /-- How many batches were drained. -/
  flushes : Nat
  /-- How many of the batches could not be written. -/
  writeErrors : Nat
deriving DecidableEq, Repr

namespace ThreadTotals

def start (thread : ThreadId) : ThreadTotals := ⟨thread, 0, 0, 0⟩

/-- Counts a batch of records. -/
def count (t : ThreadTotals) (records : Nat) (written : Bool) : ThreadTotals :=
  { t with
    records := t.records + records
    flushes := t.flushes + 1
    writeErrors := t.writeErrors + if written then 0 else 1 }

end ThreadTotals

structure Totals where
  records : Nat
  flushes : Nat
  writeErrors : Nat
  /-- How many threads have started. -/
  started : Nat
  /-- The counters of the threads that have ended, in the order of their ends. -/
  threads : List ThreadTotals
  /-- Why the session was aborted. -/
  aborted : Option String
deriving DecidableEq, Repr

namespace Totals

def empty : Totals := ⟨0, 0, 0, 0, [], none⟩

/-- Counts a thread that has started. -/
def register (t : Totals) : Totals :=
  { t with started := t.started + 1 }

/-- Aborts the session, unless it is aborted already. -/
def abort (t : Totals) (reason : String) : Totals :=
  { t with aborted := some (t.aborted.getD reason) }

/-- Adds the counters of a thread that has ended. -/
def merge (t : Totals) (thread : ThreadTotals) : Totals :=
  { t with
    records := t.records + thread.records
    flushes := t.flushes + thread.flushes
    writeErrors := t.writeErrors + thread.writeErrors
    threads := t.threads ++ [thread] }

/-- How many threads have started and not ended. -/
def unfinalized (t : Totals) : Nat :=
  t.started - t.threads.length

end Totals

/-- The lock that threads take to reach the totals. A thread that fails while it holds the lock
leaves it broken, and it answers with an error from then on. -/
inductive TotalsLock where
  | intact
  | broken (cause : TraceError)

namespace TotalsLock

/-- What is behind the lock, if that can be reached. -/
def guard {α : Type} (lock : TotalsLock) (a : α) : Except TraceError α :=
  match lock with
  | intact => .ok a
  | broken cause => .error cause

end TotalsLock

end AccessTrace
