import AccessTrace.Log.Sink

/-!
Writers with a quota. A write that would take the kept bytes beyond the limit keeps nothing and
fails; a flush may be refused.
-/

namespace AccessTrace

structure Quota where
  limit : Option Nat
  refusesFlush : Bool
  kept : List UInt8
deriving DecidableEq

/-- Several writers' quotas, by number. -/
abbrev Quotas := Array Quota

namespace Quota

def fits (q : Quota) (bytes : List UInt8) : Bool :=
  q.limit.all fun limit => q.kept.length + bytes.length ≤ limit

def write (bytes : List UInt8) : EStateM IoFailure Quota Unit := do
  let q ← get
  if q.fits bytes then set { q with kept := q.kept ++ bytes }
  else throw .diskFull

def flush : EStateM IoFailure Quota Unit := do
  if (← get).refusesFlush then throw .flushRefused

/-- Runs a step on the quota of a number; without such a quota nothing happens. -/
def atIndex (i : Nat) (step : EStateM IoFailure Quota Unit) :
    EStateM IoFailure Quotas Unit := fun quotas =>
  match quotas[i]? with
  | none => .ok () quotas
  | some q =>
    match step q with
    | .ok _ q => .ok () (quotas.setIfInBounds i q)
    | .error e q => .error e (quotas.setIfInBounds i q)

/-- The writer to one of several quotas. -/
def writer (i : Nat) : Writer Quotas where
  write bytes := atIndex i (write bytes)
  flush := atIndex i flush
  abandon := id

/-- Adds a quota that nothing was written to, and gives the writer to it. -/
def addWriter (limit : Option Nat) (refusesFlush : Bool) (quotas : Quotas) :
    Writer Quotas × Quotas :=
  (writer quotas.size, quotas.push ⟨limit, refusesFlush, []⟩)

end Quota

end AccessTrace
