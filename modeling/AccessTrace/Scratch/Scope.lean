import AccessTrace.Scratch.Reservations

/-!
Scopes. All that a scope emits lands before its anchor, in the order of emission. Closing it
emits the restores of every register it holds, newest first, and of the flags; a scope that is
left without being closed emits them all the same.
-/

namespace AccessTrace

structure Scope extends Scratch where
  anchor : Handle
  isClosed : Bool

abbrev ScopeM := EStateM MachineError Scope

namespace Scope

/-- A scope before the node of `anchor`, with nothing reserved. -/
def openAt (listing : Listing) (anchor : Handle) : Scope :=
  ⟨⟨listing, .none⟩, anchor, false⟩

/-- Runs a step of reservation at the anchor of the scope. -/
def atAnchor {α : Type} (step : Handle → ScratchM α) : ScopeM α := fun s =>
  match step s.anchor s.toScratch with
  | .ok a scratch => .ok a { s with toScratch := scratch }
  | .error e scratch => .error e { s with toScratch := scratch }

def acquireFrom (wanted : RegisterClass) (allowed : RegisterSet) : ScopeM Register :=
  atAnchor fun anchor => Scratch.reserve anchor wanted allowed

def acquire (wanted : RegisterClass) : ScopeM Register :=
  acquireFrom wanted .full

def saveFlags : ScopeM Unit :=
  atAnchor Scratch.reserveFlags

def emit (i : Injected) : ScopeM Unit :=
  atAnchor fun anchor => discard (Scratch.insertBefore anchor i)

def newLabel : ScopeM Label :=
  atAnchor fun _ => modifyGet fun s =>
    let (l, listing) := s.listing.newLabel
    (l, { s with listing })

/-- Emits the restores; the first that fails ends it. -/
def close : ScopeM Unit := do
  modify fun s => { s with isClosed := true }
  let newestFirst := (← get).reservations.held.reverse.map (·.1)
  newestFirst.forM fun reg => atAnchor fun anchor => Scratch.release anchor reg
  atAnchor Scratch.releaseFlags

/-- The listing that a scope leaves behind, restores included even if it was never closed. -/
def leave (s : Scope) : Listing :=
  if s.isClosed then s.listing
  else
    match close s with
    | .ok _ s => s.listing
    | .error _ s => s.listing

/-- Runs `body` in a scope before `anchor` and leaves the scope, however `body` ends. -/
def within {α : Type} (anchor : Handle) (body : ScopeM α) : EStateM MachineError Listing α :=
  fun listing =>
    match body (openAt listing anchor) with
    | .ok a s => .ok a s.leave
    | .error e s => .error e s.leave

end Scope

end AccessTrace
