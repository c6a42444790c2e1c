import AccessTrace.Machine.Error
import AccessTrace.Machine.Instruction

/-!
The listing of one block: application and injected instructions, each under a handle that keeps
its meaning while further instructions are inserted. Handles and labels are never issued twice.
-/

namespace AccessTrace

inductive Node where
  | app (i : Instruction)
  | injected (i : Injected)
deriving DecidableEq

namespace Node

def isApp : Node → Bool
  | app _ => true
  | injected _ => false

/-- Whether the node marks the place of a label. -/
def marks (l : Label) : Node → Bool
  | injected (.label placed) => placed == l
  | _ => false

end Node

structure Listing where
  entries : List (Handle × Node)
  nextHandle : Nat
  nextLabel : Nat
deriving DecidableEq

namespace Listing

def empty : Listing := ⟨[], 0, 0⟩

/-- Adds a node at the end. -/
def append (l : Listing) (node : Node) : Handle × Listing :=
  (⟨l.nextHandle⟩,
    { l with entries := l.entries ++ [(⟨l.nextHandle⟩, node)], nextHandle := l.nextHandle + 1 })

/-- The listing of a block before anything is injected. -/
def ofInstructions (block : List Instruction) : Listing :=
  block.foldl (fun l i => (l.append (.app i)).2) empty

/-- How many nodes stand before the one of this handle. -/
def position? (l : Listing) (handle : Handle) : Option Nat :=
  l.entries.findIdx? fun e => e.1 == handle

def node? (l : Listing) (handle : Handle) : Option Node :=
  (l.entries.find? fun e => e.1 == handle).map (·.2)

/-- Inserts an instruction immediately before the node of `anchor`. -/
def insertBefore (l : Listing) (anchor : Handle) (i : Injected) :
    Except MachineError (Handle × Listing) :=
  match l.position? anchor with
  | none => .error (.unknownHandle anchor)
  | some position =>
    .ok (⟨l.nextHandle⟩,
      { l with
        entries := l.entries.insertIdx position (⟨l.nextHandle⟩, .injected i)
        nextHandle := l.nextHandle + 1 })

def newLabel (l : Listing) : Label × Listing :=
  (⟨l.nextLabel⟩, { l with nextLabel := l.nextLabel + 1 })

/-- The handles of the application instructions, in order. -/
def appHandles (l : Listing) : List Handle :=
  (l.entries.filter fun e => e.2.isApp).map (·.1)

def nodes (l : Listing) : List Node :=
  l.entries.map (·.2)

def size (l : Listing) : Nat :=
  l.entries.length

end Listing

end AccessTrace
