import AccessTrace.Code.Cache
import AccessTrace.Machine.Execute
import AccessTrace.Machine.Thread

/-!
Execution of translated code. A run starts at a code address, executes one node after the other
and ends when control falls off the end of a fragment. The step limit is the measure that makes
every run end: a run that would execute more nodes than the limit is cut off.

Host routines act on the thread and on a world `ω` outside of it.
-/

namespace AccessTrace

/-- A thread at work in a world outside of it. -/
structure Running (δ ω : Type) where
  thread : Thread δ
  world : ω

abbrev RunM (δ ω : Type) := EStateM MachineError (Running δ ω)

/-- What a host call runs. -/
abbrev Routine (δ ω : Type) := RunM δ ω Unit

/-- How many instructions a run executed. Words of 64 bits that count the same are these numbers as
long as none of them reaches 2 ^ 64; of one run they are not more than its limit. -/
structure Counts where
  app : Nat
  injected : Nat
  hostCalls : Nat
deriving DecidableEq, Repr

namespace Counts

def zero : Counts := ⟨0, 0, 0⟩

def add (a b : Counts) : Counts :=
  ⟨a.app + b.app, a.injected + b.injected, a.hostCalls + b.hostCalls⟩

/-- Counts a node that is about to be executed. -/
def step (c : Counts) : Node → Counts
  | .app _ => { c with app := c.app + 1 }
  | .injected (.hostCall _) =>
    { c with injected := c.injected + 1, hostCalls := c.hostCalls + 1 }
  | .injected _ => { c with injected := c.injected + 1 }

end Counts

/-- Where control goes after a node. -/
inductive Flow where
  | next
  | goto (index : Nat)
  | transfer (address : Word)
deriving DecidableEq

structure Cpu (δ ω : Type) where
  cache : CodeCache
  routines : Array (Routine δ ω)
  stepLimit : Nat

namespace Cpu

variable {δ ω α : Type}

/-- The step limit of a host that sets no other. -/
def defaultStepLimit : Nat := 10000000

/-- Runs a step on what the application sees of the thread. -/
def onGuest (step : GuestM α) : RunM δ ω α := fun s =>
  match step s.thread.guest with
  | .ok a guest => .ok a { s with thread := { s.thread with guest } }
  | .error e guest => .error e { s with thread := { s.thread with guest } }

/-- An all-or-nothing answer as a step that changes nothing when it fails. -/
def lift (answer : Except MachineError α) : RunM δ ω α :=
  match answer with
  | .ok a => pure a
  | .error e => throw e

def spill (slot : SpillSlot) (value : Word) : RunM δ ω Unit := do
  let s ← get
  set { s with thread := ← lift (s.thread.setSpilled slot value) }

def spilled (slot : SpillSlot) : RunM δ ω Word := do
  lift ((← get).thread.spilled slot)

def machine : RunM δ ω MachineState :=
  return (← get).thread.guest.machine

/-- A register moved by a signed displacement. -/
def displaced (base : Register) (disp : Int32) : RunM δ ω Word :=
  return (← machine).get base + disp.toInt64.toUInt64

/-- Calls a routine. The registers and flags are as before the call, unless the routine fails. -/
def call (routines : Array (Routine δ ω)) (id : RoutineId) : RunM δ ω Unit := do
  let saved ← machine
  match routines[id.number.toNat]? with
  | none => throw (.unknownRoutine id)
  | some routine =>
    routine
    onGuest (modify fun g => { g with machine := saved })

def executeInjected (cpu : Cpu δ ω) (fragment : Fragment) (i : Injected) : RunM δ ω Flow := do
  match i with
  | .spill reg slot =>
    spill slot ((← machine).get reg)
    return .next
  | .restore reg slot =>
    let value ← spilled slot
    onGuest (Guest.setRegister reg value)
    return .next
  | .saveFlags slot =>
    spill slot (← machine).flags.toWord
    return .next
  | .restoreFlags slot =>
    let value ← spilled slot
    onGuest (Guest.setFlags (.ofWord value))
    return .next
  | .loadAddress dst mem =>
    let address := (← machine).effectiveAddress mem
    onGuest (Guest.setRegister dst address)
    return .next
  | .readField dst field =>
    let word ← lift ((← get).thread.fieldWord field)
    onGuest (Guest.setRegister dst word)
    return .next
  | .load dst base disp =>
    let address ← displaced base disp
    onGuest (do Guest.setRegister dst (← Guest.load address 8))
    return .next
  | .store base disp src =>
    let address ← displaced base disp
    onGuest (do Guest.store address 8 (← Guest.register src))
    return .next
  | .storeImmediate base disp value width =>
    let address ← displaced base disp
    onGuest (Guest.store address width.bytes value)
    return .next
  | .sum dst base index disp =>
    let address ← displaced base disp
    let offset := (index.map (← machine).get).getD 0
    onGuest (Guest.setRegister dst (address + offset))
    return .next
  | .testZero reg =>
    let value := (← machine).get reg
    onGuest (Guest.setFlags ⟨value == 0, value >>> 63 != 0, false⟩)
    return .next
  | .jumpIfCounterZero target =>
    if (← machine).get .rcx = 0 then
      return .goto (← lift (fragment.labelIndex target))
    else return .next
  | .jumpIfZero target =>
    if (← machine).flags.zero then
      return .goto (← lift (fragment.labelIndex target))
    else return .next
  | .jump target => return .goto (← lift (fragment.labelIndex target))
  | .label _ => return .next
  | .labelAddress dst l =>
    let index ← lift (fragment.labelIndex l)
    onGuest (Guest.setRegister dst (UInt64.ofNat (fragment.addressOf index)))
    return .next
  | .jumpTo target => return .transfer target
  | .jumpIndirect reg => return .transfer ((← machine).get reg)
  | .hostCall id =>
    call cpu.routines id
    return .next

def executeNode (cpu : Cpu δ ω) (fragment : Fragment) : Node → RunM δ ω Flow
  | .app i => do
    onGuest i.execute
    return .next
  | .injected i => cpu.executeInjected fragment i

/-- Executes nodes from an index of a fragment on, `remaining` of them at most. -/
def runFrom (cpu : Cpu δ ω) :
    (remaining : Nat) → Fragment → (index : Nat) → Counts → RunM δ ω Counts
  | remaining, fragment, index, counts =>
    match fragment.nodes[index]?, remaining with
    | none, _ => pure counts
    | some _, 0 => throw (.stepLimit cpu.stepLimit)
    | some node, remaining + 1 => do
      let counts := counts.step node
      match ← cpu.executeNode fragment node with
      | .next => runFrom cpu remaining fragment (index + 1) counts
      | .goto target => runFrom cpu remaining fragment target counts
      | .transfer address =>
        match cpu.cache.lookup address.toNat with
        | none => throw (.noCodeAt address)
        | some (fragment, index) => runFrom cpu remaining fragment index counts

/-- Runs from a code address until control falls off the end of a fragment. -/
def run (cpu : Cpu δ ω) (start : Word) : RunM δ ω Counts :=
  match cpu.cache.lookup start.toNat with
  | none => throw (.noCodeAt start)
  | some (fragment, index) => cpu.runFrom cpu.stepLimit fragment index .zero

end Cpu

end AccessTrace
