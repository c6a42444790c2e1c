import AccessTrace.Host.Basic
import AccessTrace.Host.Program
import AccessTrace.Session.Error

/-!
Running a thread. A client sees the thread before its code runs, each instruction of a block when
the block is translated, and the thread again when it ends, even after a failure. Blocks are
translated once, on their first execution, and run from the cache after that.
-/

namespace AccessTrace

/-- Steps of a session on a running thread. -/
abbrev TraceM (δ ω : Type) := EStateM TraceError (Running δ ω)

/-- What a client does when the host calls it. -/
structure Client (δ ω : Type) where
  threadStart : TraceM δ ω Unit
  /-- Comes once for each application instruction of a block that is translated. -/
  instrument : Handle → EStateM TraceError (Listing × ω) Unit
  threadEnd : TraceM δ ω Unit
  /-- What the loss of a thread with its data does to the world. -/
  abandon : Thread δ → ω → ω

/-- What is left of a thread that ran to its end. -/
structure ThreadRun (δ : Type) where
  counts : Counts
  /-- How many blocks were translated. -/
  translated : Nat
  thread : Thread δ

/-- How far the execution of a program has come. -/
structure Progress where
  cache : CodeCache
  counts : Counts

namespace Host

variable {δ ω : Type}

/-- Maps regions for reading and writing. -/
def mapRegions (memory : AddressSpace) : List (Word × Nat) → Except MachineError AddressSpace
  | [] => .ok memory
  | (base, length) :: rest => do
    mapRegions (← memory.map base.toNat length .readWrite) rest

/-- Maps the images of shared code. -/
def mapShared (memory : AddressSpace) : List SharedCode → Except MachineError AddressSpace
  | [] => .ok memory
  | code :: rest => do
    mapShared (← memory.mapImage code.address code.image) rest

/-- A thread that is ready to start a program. -/
def prepare (h : Host δ ω) (id : ThreadId) (p : Program) : Except MachineError (Thread δ) := do
  let memory ← mapShared (.withLimit h.memoryLimit h.allocator) h.shared
  let memory ← mapRegions memory p.regions
  return p.registers.foldl (fun t r => t.setRegister r.1 r.2) (.create id memory)

/-- Shows the instructions under some handles to the client. -/
def instrumentAll (client : Client δ ω) : List Handle → EStateM TraceError (Listing × ω) Unit
  | [] => pure ()
  | handle :: rest => do
    client.instrument handle
    instrumentAll client rest

/-- The nodes of a block after the client has seen its instructions. -/
def translate (client : Client δ ω) (b : Block) : EStateM TraceError ω (List Node) := fun world =>
  let listing := Listing.ofInstructions b.instructions
  match instrumentAll client listing.appHandles (listing, world) with
  | .ok _ (listing, world) => .ok listing.nodes world
  | .error e (_, world) => .error e world

/-- Runs a step on the world outside of the thread. -/
def onWorld {α : Type} (step : EStateM TraceError ω α) : TraceM δ ω α := fun s =>
  match step s.world with
  | .ok a world => .ok a { s with world }
  | .error e world => .error e { s with world }

/-- The entry of a block, which is translated unless it has been already. -/
def blockEntry (client : Client δ ω) (cache : CodeCache) (b : Block) :
    TraceM δ ω (Nat × CodeCache) := do
  match cache.entry? b.tag with
  | some entry => return (entry, cache)
  | none => return cache.insertBlock b.tag (← onWorld (translate client b))

/-- Runs translated code from an address. -/
def runCode (h : Host δ ω) (cache : CodeCache) (entry : Nat) : TraceM δ ω Counts := fun s =>
  let cpu : Cpu δ ω := ⟨cache, h.routines, h.stepLimit⟩
  match cpu.run (UInt64.ofNat entry) s with
  | .ok counts s => .ok counts s
  | .error e s => .error (.machine e) s

def runBlocks (h : Host δ ω) (client : Client δ ω) : List Block → Progress → TraceM δ ω Progress
  | [], p => pure p
  | b :: rest, p => do
    let (entry, cache) ← blockEntry client p.cache b
    let counts ← h.runCode cache entry
    runBlocks h client rest ⟨cache, p.counts.add counts⟩

def runIterations (h : Host δ ω) (client : Client δ ω) (blocks : List Block) :
    (iterations : Nat) → Progress → TraceM δ ω Progress
  | 0, p => pure p
  | iterations + 1, p => do
    runIterations h client blocks iterations (← h.runBlocks client blocks p)

/-- A cache that holds nothing but shared code. -/
def sharedCache (h : Host δ ω) : CodeCache :=
  h.shared.foldl (fun cache code => cache.insertShared code.fragment) .empty

/-- Executes a program on a thread that is ready. -/
def execute (h : Host δ ω) (client : Client δ ω) (p : Program) : TraceM δ ω Progress :=
  h.runIterations client p.blocks p.iterations ⟨h.sharedCache, .zero⟩

/-- The end of a thread after the outcome of its execution: the client sees the thread in any
case, and a failure of the execution is reported before one of the client. -/
def finish (client : Client δ ω) (outcome : EStateM.Result TraceError (Running δ ω) Progress) :
    EStateM.Result TraceError (Running δ ω) Progress :=
  match outcome with
  | .ok p s =>
    match client.threadEnd s with
    | .ok _ s => .ok p s
    | .error e s => .error e s
  | .error e s =>
    match client.threadEnd s with
    | .ok _ s => .error e s
    | .error _ s => .error e s

/-- The life of a thread that is ready: start, execution, end. -/
def runReady (h : Host δ ω) (client : Client δ ω) (p : Program) : TraceM δ ω Progress := fun s =>
  match client.threadStart s with
  | .error e s => .error e s
  | .ok _ s => finish client (h.execute client p s)

/-- Runs a program as a thread of its own. A thread that fails is abandoned. -/
def runThread (h : Host δ ω) (client : Client δ ω) (id : ThreadId) (p : Program) :
    EStateM TraceError ω (ThreadRun δ) := fun world =>
  match h.prepare id p with
  | .error e => .error (.machine e) world
  | .ok thread =>
    match h.runReady client p ⟨thread, world⟩ with
    | .ok progress s => .ok ⟨progress.counts, progress.cache.blockCount, s.thread⟩ s.world
    | .error e s => .error e (client.abandon s.thread s.world)

end Host

end AccessTrace
