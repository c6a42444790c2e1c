import AccessTrace.Proofs.Host.SharedImages
import AccessTrace.Proofs.Host.Untraced

/-!
# The host as a straight-line interpreter

Neither the translation of blocks nor the cache, the addresses in it or the limit on steps can be
seen in the outcome of a program: with a client that inserts nothing, it is that of all instructions
of all blocks, one after the other. The client is shown each block that is entered once, however
often it is entered.
-/

namespace AccessTrace

open Instruction (executeAll)

namespace Block

variable {b : Block} {rest blocks : List Block} {g g' : Guest} {e : MachineError}

/-- The blocks that are entered from a state on: all up to the first that fails. -/
def entered : List Block → Guest → List Block
  | [], _ => []
  | b :: rest, g =>
    b :: match executeAll b.instructions g with
      | .ok _ g' => entered rest g'
      | .error _ _ => []

theorem entered_cons_ok (h : executeAll b.instructions g = .ok () g') :
    entered (b :: rest) g = b :: entered rest g' := by
  rw [entered, h]

theorem entered_cons_error (h : executeAll b.instructions g = .error e g') :
    entered (b :: rest) g = [b] := by
  rw [entered, h]

/-- Where no block fails, all are entered. -/
theorem entered_of_ok (h : executeAll (blocks.flatMap (·.instructions)) g = .ok () g') :
    entered blocks g = blocks := by
  induction blocks generalizing g with
  | nil => rfl
  | cons b rest ih =>
    rw [List.flatMap_cons] at h
    cases hb : executeAll b.instructions g with
    | ok _ g₁ =>
      rw [Instruction.executeAll_append_ok hb] at h
      rw [entered_cons_ok hb, ih h]
    | error e g₁ =>
      rw [Instruction.executeAll_append_error hb] at h
      contradiction

end Block

namespace Client

variable {δ ω : Type} (client : Client δ ω)

/-- What the client makes of the world when a thread starts. -/
def afterStart (thread : Thread δ) (world : ω) : ω :=
  (Step.final client.threadStart ⟨thread, world⟩).world

/-- What the client makes of the world when it is shown some blocks. -/
def afterBlocks (blocks : List Block) (world : ω) : ω :=
  (blocks.flatMap Block.calls).foldl client.shown world

/-- What the client makes of the world when a thread ends. -/
def afterEnd (thread : Thread δ) (world : ω) : ω :=
  (Step.final client.threadEnd ⟨thread, world⟩).world

theorem afterBlocks_append (xs ys : List Block) (world : ω) :
    client.afterBlocks (xs ++ ys) world = client.afterBlocks ys (client.afterBlocks xs world) := by
  rw [afterBlocks, List.flatMap_append, List.foldl_append]
  rfl

theorem afterBlocks_singleton (b : Block) (world : ω) :
    client.afterBlocks [b] world = b.calls.foldl client.shown world := by
  rw [afterBlocks, List.flatMap_singleton]

variable {client}

theorem Idle.threadStart_eq (hidle : client.Idle) (thread : Thread δ) (world : ω) :
    client.threadStart ⟨thread, world⟩ = .ok () ⟨thread, client.afterStart thread world⟩ := by
  obtain ⟨world', hstart⟩ := hidle.threadStart ⟨thread, world⟩
  rw [afterStart, Step.final_of_ok hstart, hstart]

theorem Idle.threadEnd_eq (hidle : client.Idle) (thread : Thread δ) (world : ω) :
    client.threadEnd ⟨thread, world⟩ = .ok () ⟨thread, client.afterEnd thread world⟩ := by
  obtain ⟨world', hend⟩ := hidle.threadEnd ⟨thread, world⟩
  rw [afterEnd, Step.final_of_ok hend, hend]

end Client

namespace CodeCache

/-- A block with a new tag is one more. -/
theorem blockCount_insertBlock {c : CodeCache} {tag : Word} (nodes : List Node)
    (hnew : c.entry? tag = none) : (c.insertBlock tag nodes).2.blockCount = c.blockCount + 1 := by
  have hkeep : c.entries.filter (·.1 != tag) = c.entries := by
    rw [List.filter_eq_self]
    intro entry hentry
    have hne := List.lookup_eq_none_iff.1 hnew entry hentry
    exact bne_iff_ne.2 fun heq => bne_iff_ne.1 hne heq.symm
  change ((tag, c.nextBase) :: c.entries.filter (·.1 != tag)).length = _
  rw [hkeep]
  rfl

end CodeCache

namespace Host

open CodeCache (blockFragment rooms)

variable {δ ω : Type} {h : Host δ ω} {client : Client δ ω} {all done rest : List Block} {b : Block}
  {c : CodeCache} {world : ω}

/-- A run stands behind the blocks `done` of the schedule `all`: those with a new tag have been
shown to the client, and are in the cache. -/
structure Stands (h : Host δ ω) (client : Client δ ω) (start : ω) (all done : List Block)
    (c : CodeCache) (world : ω) : Prop where
  serves : c.Serves h.shared plainCode all done
  count : c.blockCount = (Block.firsts done).length
  world : world = client.afterBlocks (Block.firsts done) start

variable {start : ω}

theorem stands_start (hh : h.Spaced) (client : Client δ ω) (start : ω) (all : List Block) :
    h.Stands client start all [] h.sharedCache start := by
  refine ⟨CodeCache.serves_sharedCache hh plainCode all, ?_, rfl⟩
  rw [CodeCache.blockCount, sharedCache, (CodeCache.foldl_insertShared_rest h.shared .empty).1]
  rfl

/-- The next block is found or translated, and can be run then. -/
theorem Stands.enter (hh : h.Spaced) (hidle : client.Idle)
    (hs : h.Stands client start (done ++ b :: rest) done c world)
    (hfits : blockAreaBase + rooms plainCode (Block.firsts (done ++ [b])) ≤ sharedCodeBase)
    (thread : Thread δ) :
    ∃ base c' world', blockEntry client c b ⟨thread, world⟩ = .ok (base, c') ⟨thread, world'⟩ ∧
      h.Stands client start (done ++ b :: rest) (done ++ [b]) c' world' ∧
      blockFragment plainCode base (b.resolvedIn (done ++ b :: rest)) ∈ c'.fragments ∧
      base + (blockFragment plainCode base (b.resolvedIn (done ++ b :: rest))).span ≤
        c'.nextBase := by
  by_cases hold : ∃ d ∈ done, d.tag = b.tag
  · have hfirsts := Block.firsts_concat_known hold
    obtain ⟨base, hentry, hserves, hplace⟩ := blockEntry_known hs.serves hold ⟨thread, world⟩
    refine ⟨base, c, world, hentry, ⟨hserves, ?_, ?_⟩, hplace⟩
    · rw [hfirsts, hs.count]
    · rw [hfirsts, ← hs.world]
  · have hnew : ∀ d ∈ done, d.tag ≠ b.tag := fun d hd heq => hold ⟨d, hd, heq⟩
    have hfirsts := Block.firsts_concat_new hnew
    obtain ⟨hentry, hserves, hplace⟩ := blockEntry_new hh hs.serves hnew hfits
      (s := ⟨thread, world⟩) (translate_idle hidle b world)
    refine ⟨_, _, _, hentry, ⟨hserves, ?_, ?_⟩, hplace⟩
    · rw [CodeCache.blockCount_insertBlock _ (hs.serves.missing b.tag hnew), hfirsts, hs.count,
        List.length_append, List.length_singleton]
    · rw [hfirsts, Client.afterBlocks_append, Client.afterBlocks_singleton, ← hs.world]

/-- The rest of a schedule is run as its instructions, up to the first that fails. -/
theorem Stands.runBlocks (hh : h.Spaced) (hidle : client.Idle)
    (hequal : ∀ x ∈ all, ∀ y ∈ all, x.tag = y.tag → x.instructions = y.instructions)
    (hlimit : ∀ b ∈ all, b.instructions.length ≤ h.stepLimit) (hall : done ++ rest = all)
    (thread : Thread δ) (hs : h.Stands client start all done c world)
    (hfits : blockAreaBase +
      rooms plainCode (Block.firsts (done ++ Block.entered rest thread.guest)) ≤ sharedCodeBase)
    (n : Nat) :
    let world' := client.afterBlocks (Block.firsts (done ++ Block.entered rest thread.guest)) start
    match executeAll (rest.flatMap (·.instructions)) thread.guest with
    | .ok _ guest => ∃ c', c'.blockCount = (Block.firsts all).length ∧
        h.runBlocks client rest ⟨c, ⟨n, 0, 0⟩⟩ ⟨thread, world⟩ =
          .ok ⟨c', ⟨n + (rest.flatMap (·.instructions)).length, 0, 0⟩⟩
            ⟨{ thread with guest }, world'⟩
    | .error e guest => h.runBlocks client rest ⟨c, ⟨n, 0, 0⟩⟩ ⟨thread, world⟩ =
        .error (.machine e) ⟨{ thread with guest }, world'⟩ := by
  -- On the blocks that are left; what those behind have done to cache and world is in `hs`.
  induction rest generalizing done c world thread n with
  | nil =>
    rw [List.append_nil] at hall
    subst hall
    refine ⟨c, hs.count, ?_⟩
    rw [Block.entered, List.append_nil, ← hs.world]
    rfl
  | cons b rest ih =>
    have hmem : b ∈ all := hall ▸ List.mem_append_right _ List.mem_cons_self
    have hfirst : blockAreaBase + rooms plainCode (Block.firsts (done ++ [b])) ≤ sharedCodeBase := by
      obtain ⟨tail, htail⟩ : ∃ tail, Block.entered (b :: rest) thread.guest = b :: tail := ⟨_, rfl⟩
      have hle := CodeCache.rooms_firsts_le plainCode (done ++ [b]) tail
      rw [← List.append_cons, ← htail] at hle
      omega
    subst hall
    obtain ⟨base, c', world', hentry, hs', hfragment, hbelow⟩ := hs.enter hh hidle hfirst thread
    -- What the cache holds for the tag are the instructions of this very block.
    have hinstructions := Block.instructions_resolvedIn hmem hequal
    have hend : c'.nextBase ≤ sharedCodeBase := hs'.serves.nextBase ▸ hfirst
    have hrun := runCode_of_limit hs'.serves hfragment hbelow hend
      (by rw [hinstructions]; exact hlimit b hmem) ⟨thread, world'⟩
    rw [hinstructions] at hrun
    rw [runBlocks_cons hentry, List.flatMap_cons]
    cases hb : executeAll b.instructions thread.guest with
    | error e guest =>
      rw [hb] at hrun
      rw [Instruction.executeAll_append_error hb, Block.entered_cons_error hb, ← hs'.world]
      exact Step.bind_of_error hrun
    | ok _ guest =>
      rw [hb] at hrun
      rw [Block.entered_cons_ok hb, List.append_cons] at hfits ⊢
      rw [Instruction.executeAll_append_ok hb, Step.bind_of_ok hrun, List.length_append,
        ← Nat.add_assoc]
      exact ih (List.append_cons done b rest).symm { thread with guest }
        hs' hfits (n + b.instructions.length)

/-! ## Whole threads -/

variable {p : Program} {id : ThreadId}

/-- A program without a host: the instructions of all blocks are executed one after the other, a
number of times over, up to the first that fails. The client sees the thread at both ends, and the
first block of every tag among those that are entered. -/
def straightLine (client : Client δ ω) (p : Program) (thread : Thread δ) (world : ω) :
    EStateM.Result TraceError ω (ThreadRun δ) :=
  let is := p.schedule.flatMap (·.instructions)
  let shown := Block.firsts (Block.entered p.schedule thread.guest)
  let world := client.afterBlocks shown (client.afterStart thread world)
  match executeAll is thread.guest with
  | .ok _ guest =>
    .ok ⟨⟨is.length, 0, 0⟩, shown.length, { thread with guest }⟩
      (client.afterEnd { thread with guest } world)
  | .error e guest =>
    .error (.machine e) (client.abandon { thread with guest }
      (client.afterEnd { thread with guest } world))

/-- The host cannot be told from a straight-line interpreter: the thread ends with the same
registers, flags, memory and number of instructions, or with the same error, and the client has
been called for each instruction of the first block of every tag that was entered, once. -/
theorem Built.runThread_straightLine (hh : h.Built) (hidle : client.Idle)
    (hequal : ∀ x ∈ p.blocks, ∀ y ∈ p.blocks, x.tag = y.tag → x.instructions = y.instructions)
    (hlimit : ∀ b ∈ p.blocks, b.instructions.length ≤ h.stepLimit) {thread : Thread δ}
    (hprepare : h.prepare id p = .ok thread)
    (hfits : blockAreaBase + rooms plainCode
      (Block.firsts (Block.entered p.schedule thread.guest)) ≤ sharedCodeBase) :
    h.runThread client id p world = straightLine client p thread world := by
  have hrun := (stands_start hh.spaced client (client.afterStart thread world) p.schedule).runBlocks
    hh.spaced hidle
    (fun x hx y hy => hequal x (Program.mem_of_mem_schedule hx) y (Program.mem_of_mem_schedule hy))
    (fun b hb => hlimit b (Program.mem_of_mem_schedule hb)) rfl thread hfits 0
  rw [← Counts.zero, ← execute_eq] at hrun
  unfold runThread runReady straightLine
  simp only [hprepare, hidle.threadStart_eq]
  cases hall : executeAll (p.schedule.flatMap (·.instructions)) thread.guest with
  | ok _ guest =>
    rw [hall] at hrun
    obtain ⟨c, hcount, hrun⟩ := hrun
    simp only [hrun, finish, hidle.threadEnd_eq, hcount, Block.entered_of_ok hall, List.nil_append,
      Nat.zero_add]
  | error e guest =>
    rw [hall] at hrun
    simp only [hrun, finish, hidle.threadEnd_eq, List.nil_append]

end Host

namespace Sample

open Host (Built straightLine)

/-- Writes down the handles that it is shown. -/
def observer : Client Unit (List Handle) where
  threadStart := pure ()
  instrument := fun handle => modify fun (listing, seen) => (listing, seen ++ [handle])
  threadEnd := pure ()
  abandon := fun _ seen => seen

theorem idle_observer : observer.Idle :=
  ⟨fun s => ⟨s.world, rfl⟩, fun handle _ seen => ⟨seen ++ [handle], rfl⟩, fun s => ⟨s.world, rfl⟩⟩

/-- The first block comes back after the second one. -/
def looped : Program where
  blocks := [⟨1, [.mov 1 (.register .rax) (.immediate 5), .nop 2]⟩, ⟨3, [.push 3 (.register .rax)]⟩,
    ⟨1, [.mov 1 (.register .rax) (.immediate 5), .nop 2]⟩]
  iterations := 3
  regions := [(0x10000000, 64)]
  registers := [(.rsp, 0x10000040)]

/-- Nine executions of two blocks, and each is shown to the client once. -/
theorem observed_once : ∃ thread,
    (Host.create true none 100 : Host Unit (List Handle)).prepare ⟨0⟩ looped = .ok thread ∧
    ∃ run, (Host.create true none 100).runThread observer ⟨0⟩ looped [] =
        .ok run [⟨0⟩, ⟨1⟩, ⟨0⟩] ∧
      run.counts = ⟨15, 0, 0⟩ ∧ run.translated = 2 ∧
      run.thread.guest.machine.get .rsp = 0x10000028 := by
  have hbuilt : (Host.create true none 100 : Host Unit (List Handle)).Built := .create ..
  refine ⟨_, rfl, ?_⟩
  rw [hbuilt.runThread_straightLine idle_observer (by decide) (by decide) rfl (by decide)]
  exact ⟨_, rfl, rfl, rfl, rfl⟩

end Sample

end AccessTrace
