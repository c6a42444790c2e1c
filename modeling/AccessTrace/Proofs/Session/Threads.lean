import AccessTrace.Proofs.FastPath.Labels
import AccessTrace.Proofs.Host.Preparation
import AccessTrace.Proofs.Host.Untraced
import AccessTrace.Proofs.Session.Batches
import AccessTrace.Proofs.Session.Lifecycle
import AccessTrace.Proofs.Session.TracedRun

/-!
# Traced threads

A traced thread from its preparation to its end, beside a thread that runs the same program on a
host without the tracer. Whatever happens to the program, the end is the same: the trace state is
closed and the buffer is gone.
-/

namespace AccessTrace

open AddressSpace (Embeds ForeignFault)
open CodeCache (room rooms)
open Instruction (executeAll accessTrace)

/-- Every instruction comes from one of the constructors. -/
def Program.Constructed (p : Program) : Prop :=
  ∀ block ∈ p.blocks, ∀ i ∈ block.instructions, i.Constructed

theorem CodeCache.room_mono {xs ys : List Node} (h : xs.length ≤ ys.length) :
    room xs ≤ room ys := by
  have hspan : (⟨0, xs.toArray⟩ : Fragment).span ≤ (⟨0, ys.toArray⟩ : Fragment).span := by
    refine Nat.mul_le_mul_right _ ?_
    simp only [List.size_toArray]
    omega
  exact Nat.mul_le_mul_right _ (Nat.div_le_div_right (Nat.add_le_add_right hspan _))

theorem CodeCache.rooms_mono (code code' : Block → List Node)
    (h : ∀ b, (code b).length ≤ (code' b).length) (blocks : List Block) :
    rooms code blocks ≤ rooms code' blocks := by
  induction blocks with
  | nil => exact Nat.zero_le _
  | cons b blocks ih =>
    have hb := room_mono (h b)
    simp only [rooms, List.map_cons, List.sum_cons] at ih ⊢
    omega

/-- Fast paths only make a block longer. -/
theorem Injector.length_le_expansion (j : Injector) (usesCounter : Bool) (label : Nat)
    (is : List Instruction) : is.length ≤ (j.expansion usesCounter label is).length := by
  induction is generalizing label with
  | nil => exact Nat.zero_le _
  | cons i is ih =>
    have hrest := ih (label + 2 * i.recorded.length)
    rw [expansion, List.length_append, List.length_cons, List.length_cons]
    omega

namespace Tracer

variable {ω δ' ω' : Type} {t : Tracer ω} {before h : TracerHost ω} {plain : Host δ' ω'}
  {usesCounter : Bool} {p : Program} {id : ThreadId} {session : Session ω}

/-- The nodes of a block once it is translated. -/
def translated (t : Tracer ω) (session : Session ω) (block : Block) : List Node :=
  match Host.translate t.client block session with
  | .ok nodes _ => nodes
  | .error _ _ => []

theorem translated_eq (huses : t.injector.Uses usesCounter) (session : Session ω) :
    t.translated session = t.code usesCounter := by
  funext block
  rw [translated, translate_ok huses]
  rfl

/-- The translated blocks of a program end below the shared code. -/
def Fits (t : Tracer ω) (session : Session ω) (p : Program) : Prop :=
  blockAreaBase + rooms (t.translated session) p.translated ≤ sharedCodeBase

/-- The limit is large enough for every path of every block to divert. -/
def Unlimited (t : Tracer ω) (session : Session ω) (limit : Nat) (p : Program) : Prop :=
  ∀ block ∈ p.translated,
    (t.translated session block).length + 2 * block.memoryOperandCount ≤ limit

/-- The labels of a translated block fit words of 32 bits. There is no such bound on the labels of a
listing; a block needs 2 ^ 31 memory operands to exceed it. -/
def LabelsFit (t : Tracer ω) (session : Session ω) (block : Block) : Prop :=
  ∀ node ∈ t.translated session block, ∀ l : Label, node.marks l = true → l.number < 2 ^ 32

theorem labelsFit (huses : t.injector.Uses usesCounter) (session : Session ω) {block : Block}
    (hcount : block.memoryOperandCount < 2 ^ 31) : t.LabelsFit session block := by
  unfold LabelsFit
  rw [translated_eq huses]
  exact fun node hnode l hl => Injector.number_lt_of_marks hcount hnode hl

/-- A host in which a tracer was set up, and a host with the same code that has no tracer. -/
structure Paired (t : Tracer ω) (h : TracerHost ω) (plain : Host δ' ω') : Prop where
  setup : ∃ before config world, before.Sound ∧ init before config world = .ok (t, h) ∧
    plain.shared = before.shared ∧ plain.stepLimit = before.stepLimit

/-- What follows from how the two hosts came about. -/
structure Compared (t : Tracer ω) (before h : TracerHost ω) (plain : Host δ' ω')
    (usesCounter : Bool) : Prop where
  installed : t.Installed before h
  uses : t.injector.Uses usesCounter
  spaced : plain.Spaced
  shared : plain.shared = before.shared
  stepLimit : plain.stepLimit = h.stepLimit

theorem Paired.compared (hpair : t.Paired h plain) :
    ∃ before usesCounter, t.Compared before h plain usesCounter := by
  obtain ⟨before, config, world, hsound, hinit, hshared, hlimit⟩ := hpair.setup
  obtain ⟨hinstalled, _, usesCounter, huses⟩ := init_ok hsound hinit
  refine ⟨before, usesCounter, hinstalled, huses, ⟨?_, ?_⟩, hshared,
    hlimit.trans hinstalled.stepLimit.symm⟩
  · rw [hshared]
    exact hsound.above
  · rw [hshared]
    exact hsound.spaced

namespace Compared

theorem fits_plain (hc : t.Compared before h plain usesCounter) (hfits : t.Fits session p) :
    blockAreaBase + rooms Host.plainCode p.translated ≤ sharedCodeBase := by
  have hmono := CodeCache.rooms_mono Host.plainCode (t.code usesCounter)
    (fun b => by
      rw [Host.plainCode, List.length_map]
      exact t.injector.length_le_expansion usesCounter 0 b.instructions) p.translated
  unfold Fits at hfits
  rw [translated_eq hc.uses] at hfits
  omega

theorem subset (hc : t.Compared before h plain usesCounter) : plain.shared ⊆ h.shared := by
  obtain ⟨image, _, hshared⟩ := hc.installed.shared
  rw [hshared, hc.shared]
  exact List.subset_append_left _ _

variable {thread : Thread (TraceState ω)} {plainThread : Thread δ'}
  {s s' : Running (TraceState ω) (Session ω)} {b : TraceBuffer} {sink : Sink ω}
  {start : TraceState ω × Session ω} {m M : AddressSpace} {k : Collected} {g : Guest}

/-- A traced thread that has started, beside the untraced one. -/
theorem started (hc : t.Compared before h plain usesCounter)
    (hplain : plain.prepare id p = .ok plainThread) (hprepare : h.prepare id p = .ok thread)
    (hstart : t.threadStart ⟨thread, session⟩ = .ok () s) :
    ∃ b sink world, t.config.target.start t.config.format id session.world = .ok sink world ∧
      b.capacity = t.config.capacity ∧ 0 < b.capacity ∧
      Alongside t.field b sink (.begun id b sink, ⟨session.totals.register, world⟩)
        plainThread.guest.memory s.thread.guest.memory .empty plainThread.guest s ∧
      ∀ shape ∈ s.thread.guest.memory.layout, shape ∈ thread.guest.memory.layout ∨
        shape = (b.headerAddress, BufferHeader.length, .readWrite, true) ∨
        shape = (b.base, b.storageLength, .readWrite, true) := by
  obtain ⟨hid, hfields, hmachine, _, hnext, _⟩ := Host.prepare_ok hprepare
  obtain ⟨_, _, hplainMachine, _⟩ := Host.prepare_ok hplain
  have hfresh : thread.fieldData? t.field = none := by
    unfold Thread.fieldData?
    rw [hfields]
    rfl
  have hstarted := threadStart_ok hstart hfresh hnext
    (fun shape hshape => Host.shape_of_prepared hc.installed.spaced hprepare hshape)
    (hmachine.trans hplainMachine.symm) (Host.prepare_embeds hc.subset hplain hprepare)
  rwa [hid] at hstarted

/-- The execution of a program in a thread that has started. -/
theorem executes (hc : t.Compared before h plain usesCounter) (hp : p.Constructed)
    (hfits : t.Fits session p)
    (hs : Alongside t.field b sink start m M .empty g s) (hcapacity : 0 < b.capacity) :
    match executeAll p.executed g with
    | .ok _ g' => ∃ progress s',
        Attains (h.execute t.client p s) (t.Unlimited session h.stepLimit p) progress s' ∧
        Alongside t.field b sink start m M
          (Collected.empty.addAll b.capacity (accessTrace p.executed g)) g' s' ∧
        progress.counts.app = p.executed.length ∧
        progress.counts.hostCalls =
          (Collected.empty.addAll b.capacity (accessTrace p.executed g)).batches.length
    | .error e g' => ForeignFault m M e ∨ ∃ s',
        (t.Unlimited session h.stepLimit p → h.execute t.client p s = .error (.machine e) s') ∧
        Alongside t.field b sink start m M
          (Collected.empty.addAll b.capacity (accessTrace p.executed g)) g' s' := by
  unfold Fits at hfits
  unfold Unlimited
  rw [translated_eq hc.uses] at hfits ⊢
  have hrun := runBlocks_traced hc.installed hc.uses hfits
    (fun block hblock => hp block (Program.mem_of_mem_translated hblock)) [] .zero
    (show [] ++ p.schedule = p.schedule from rfl)
    (CodeCache.serves_sharedCache hc.installed.spaced (t.code usesCounter) p.schedule) hs
    (Collected.packed_empty hcapacity)
  rw [Host.execute_eq]
  unfold Program.executed
  cases hexecute : executeAll (p.schedule.flatMap fun b =>
      (b.resolvedIn p.schedule).instructions) g with
  | ok _ g' =>
    rw [hexecute] at hrun
    obtain ⟨progress, s', hattains, halongside, happ, hcalls⟩ := hrun
    exact ⟨progress, s', hattains, halongside, happ.trans (Nat.zero_add _),
      hcalls.trans (Nat.zero_add _)⟩
  | error e g' =>
    rw [hexecute] at hrun
    exact hrun

end Compared

/-! ## The end -/

variable {s s' : Running (TraceState ω) (Session ω)} {b : TraceBuffer} {sink : Sink ω}
  {start : TraceState ω × Session ω} {m M : AddressSpace} {k : Collected} {g : Guest}

/-- A thread that has ended after it collected `k`, beside an untraced one. -/
structure Ended (t : Tracer ω) (b : TraceBuffer) (sink : Sink ω) (start : TraceState ω × Session ω)
    (k : Collected) (g : Guest) (s : Running (TraceState ω) (Session ω)) : Prop where
  machine : s.thread.guest.machine = g.machine
  embeds : Embeds g.memory s.thread.guest.memory
  released : ∀ x, b.Owns x → s.thread.guest.memory.isMapped x = false
  state : t.traceState? s.thread =
    some (TraceState.writeBatches sink k.flushed (start.1, start.2.world)).1.closed
  world : s.world = ⟨start.2.totals.merge
      (TraceState.writeBatches sink k.flushed (start.1, start.2.world)).1.totals,
    TraceState.finishSink sink
      (TraceState.writeBatches sink k.flushed (start.1, start.2.world)).2⟩

/-- The end of a thread does not fail, and does not hide a failure before it. -/
theorem ends (hs : Alongside t.field b sink start m M k g s) :
    ∃ s', t.Ended b sink start k g s' ∧
      (∀ progress, Host.finish t.client (.ok progress s) = .ok progress s') ∧
      ∀ e, Host.finish t.client (.error e s) = .error e s' := by
  obtain ⟨s', hend, hmachine, hembeds, hreleased, hstate, hworld⟩ :=
    hs.collecting.threadEnd hs.embeds fun x hx => by
      rw [AddressSpace.isMapped_of_layout hs.inner]
      exact hs.apart x hx
  have hclient : t.client.threadEnd s = .ok () s' := hend
  refine ⟨s', ⟨hmachine.trans hs.machine, hembeds, hreleased, hstate, hworld⟩,
    fun progress => ?_, fun e => ?_⟩
  · simp only [Host.finish, hclient]
  · simp only [Host.finish, hclient]

end Tracer

/-! ## A small session

One thread that stores a register and then loads, with a buffer for a single record. -/

namespace Sample

open Tracer (TracerHost)

/-- The batches of all threads, in the order of their writes. -/
abbrev Batches := List (List Record)

def sink : Sink Batches := ⟨fun batch => modify (· ++ [batch]), pure (), id⟩

def config : Config Batches := ⟨1, .text, ⟨"batches", fun _ => none, fun _ _ => pure sink⟩, true⟩

def host {δ ω : Type} : Host δ ω := .create true none 100

theorem isSome_init : (Tracer.init host config []).toOption.isSome := rfl

/-- A tracer and the host that it was set up in. -/
def traced : Tracer Batches × TracerHost Batches :=
  (Tracer.init host config []).toOption.get isSome_init

def session : Session Batches := ⟨.empty, []⟩

def client : Client Unit Unit := ⟨pure (), fun _ => pure (), pure (), fun _ world => world⟩

def cell : MemoryOperand := .absolute 0x10000000 .b8

/-- An operand outside of all regions. -/
def hole : MemoryOperand := .absolute 0x20000000 .b8

def program (source : MemoryOperand) : Program where
  blocks := [⟨0x400000, [.mov 0x400000 (.memory cell) (.register .rax),
    .mov 0x400004 (.register .rbx) (.memory source)]⟩]
  iterations := 1
  regions := [(0x10000000, 16)]
  registers := [(.rax, 5)]

theorem paired_traced : traced.1.Paired traced.2 (host : Host Unit Unit) :=
  ⟨host, config, [], Host.sound_create .., rfl, rfl, rfl⟩

theorem idle_client : client.Idle :=
  ⟨fun _ => ⟨(), rfl⟩, fun _ _ _ => ⟨(), rfl⟩, fun _ => ⟨(), rfl⟩⟩

theorem constructed_program (source : MemoryOperand) : (program source).Constructed := by
  intro block hblock i hi
  obtain rfl := List.mem_singleton.1 hblock
  rcases List.mem_cons.1 hi with rfl | hi
  · exact .mov (some 0x400000) (.memory cell) (.register .rax)
  · obtain rfl := List.mem_singleton.1 hi
    exact .mov (some 0x400004) (.register .rbx) (.memory source)

/-- A step that gives an answer has succeeded. -/
theorem succeeds {ε σ α : Type} (step : EStateM ε σ α) (s : σ) (h : (step.run' s).isSome = true) :
    ∃ a s', step s = .ok a s' := by
  unfold EStateM.run' EStateM.run at h
  cases hstep : step s with
  | ok a s' => exact ⟨a, s', rfl⟩
  | error e s' =>
    rw [hstep] at h
    contradiction

theorem writes_sink (batches world : Batches) : sink.Writes batches world (world ++ batches) := by
  induction batches generalizing world with
  | nil => simpa using Sink.Writes.nil world
  | cons batch batches ih =>
    have hrest := ih (world ++ [batch])
    rw [List.append_assoc] at hrest
    exact .cons rfl hrest

end Sample

end AccessTrace
