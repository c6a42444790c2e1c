import Mathlib.Data.List.Nodup
import AccessTrace.Proofs.Host.EmptyBlocks
import AccessTrace.Proofs.Host.Workloads
import AccessTrace.Proofs.Session.Transparency

/-!
# Complete logs

What the sink of a thread gets is the access trace of its program, cut at the capacity of the
buffer: nothing is missing, nothing comes twice, and the order is that of the accesses. For this the
translated blocks have to stay below the shared code; nothing in a session sees to it.
-/

namespace AccessTrace

/-- The accesses of a program that starts in a thread. -/
def Program.trace {δ : Type} (p : Program) (thread : Thread δ) : List Record :=
  Instruction.accessTrace p.executed thread.guest

namespace Tracer

open Instruction (executeAll)

variable {ω δ' ω' : Type} {t : Tracer ω} {h : TracerHost ω} {plain : Host δ' ω'}
  {client : Client δ' ω'} {p : Program} {id : ThreadId} {session session' : Session ω}
  {thread : Thread (TraceState ω)} {plainThread : Thread δ'}

/-- The sink that a thread gets takes every batch of the records. -/
def Accepts (t : Tracer ω) (id : ThreadId) (session : Session ω) (records : List Record) : Prop :=
  ∀ sink world, t.config.target.start t.config.format id session.world = .ok sink world →
    ∀ batches, Cut t.config.capacity records batches → ∃ world', sink.Writes batches world world'

/-- The counters of a thread whose records were all written. -/
def fullTotals (t : Tracer ω) (id : ThreadId) (records : List Record) : ThreadTotals :=
  ⟨id, records.length, (records.length + (t.config.capacity - 1)) / t.config.capacity, 0⟩

/-- A thread that has ended with its records in the sink, in a session that has counted them. -/
structure Logged (t : Tracer ω) (id : ThreadId) (session : Session ω) (records : List Record)
    (s : Running (TraceState ω) (Session ω)) : Prop where
  batches : ∃ sink world batches world',
    t.config.target.start t.config.format id session.world = .ok sink world ∧
    Cut t.config.capacity records batches ∧ sink.Writes batches world world' ∧
    s.world.world = Step.final sink.finish world'
  state : t.traceState? s.thread = some ⟨id, .closed, none, none, t.fullTotals id records⟩
  /-- One thread more has started, and its counters are in the totals once. -/
  totals : ({ session.totals with started := session.totals.started + 1 } : Totals).Gains
    (t.fullTotals id records) s.world.totals

/-- The end of a thread leaves the log complete. -/
theorem Ended.logged {b : TraceBuffer} {sink : Sink ω} {w : ω} {k : Collected} {g : Guest}
    {records : List Record} {s : Running (TraceState ω) (Session ω)}
    (hended : t.Ended b sink (.begun id b sink, ⟨session.totals.register, w⟩) k g s)
    (hstart : t.config.target.start t.config.format id session.world = .ok sink w)
    (hpacked : k.Packed t.config.capacity) (hall : k.all = records)
    (haccepts : t.Accepts id session records) : t.Logged id session records s := by
  subst hall
  have hcut := hpacked.cut
  obtain ⟨w', hwrites⟩ := haccepts sink w hstart k.flushed hcut
  have hwritten := TraceState.writeBatches_of_writes hwrites (TraceState.begun id b sink)
  have htotals : (⟨id, 0 + k.flushed.flatten.length, 0 + k.flushed.length, 0⟩ : ThreadTotals) =
      t.fullTotals id k.all := by
    rw [hcut.flatten, hpacked.length_flushed, Nat.zero_add, Nat.zero_add]
    rfl
  have hstate := hended.state
  have hworld := hended.world
  rw [hwritten] at hstate hworld
  refine ⟨⟨sink, w, k.flushed, w', hstart, hcut, hwrites, ?_⟩, ?_, ?_⟩
  · rw [hworld]
    exact TraceState.finishSink_eq sink w'
  · rw [hstate, ← htotals]
    rfl
  · rw [hworld, ← htotals]
    exact session.totals.register.gains_merge _

theorem of_runThread_ok {traced : ThreadRun (TraceState ω)}
    (hok : h.runThread t.client id p session = .ok traced session') :
    ∃ thread s progress s₁, h.prepare id p = .ok thread ∧
      t.threadStart ⟨thread, session⟩ = .ok () s ∧ h.execute t.client p s = .ok progress s₁ ∧
      Host.finish t.client (.ok progress s₁) = .ok progress ⟨traced.thread, session'⟩ ∧
      traced.counts = progress.counts := by
  unfold Host.runThread at hok
  cases hprepare : h.prepare id p with
  | error e =>
    rw [hprepare] at hok
    contradiction
  | ok thread =>
    rw [hprepare] at hok
    cases hready : h.runReady t.client p ⟨thread, session⟩ with
    | error e s =>
      simp only [hready] at hok
      contradiction
    | ok progress s₂ =>
      simp only [hready] at hok
      injection hok with htraced hsession
      subst htraced
      subst hsession
      unfold Host.runReady at hready
      cases hstart : t.client.threadStart ⟨thread, session⟩ with
      | error e s =>
        rw [hstart] at hready
        contradiction
      | ok _ s =>
        rw [hstart] at hready
        cases hexecute : h.execute t.client p s with
        | error e s₁ =>
          simp only [hexecute, Host.finish] at hready
          split at hready <;> contradiction
        | ok progress₁ s₁ =>
          simp only [hexecute] at hready
          have hsame : progress₁ = progress := by
            simp only [Host.finish] at hready
            split at hready
            · injection hready
            · contradiction
          subst hsame
          exact ⟨thread, s, progress₁, s₁, rfl, hstart, hexecute, hready, rfl⟩

/-- The log of a program that succeeds with and without a tracer. -/
theorem runThread_logged {run : ThreadRun δ'} {traced : ThreadRun (TraceState ω)}
    {world world' : ω'} (hpair : t.Paired h plain) (hidle : client.Idle) (hp : p.Constructed)
    (hfits : t.Fits session p) (hplain : plain.prepare id p = .ok plainThread)
    (hrun : plain.runThread client id p world = .ok run world')
    (htraced : h.runThread t.client id p session = .ok traced session')
    (haccepts : t.Accepts id session (p.trace plainThread)) :
    executeAll p.executed plainThread.guest = .ok () run.thread.guest ∧
      t.Logged id session (p.trace plainThread) ⟨traced.thread, session'⟩ ∧
      traced.counts.hostCalls = (p.trace plainThread).length / t.config.capacity ∧
      ((∀ block ∈ p.blocks, ∀ i ∈ block.instructions, i.address ≠ none) →
        (∀ x ∈ p.blocks, ∀ y ∈ p.blocks, x.tag = y.tag → x.instructions = y.instructions) →
        (p.trace plainThread).length = p.operandsPerIteration * p.iterations ∧
          (p.trace plainThread).length % 2 ^ 64 = p.memoryOperandCount) ∧
      ∀ block, block.memoryOperandCount < 2 ^ 31 → t.LabelsFit session block := by
  obtain ⟨before, usesCounter, hc⟩ := hpair.compared
  obtain ⟨plainThread', hplain', hexecute, _⟩ :=
    Host.runThread_plain_ok hc.spaced hidle (hc.fits_plain hfits) hrun
  obtain rfl : plainThread' = plainThread := by
    rw [hplain] at hplain'
    exact (Except.ok.inj hplain').symm
  obtain ⟨thread, s, progress, s₁, hprepare, hstart, hrunTraced, hfinish, hcounts⟩ :=
    of_runThread_ok htraced
  obtain ⟨b, sink, w, hsink, hcapacity, hpos, hs, _⟩ := hc.started hplain hprepare hstart
  have hexecutes := hc.executes hp hfits hs hpos
  rw [hexecute] at hexecutes
  obtain ⟨progress', s', hattains, halongside, _, hcalls⟩ := hexecutes
  obtain ⟨rfl, rfl⟩ := hattains.only _ _ hrunTraced
  have hpacked := (Collected.packed_empty hpos).addAll (p.trace plainThread')
  have hall : (Collected.empty.addAll b.capacity (p.trace plainThread')).all =
      p.trace plainThread' := Collected.all_addAll _ _
  obtain ⟨s₂, hended, hfinished, _⟩ := ends halongside
  have hsame : s₂ = ⟨traced.thread, session'⟩ := by
    have hfinal := (hfinished progress).symm.trans hfinish
    injection hfinal
  rw [hsame] at hended
  rw [hcapacity] at hpacked hall hended hcalls
  refine ⟨hexecute, ?_, ?_, fun haddress hequal => ?_, fun _ => labelsFit hc.uses session⟩
  · exact hended.logged hsink hpacked hall haccepts
  · rw [hcounts, hcalls]
    exact hpacked.length_batches.trans (by rw [hall])
  · have hrecorded := Instruction.length_accessTrace (fun i hi => by
      obtain ⟨block, hblock, hi⟩ := Program.mem_of_mem_executed hi
      exact haddress block hblock i hi) hexecute
    rw [Program.trace, hrecorded, Program.executed_eq hequal]
    exact ⟨p.sum_operandsPerIteration, p.sum_memoryOperandCount⟩

/-- A workload succeeds with and without a tracer, however often it goes round, and makes all
accesses of all rounds. -/
theorem runThread_workload (w : Workload) {n : Nat} (hfit : w.SizesFit n) (hpair : t.Paired h plain)
    (hidle : client.Idle) (hlimit : w.block.instructions.length ≤ plain.stepLimit)
    (hfits : t.Fits session (w.program n))
    (hunlimited : t.Unlimited session h.stepLimit (w.program n))
    (hplain : plain.prepare id (w.program n) = .ok plainThread)
    (hprepare : h.prepare id (w.program n) = .ok thread)
    {s : Running (TraceState ω) (Session ω)} (hstart : t.threadStart ⟨thread, session⟩ = .ok () s)
    (world : ω') :
    (∃ run world', plain.runThread client id (w.program n) world = .ok run world') ∧
      (∃ traced session', h.runThread t.client id (w.program n) session = .ok traced session') ∧
      ((w.program n).trace plainThread).length = w.accessesPerIteration * n := by
  obtain ⟨before, usesCounter, hc⟩ := hpair.compared
  obtain ⟨g, hconfined, _⟩ := w.rounds_confined (w.ready_of_prepared hfit hplain)
  obtain ⟨run, world', hrun, _⟩ :=
    w.exists_run hc.spaced hidle hlimit hplain hconfined.executed world
  obtain ⟨b, sink, w', _, _, hpos, hs, _⟩ := hc.started hplain hprepare hstart
  have hconstructed : (w.program n).Constructed := by
    intro block hblock
    rw [w.eq_block_of_mem hblock]
    exact w.constructed
  obtain ⟨_, traced, session', htraced, _⟩ := runThread_ok hc hconstructed hfits hunlimited hprepare
    hstart hs hpos hconfined.executed
  exact ⟨⟨run, world', hrun⟩, ⟨traced, session', htraced⟩, w.length_trace hconfined.executed⟩

end Tracer

namespace Sample

theorem accepts_traced (records : List Record) : traced.1.Accepts ⟨0⟩ session records := by
  intro sink' world hstart batches _
  obtain ⟨rfl, rfl⟩ : sink' = sink ∧ world = [] := by
    injection (hstart : EStateM.Result.ok sink [] = _) with hsink hworld
    exact ⟨hsink.symm, hworld.symm⟩
  exact ⟨_, writes_sink batches []⟩

/-- In the small session the store and the load are two full batches, and fill the buffer twice. -/
theorem two_batches : ∃ (thread : Thread Unit) (t : ThreadRun (TraceState Batches))
    (session' : Session Batches),
    (host : Host Unit Unit).prepare ⟨0⟩ (program cell) = .ok thread ∧
      traced.2.runThread traced.1.client ⟨0⟩ (program cell) session = .ok t session' ∧
      traced.1.Logged ⟨0⟩ session ((program cell).trace thread) ⟨t.thread, session'⟩ ∧
      t.counts.hostCalls = 2 := by
  obtain ⟨thread, hplain⟩ : ∃ thread : Thread Unit,
      (host : Host Unit Unit).prepare ⟨0⟩ (program cell) = .ok thread := ⟨_, rfl⟩
  obtain ⟨run, world, hrun⟩ := succeeds (host.runThread client ⟨0⟩ (program cell)) ()
    (by decide +kernel)
  obtain ⟨t, session', htraced⟩ := succeeds
    (traced.2.runThread traced.1.client ⟨0⟩ (program cell)) session (by decide +kernel)
  have hfits : traced.1.Fits session (program cell) := by
    unfold Tracer.Fits
    decide +kernel
  obtain ⟨_, hlogged, hcalls, hcount, _⟩ := Tracer.runThread_logged paired_traced idle_client
    (constructed_program cell) hfits hplain hrun htraced (accepts_traced _)
  have hlength : ((program cell).trace thread).length = 2 := (hcount (by decide) (by decide)).1
  refine ⟨thread, t, session', hplain, htraced, hlogged, ?_⟩
  rw [hcalls, hlength]
  rfl

/-- Blocks without instructions, one more than there is room for, with tags of their own. -/
def crowd : List Block :=
  (List.range (CodeCache.areaCapacity + 1)).map fun k => ⟨UInt64.ofNat k, []⟩

/-- The block of the small session, with a tag that is not in the crowd. -/
def straggler : Block := ⟨0x40000000, (program cell).blocks.flatMap (·.instructions)⟩

/-- The small session, where the crowd comes first. -/
def overfull : Program := { program cell with blocks := crowd ++ [straggler] }

theorem length_crowd : crowd.length = CodeCache.areaCapacity + 1 := by
  rw [crowd, List.length_map, List.length_range]

theorem empty_crowd : ∀ b ∈ crowd, b.instructions = [] := by
  intro b hb
  obtain ⟨k, _, rfl⟩ := List.mem_map.1 hb
  rfl

theorem nodup_overfull : ((crowd ++ [straggler]).map (·.tag)).Nodup := by
  have hbound : CodeCache.areaCapacity + 1 < 0x40000000 := by decide
  have hword {k : Nat} (hk : k < CodeCache.areaCapacity + 1) : (UInt64.ofNat k).toNat = k :=
    UInt64.toNat_ofNat_of_lt' (show k < 2 ^ 64 by omega)
  have htags : crowd.map (·.tag) =
      (List.range (CodeCache.areaCapacity + 1)).map UInt64.ofNat := by
    rw [crowd, List.map_map]
    rfl
  rw [List.map_append, htags, List.nodup_append]
  refine ⟨List.nodup_range.map_on fun i hi k hk heq => ?_, List.nodup_singleton _, ?_⟩
  · rw [← hword (List.mem_range.1 hi), ← hword (List.mem_range.1 hk), heq]
  · rintro _ htag _ hlast rfl
    obtain ⟨k, hk, htag⟩ := List.mem_map.1 htag
    have hk := List.mem_range.1 hk
    have hnumber : k = 0x40000000 := by
      rw [← hword hk, htag, List.mem_singleton.1 hlast]
      rfl
    omega

theorem schedule_overfull : overfull.schedule = crowd ++ [straggler] := by
  unfold Program.schedule
  exact List.append_nil _

theorem overruns_overfull : overfull.Overruns crowd straggler :=
  ⟨schedule_overfull, nodup_overfull, empty_crowd, length_crowd⟩

theorem executed_overfull : overfull.executed = straggler.instructions := by
  have hequal : ∀ x ∈ overfull.blocks, ∀ y ∈ overfull.blocks,
      x.tag = y.tag → x.instructions = y.instructions := by
    intro x hx y hy htag
    rw [List.inj_on_of_nodup_map nodup_overfull hx hy htag]
  have hcrowd : crowd.flatMap (·.instructions) = [] :=
    List.flatMap_eq_nil_iff.2 empty_crowd
  rw [Program.executed_eq hequal, schedule_overfull, List.flatMap_append, hcrowd, List.nil_append,
    List.flatMap_singleton]

theorem constructed_overfull : overfull.Constructed := by
  intro block hblock i hi
  rcases List.mem_append.1 (show block ∈ crowd ++ [straggler] from hblock) with hblock | hblock
  · rw [empty_crowd block hblock] at hi
    exact absurd hi List.not_mem_nil
  · rw [List.mem_singleton.1 hblock] at hi
    obtain ⟨b, hb, hi⟩ := List.mem_flatMap.1
      (show i ∈ (program cell).blocks.flatMap (·.instructions) from hi)
    exact constructed_program cell b hb i hi

/-- What a thread of the overfull program shows, if it comes to its end. -/
def shown? {δ ω β : Type} (h : Host δ ω) (client : Client δ ω) (nodes : List Node) (world : ω)
    (view : Thread δ → Counts → ω → β) : Option β :=
  match h.prepare ⟨0⟩ overfull with
  | .error _ => none
  | .ok thread =>
    match h.lifeBehind client nodes ⟨thread, world⟩ with
    | .error _ _ => none
    | .ok counts s => some (view thread counts s.world)

theorem runThread_overfull {δ ω β : Type} (h : Host δ ω) (client : Client δ ω) (nodes : List Node)
    (world : ω) (view : Thread δ → Counts → ω → β) {b : β} (hshared : h.SharesOne)
    (htranslate : ∀ world, Host.translate client straggler world = .ok nodes world)
    (hshown : shown? h client nodes world view = some b) :
    ∃ thread run world', h.prepare ⟨0⟩ overfull = .ok thread ∧
      h.runThread client ⟨0⟩ overfull world = .ok run world' ∧
      view thread run.counts world' = b := by
  unfold shown? at hshown
  cases hprepare : h.prepare ⟨0⟩ overfull with
  | error e =>
    rw [hprepare] at hshown
    contradiction
  | ok thread =>
    cases hlife : h.lifeBehind client nodes ⟨thread, world⟩ with
    | error e s =>
      simp only [hprepare, hlife] at hshown
      contradiction
    | ok counts s =>
      simp only [hprepare, hlife] at hshown
      obtain ⟨translated, hrun⟩ :=
        Host.runThread_overrun client overruns_overfull hshared htranslate hprepare hlife
      exact ⟨thread, _, _, rfl, hrun, Option.some.inj hshown⟩

/-- A host with the step limit that is set if nothing else is asked for. -/
def roomy {δ ω : Type} : Host δ ω := .create true none Cpu.defaultStepLimit

theorem isSome_init_roomy : (Tracer.init roomy config []).toOption.isSome := rfl

def tracedRoomy : Tracer Batches × Tracer.TracerHost Batches :=
  (Tracer.init roomy config []).toOption.get isSome_init_roomy

/-- So many rounds that their accesses outnumber the words. -/
def manyRounds : Program := Workload.stack.program (2 ^ 62)

theorem paired_roomy : tracedRoomy.1.Paired tracedRoomy.2 (roomy : Host Unit Unit) :=
  ⟨roomy, config, [], Host.sound_create .., rfl, rfl, rfl⟩

theorem translated_manyRounds : manyRounds.translated = [Workload.stack.block] := by
  have hrounds : ¬ (2 ^ 62 = 0) := by decide
  rw [manyRounds, Program.translated_of_single (Workload.stack.blocks_eq _),
    Workload.iterations_eq, if_neg hrounds]

theorem fits_manyRounds : tracedRoomy.1.Fits session manyRounds := by
  unfold Tracer.Fits
  rw [translated_manyRounds]
  decide +kernel

theorem unlimited_manyRounds :
    tracedRoomy.1.Unlimited session tracedRoomy.2.stepLimit manyRounds := by
  unfold Tracer.Unlimited
  rw [translated_manyRounds]
  decide +kernel

def stored : Record := .of true 0x10000000 8 0x400000
def loaded : Record := .of false 0x10000000 8 0x400004

/-- Behind the crowd the way to the flush routine is gone: the path of the first access leads
nowhere, so its record is all that reaches the sink and neither access is made. And where there are
more accesses than words, a count of them is not the number of the records. -/
theorem incomplete_beyond_bounds :
    (∃ (thread : Thread Unit) (run : ThreadRun Unit) (t : ThreadRun (TraceState Batches))
      (session' : Session Batches), overfull.Constructed ∧
      (host : Host Unit Unit).prepare ⟨0⟩ overfull = .ok thread ∧
      (host : Host Unit Unit).runThread client ⟨0⟩ overfull () = .ok run () ∧
      traced.2.runThread traced.1.client ⟨0⟩ overfull session = .ok t session' ∧
      traced.1.Accepts ⟨0⟩ session (overfull.trace thread) ∧ traced.1.config.capacity = 1 ∧
      overfull.trace thread = [stored, loaded] ∧
      session'.world = [[stored]] ∧ t.counts.hostCalls = 0) ∧
    ∃ (thread : Thread Unit) (run : ThreadRun Unit) (t : ThreadRun (TraceState Batches))
      (session' : Session Batches), manyRounds.Constructed ∧
      (roomy : Host Unit Unit).prepare ⟨0⟩ manyRounds = .ok thread ∧
      (roomy : Host Unit Unit).runThread client ⟨0⟩ manyRounds () = .ok run () ∧
      tracedRoomy.2.runThread tracedRoomy.1.client ⟨0⟩ manyRounds session = .ok t session' ∧
      tracedRoomy.1.Accepts ⟨0⟩ session (manyRounds.trace thread) ∧
      (∀ block ∈ manyRounds.blocks, ∀ i ∈ block.instructions, i.address ≠ none) ∧
      (∀ x ∈ manyRounds.blocks, ∀ y ∈ manyRounds.blocks,
        x.tag = y.tag → x.instructions = y.instructions) ∧
      (manyRounds.trace thread).length = 5 * 2 ^ 62 ∧
      manyRounds.memoryOperandCount = 2 ^ 62 := by
  constructor
  · have huses : traced.1.injector.Uses true := rfl
    obtain ⟨thread, run, world, hprepare, hrun, htrace⟩ :=
      runThread_overfull (host : Host Unit Unit) client (Host.plainCode straggler) ()
        (fun thread _ _ => Instruction.accessTrace straggler.instructions thread.guest)
        (b := [stored, loaded]) (Or.inl rfl) (fun _ => rfl) (by decide +kernel)
    obtain ⟨_, t, session', _, htraced, hshown⟩ :=
      runThread_overfull traced.2 traced.1.client (traced.1.code true straggler) session
        (fun _ counts session => (session.world, counts.hostCalls))
        (b := ([[stored]], 0)) (Or.inr ⟨_, rfl, rfl⟩)
        (fun session => Tracer.translate_ok huses straggler session) (by decide +kernel)
    obtain ⟨hbatches, hcalls⟩ := Prod.mk.inj hshown
    have haccesses : overfull.trace thread = [stored, loaded] := by
      rw [Program.trace, executed_overfull, htrace]
    exact ⟨thread, run, t, session', constructed_overfull, hprepare, hrun, htraced,
      accepts_traced _, rfl, haccesses, hbatches, hcalls⟩
  · obtain ⟨plainThread, hplain⟩ : ∃ thread : Thread Unit,
        (roomy : Host Unit Unit).prepare ⟨0⟩ manyRounds = .ok thread := ⟨_, rfl⟩
    obtain ⟨thread, s, hprepare, hstart⟩ : ∃ thread s,
        tracedRoomy.2.prepare ⟨0⟩ manyRounds = .ok thread ∧
          tracedRoomy.1.threadStart ⟨thread, session⟩ = .ok () s := ⟨_, _, rfl, rfl⟩
    obtain ⟨⟨run, _, hrun⟩, ⟨t, session', htraced⟩, hlength⟩ :=
      Tracer.runThread_workload Workload.stack (n := 2 ^ 62) trivial paired_roomy idle_client
        (by decide) fits_manyRounds unlimited_manyRounds hplain hprepare hstart ()
    refine ⟨plainThread, run, t, session', ?_, hplain, hrun, htraced, accepts_traced _, ?_, ?_,
      hlength, ?_⟩
    · intro block hblock
      rw [Workload.stack.eq_block_of_mem hblock]
      exact Workload.stack.constructed
    · intro block hblock
      rw [Workload.stack.eq_block_of_mem hblock]
      decide
    · exact Program.instructions_of_single (Workload.stack.blocks_eq _)
    · exact (Workload.stack.memoryOperandCount_eq _).trans (by decide)

end Sample

end AccessTrace
