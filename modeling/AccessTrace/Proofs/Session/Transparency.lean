import AccessTrace.Proofs.Session.Threads

/-!
# Transparent tracing

A program does not notice that it is traced: where it succeeds without the tracer it succeeds with
it, and ends with the same registers, flags and data. What the sink does with the batches does not
matter.
-/

namespace AccessTrace

namespace Tracer

variable {ω δ' ω' : Type} {t : Tracer ω} {h : TracerHost ω} {plain : Host δ' ω'}
  {client : Client δ' ω'} {p : Program} {id : ThreadId} {session : Session ω}
  {thread : Thread (TraceState ω)} {s : Running (TraceState ω) (Session ω)}

/-- A traced thread that has started and executes all instructions of its program succeeds. -/
theorem runThread_ok {before : TracerHost ω} {usesCounter : Bool} {m M : AddressSpace}
    {g g' : Guest} {b : TraceBuffer} {sink : Sink ω} {start : TraceState ω × Session ω}
    (hc : t.Compared before h plain usesCounter) (hp : p.Constructed) (hfits : t.Fits session p)
    (hlimit : t.Unlimited session h.stepLimit p) (hprepare : h.prepare id p = .ok thread)
    (hstart : t.threadStart ⟨thread, session⟩ = .ok () s)
    (hs : Alongside t.field b sink start m M .empty g s) (hcapacity : 0 < b.capacity)
    (hexecute : Instruction.executeAll p.executed g = .ok () g') :
    ∃ k run session', h.runThread t.client id p session = .ok run session' ∧
      run.counts.app = p.executed.length ∧ g'.memory.layout = m.layout ∧
      t.Ended b sink start k g' ⟨run.thread, session'⟩ := by
  have hexecutes := hc.executes hp hfits hs hcapacity
  rw [hexecute] at hexecutes
  obtain ⟨progress, s₁, hattains, halongside, happ, _⟩ := hexecutes
  obtain ⟨s₂, hended, hfinish, _⟩ := ends halongside
  have hclient : t.client.threadStart ⟨thread, session⟩ = .ok () s := hstart
  have hready : h.runReady t.client p ⟨thread, session⟩ = .ok progress s₂ := by
    unfold Host.runReady
    rw [hclient]
    simp only [hattains.success hlimit, hfinish]
  refine ⟨_, ⟨progress.counts, progress.cache.blockCount, s₂.thread⟩, s₂.world, ?_, happ,
    halongside.inner, hended⟩
  unfold Host.runThread
  simp only [hprepare, hready]

/-- A program that succeeds without a tracer succeeds with it, and with the same outcome. -/
theorem runThread_transparent {run : ThreadRun δ'} {world world' : ω'} (hpair : t.Paired h plain)
    (hidle : client.Idle) (hp : p.Constructed)
    (hrun : plain.runThread client id p world = .ok run world')
    (hprepare : h.prepare id p = .ok thread) (hstart : t.threadStart ⟨thread, session⟩ = .ok () s)
    (hfits : t.Fits session p) (hlimit : t.Unlimited session h.stepLimit p) :
    ∃ traced session', h.runThread t.client id p session = .ok traced session' ∧
      traced.thread.guest.machine = run.thread.guest.machine ∧
      (∀ region ∈ p.regions, ∀ a n, 0 < n → region.1.toNat ≤ a →
        a + n ≤ region.1.toNat + region.2 →
        traced.thread.guest.memory.read a n = run.thread.guest.memory.read a n) ∧
      traced.counts.app = run.counts.app := by
  obtain ⟨before, usesCounter, hc⟩ := hpair.compared
  obtain ⟨plainThread, hplain, hexecute, happ⟩ :=
    Host.runThread_plain_ok hc.spaced hidle (hc.fits_plain hfits) hrun
  obtain ⟨b, sink, w, _, _, hcapacity, hs, _⟩ := hc.started hplain hprepare hstart
  obtain ⟨k, traced, session', htraced, htracedApp, hlayout, hended⟩ :=
    runThread_ok hc hp hfits hlimit hprepare hstart hs hcapacity hexecute
  refine ⟨traced, session', htraced, hended.machine, ?_, htracedApp.trans happ.symm⟩
  intro region hregion a n hpos ha hn
  have hdata : Program.zeroed region ∈ plainThread.guest.memory.regions :=
    ((Host.prepare_ok hplain).2.2.2.2.2 _).2 (Or.inr ⟨region, hregion, rfl⟩)
  have hshape : (region.1.toNat, region.2, Permissions.readWrite, true) ∈
      run.thread.guest.memory.layout := by
    rw [hlayout]
    exact List.mem_map_of_mem hdata
  exact hended.embeds.read_eq hshape hpos ha hn

end Tracer

namespace Sample

/-- In the small session tracing makes no difference to the thread. -/
theorem same_outcome : ∃ run world t session',
    host.runThread client ⟨0⟩ (program cell) () = .ok run world ∧
      traced.2.runThread traced.1.client ⟨0⟩ (program cell) session = .ok t session' ∧
      t.thread.guest.machine = run.thread.guest.machine ∧
      t.thread.guest.memory.read 0x10000000 16 = run.thread.guest.memory.read 0x10000000 16 ∧
      t.counts.app = run.counts.app := by
  obtain ⟨run, world, hrun⟩ : ∃ run world,
      host.runThread client ⟨0⟩ (program cell) () = .ok run world := ⟨_, _, rfl⟩
  obtain ⟨thread, s, hprepare, hstart⟩ : ∃ thread s,
      traced.2.prepare ⟨0⟩ (program cell) = .ok thread ∧
        traced.1.threadStart ⟨thread, session⟩ = .ok () s := ⟨_, _, rfl, rfl⟩
  have hfits : traced.1.Fits session (program cell) := by
    unfold Tracer.Fits
    decide +kernel
  have hlimit : traced.1.Unlimited session traced.2.stepLimit (program cell) := by
    unfold Tracer.Unlimited
    decide +kernel
  obtain ⟨t, session', htraced, hmachine, hdata, happ⟩ := Tracer.runThread_transparent
    paired_traced idle_client (constructed_program cell) hrun hprepare hstart hfits hlimit
  exact ⟨run, world, t, session', hrun, htraced, hmachine,
    hdata _ (List.mem_singleton.2 rfl) 0x10000000 16 (by decide) (by decide) (by decide), happ⟩

end Sample

end AccessTrace
