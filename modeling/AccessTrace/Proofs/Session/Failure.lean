import AccessTrace.Proofs.Session.Completeness

/-!
# Logs of failures

A program that fails is logged up to its failing instruction. The tracer sees its own end come,
writes what is left, and gives the buffer back; the error of the program is what is reported.
-/

namespace AccessTrace

namespace Tracer

open Instruction (executeAll)

variable {ω δ' ω' : Type} {t : Tracer ω} {h : TracerHost ω} {plain : Host δ' ω'}
  {client : Client δ' ω'} {p : Program} {id : ThreadId} {session : Session ω}
  {thread : Thread (TraceState ω)} {plainThread : Thread δ'}

/-- The range lies in memory that the tracer has added to a thread: the header or the storage of
its buffer, or the image of the flush routine. -/
def Added (t : Tracer ω) (b : TraceBuffer) (a n : Nat) : Prop :=
  (b.headerAddress ≤ a ∧ a + n ≤ b.headerAddress + BufferHeader.length) ∨
    (b.base ≤ a ∧ a + n ≤ b.stop) ∨
    (t.routine.address ≤ a ∧ a + n ≤ t.routine.address + t.routine.length)

/-- A fault that only an untraced thread gives is in memory that the tracer has added. -/
theorem Compared.added {before : TracerHost ω} {usesCounter : Bool} {M : AddressSpace}
    {b : TraceBuffer} {a n : Nat} (hc : t.Compared before h plain usesCounter)
    (hplain : plain.prepare id p = .ok plainThread) (hprepare : h.prepare id p = .ok thread)
    (hlayout : ∀ shape ∈ M.layout, shape ∈ thread.guest.memory.layout ∨
      shape = (b.headerAddress, BufferHeader.length, .readWrite, true) ∨
      shape = (b.base, b.storageLength, .readWrite, true))
    (hforeign : AddressSpace.Foreign plainThread.guest.memory M a n) : t.Added b a n := by
  obtain ⟨r, hr, hnew, ha, hn⟩ := hforeign
  obtain ⟨_, _, _, _, _, hplainRegions⟩ := Host.prepare_ok hplain
  obtain ⟨_, _, _, _, _, hregions⟩ := Host.prepare_ok hprepare
  obtain ⟨image, hlength, hshared⟩ := hc.installed.shared
  rcases hlayout r.shape (List.mem_map_of_mem hr) with hold | hheader | hstorage
  · obtain ⟨r', hr', hshape⟩ := List.mem_map.1 hold
    have hstop := Region.stop_of_shape hshape
    have hbase := (Region.shape_eq_iff.1 hshape).1
    have hadded : r' ∉ plainThread.guest.memory.regions := fun hmem =>
      hnew (hshape ▸ List.mem_map_of_mem hmem)
    rw [hplainRegions, hc.shared] at hadded
    rcases (hregions r').1 hr' with ⟨code, hcode, rfl⟩ | hdata
    · rw [hshared] at hcode
      rcases List.mem_append.1 hcode with hcode | hcode
      · exact absurd (Or.inl ⟨code, hcode, rfl⟩) hadded
      · obtain rfl := List.mem_singleton.1 hcode
        have hend : t.routine.address + max image.bytes.length 1 = r.stop := hstop
        have hfirst : t.routine.address = r.base := hbase
        exact Or.inr (Or.inr ⟨by omega, by omega⟩)
    · exact absurd (Or.inr hdata) hadded
  · simp only [Region.shape, Prod.mk.injEq] at hheader
    unfold Region.stop at hn
    exact Or.inl ⟨by omega, by omega⟩
  · simp only [Region.shape, Prod.mk.injEq] at hstorage
    unfold Region.stop at hn
    unfold Added TraceBuffer.stop
    exact Or.inr (Or.inl ⟨by omega, by omega⟩)

/-- The log of a program that fails without a tracer, unless by an access to what the tracer
adds: it fails alike with the tracer, and the log is complete up to the failing instruction. -/
theorem runThread_logged_of_failure {e : MachineError} {world world' : ω'} {b : TraceBuffer}
    {s : Running (TraceState ω) (Session ω)} (hpair : t.Paired h plain) (hidle : client.Idle)
    (hp : p.Constructed) (hfits : t.Fits session p) (hlimit : t.Unlimited session h.stepLimit p)
    (hplain : plain.prepare id p = .ok plainThread)
    (hrun : plain.runThread client id p world = .error (.machine e) world')
    (hprepare : h.prepare id p = .ok thread) (hstart : t.threadStart ⟨thread, session⟩ = .ok () s)
    (hbuffer : (t.traceState? s.thread).bind (·.buffer?) = some b)
    (houtside : ∀ a n direction, e = .fault a n direction → ¬ t.Added b a n)
    (haccepts : t.Accepts id session (p.trace plainThread)) :
    ∃ g s', executeAll p.executed plainThread.guest = .error e g ∧
      h.runReady t.client p ⟨thread, session⟩ = .error (.machine e) s' ∧
      h.runThread t.client id p session = .error (.machine e) s'.world ∧
      t.Logged id session (p.trace plainThread) s' ∧
      (∀ x, b.Owns x → s'.thread.guest.memory.isMapped x = false) ∧
      ∀ block, block.memoryOperandCount < 2 ^ 31 → t.LabelsFit session block := by
  obtain ⟨before, usesCounter, hc⟩ := hpair.compared
  have hplainLimit : ∀ block ∈ p.translated, block.instructions.length ≤ plain.stepLimit := by
    intro block hblock
    have hlength := t.injector.length_le_expansion usesCounter 0 block.instructions
    have hblockLimit := hlimit block hblock
    rw [translated_eq hc.uses] at hblockLimit
    rw [hc.stepLimit]
    unfold code at hblockLimit
    omega
  obtain ⟨e', g, he, hexecute⟩ := Host.runThread_plain_error hc.spaced hidle (hc.fits_plain hfits)
    hplainLimit hplain hrun
  obtain rfl : e = e' := TraceError.machine.inj he
  obtain ⟨b', sink, w, hsink, hcapacity, hpos, hs, hlayout⟩ := hc.started hplain hprepare hstart
  have hdata : t.traceState? s.thread = some (.begun id b' sink) := hs.collecting.data
  obtain rfl : b' = b := by
    rw [hdata] at hbuffer
    exact Option.some.inj hbuffer
  have hexecutes := hc.executes hp hfits hs hpos
  rw [hexecute] at hexecutes
  rcases hexecutes with ⟨a, n, direction, rfl, hforeign⟩ | ⟨s₁, hfails, halongside⟩
  · exact absurd (hc.added hplain hprepare hlayout hforeign) (houtside a n direction rfl)
  obtain ⟨s', hended, _, hfinish⟩ := ends halongside
  have hclient : t.client.threadStart ⟨thread, session⟩ = .ok () s := hstart
  have hready : h.runReady t.client p ⟨thread, session⟩ = .error (.machine e) s' := by
    unfold Host.runReady
    rw [hclient]
    simp only [hfails hlimit, hfinish]
  have hpacked := (Collected.packed_empty hpos).addAll (p.trace plainThread)
  have hall : (Collected.empty.addAll b'.capacity (p.trace plainThread)).all =
      p.trace plainThread := Collected.all_addAll _ _
  have hreleased := hended.released
  rw [hcapacity] at hpacked hall hended
  have hlogged := hended.logged hsink hpacked hall haccepts
  refine ⟨g, s', hexecute, hready, ?_, hlogged, hreleased, fun _ => labelsFit hc.uses session⟩
  have habandon : t.client.abandon s'.thread s'.world = s'.world := by
    change t.abandon s'.thread s'.world = _
    unfold abandon
    rw [hlogged.state]
    rfl
  unfold Host.runThread
  simp only [hprepare, hready, habandon]

end Tracer

namespace Sample

/-- The buffer that a program gets when its thread starts in the small session. -/
def buffer? (p : Program) : Option TraceBuffer :=
  match traced.2.prepare ⟨0⟩ p with
  | .error _ => none
  | .ok thread =>
    match traced.1.threadStart ⟨thread, session⟩ with
    | .error _ _ => none
    | .ok _ s => (traced.1.traceState? s.thread).bind (·.buffer?)

theorem started_of_buffer? {p : Program} {b : TraceBuffer} (h : buffer? p = some b) :
    ∃ thread s, traced.2.prepare ⟨0⟩ p = .ok thread ∧
      traced.1.threadStart ⟨thread, session⟩ = .ok () s ∧
      (traced.1.traceState? s.thread).bind (·.buffer?) = some b := by
  unfold buffer? at h
  split at h
  · contradiction
  · rename_i thread hprepare
    split at h
    · contradiction
    · rename_i s hstart
      exact ⟨thread, s, hprepare, hstart, h⟩

/-- In the small session a load from a hole is logged behind the store before it. -/
theorem logged_hole : ∃ (thread : Thread Unit) (s : Running (TraceState Batches) (Session Batches)),
    (host : Host Unit Unit).prepare ⟨0⟩ (program hole) = .ok thread ∧
      traced.2.runThread traced.1.client ⟨0⟩ (program hole) session =
        .error (.machine (.fault 0x20000000 8 .read)) s.world ∧
      traced.1.Logged ⟨0⟩ session ((program hole).trace thread) s := by
  obtain ⟨plainThread, hplain⟩ : ∃ thread : Thread Unit,
      (host : Host Unit Unit).prepare ⟨0⟩ (program hole) = .ok thread := ⟨_, rfl⟩
  have hrun : (host : Host Unit Unit).runThread client ⟨0⟩ (program hole) () =
      .error (.machine (.fault 0x20000000 8 .read)) () := rfl
  have hfirst : buffer? (program hole) = some ⟨0x700000000000, 0x700000002000, 1⟩ := by
    decide +kernel
  obtain ⟨thread, s, hprepare, hstart, hbuffer⟩ := started_of_buffer? hfirst
  have hfits : traced.1.Fits session (program hole) := by
    unfold Tracer.Fits
    decide +kernel
  have hlimit : traced.1.Unlimited session traced.2.stepLimit (program hole) := by
    unfold Tracer.Unlimited
    decide +kernel
  have houtside (a n : Nat) (direction : Direction)
      (h : MachineError.fault 0x20000000 8 .read = .fault a n direction) :
      ¬ traced.1.Added ⟨0x700000000000, 0x700000002000, 1⟩ a n := by
    obtain ⟨rfl, rfl, rfl⟩ := MachineError.fault.inj h
    unfold Tracer.Added
    decide +kernel
  obtain ⟨_, s', _, _, htraced, hlogged, _, _⟩ := Tracer.runThread_logged_of_failure paired_traced
    idle_client (constructed_program hole) hfits hlimit hplain hrun hprepare hstart hbuffer
    houtside (accepts_traced _)
  exact ⟨plainThread, s', hplain, htraced, hlogged⟩

end Sample

end AccessTrace
