import AccessTrace.Proofs.FastPath.Blocks

/-!
# The start and the end of a traced thread

A thread that could be started has an empty buffer beside the memory from before, and an active
trace state. At its end what is pending becomes the last batch, the counters are merged into the
totals of the session, the sink is closed and the buffer is given back. The end never fails.
-/

namespace AccessTrace

open AddressSpace (Embeds)

variable {ω : Type}

/-! ## The end -/

namespace TraceState

variable {b : TraceBuffer} {sink : Sink ω} {state : TraceState ω} {M : AddressSpace}

theorem flush_of_holds {pending : List Record} (h : state.Active b sink)
    (hholds : b.Holds pending M) (world : ω) :
    ∃ M', b.Holds [] M' ∧ b.Confined M M' ∧ flush (state, M, world) = .ok pending.length
      (if pending = [] then (state, M', world)
        else ((state.writeBatch sink pending world).1, M',
          (state.writeBatch sink pending world).2)) := by
  obtain ⟨M', hdrain, hholds', hconfined⟩ := hholds.drain
  refine ⟨M', hholds', hconfined, ?_⟩
  by_cases hpending : pending = []
  · subst hpending
    exact flush_of_nothing h.phase h.buffer hdrain
  · rw [if_neg hpending]
    exact h.flush_of_batch hdrain hpending

/-- The last flush takes what is pending, and the sink is given up after it. -/
theorem finalize_of_holds {k : Collected} {start : TraceState ω × Session ω} {m : AddressSpace}
    (hactive : start.1.Active b sink) (hholds : b.Holds k.pending M)
    (hembeds : Embeds m M) (hapart : ∀ x, b.Owns x → m.isMapped x = false) :
    ∃ M', Embeds m M' ∧ (∀ x, b.Owns x → M'.isMapped x = false) ∧
      finalize ((writeBatches sink k.batches (start.1, start.2.world)).1, M,
        { start.2 with world := (writeBatches sink k.batches (start.1, start.2.world)).2 }) =
      .ok (writeBatches sink k.flushed (start.1, start.2.world)).1.totals
        ((writeBatches sink k.flushed (start.1, start.2.world)).1.closed, M',
          ⟨start.2.totals.merge (writeBatches sink k.flushed (start.1, start.2.world)).1.totals,
            finishSink sink (writeBatches sink k.flushed (start.1, start.2.world)).2⟩) := by
  let before := writeBatches sink k.batches (start.1, start.2.world)
  let after := writeBatches sink k.flushed (start.1, start.2.world)
  have hbefore : before.1.Active b sink := hactive.writeBatches k.batches
  have hafter : after.1.Active b sink := hactive.writeBatches k.flushed
  obtain ⟨M₁, hholds₁, hconfined, hflush⟩ := flush_of_holds hbefore hholds before.2
  have hembeds₁ : Embeds m M₁ := hconfined.embeds hembeds hholds₁.wellFormed hapart
  obtain ⟨M₂, hrelease, hembeds₂, hreleased⟩ := hholds₁.release hembeds₁ hapart
  refine ⟨M₂, hembeds₂, hreleased, ?_⟩
  have hflushed : (if k.pending = [] then (before.1, M₁, before.2)
      else ((before.1.writeBatch sink k.pending before.2).1, M₁,
        (before.1.writeBatch sink k.pending before.2).2)) = (after.1, M₁, after.2) := by
    unfold after Collected.flushed
    by_cases hempty : k.pending = []
    · rw [if_pos hempty, if_pos hempty]
    · rw [if_neg hempty, if_neg hempty, writeBatches_append]
      rfl
  rw [hflushed] at hflush
  have hsession := inSession_of_ok { start.2 with world := before.2 } hflush
  exact (finalizeBehind_of_ok hsession).trans
    (hafter.close_of_release hrelease { start.2 with world := after.2 })

end TraceState

namespace Collecting

variable {field : FieldIndex} {b : TraceBuffer} {sink : Sink ω} {start : TraceState ω × Session ω}
  {k : Collected} {s : Running (TraceState ω) (Session ω)} {m : AddressSpace}

/-- The end of a thread that has collected something, whatever else has happened to it. -/
theorem threadEnd (h : Collecting field b sink start k s)
    (hembeds : Embeds m s.thread.guest.memory) (hapart : ∀ x, b.Owns x → m.isMapped x = false) :
    ∃ s', (discard (finalizeThread field) : SessionM ω Unit) s = .ok () s' ∧
      s'.thread.guest.machine = s.thread.guest.machine ∧ Embeds m s'.thread.guest.memory ∧
      (∀ x, b.Owns x → s'.thread.guest.memory.isMapped x = false) ∧
      s'.thread.fieldData? field =
        some (TraceState.writeBatches sink k.flushed (start.1, start.2.world)).1.closed ∧
      s'.world = ⟨start.2.totals.merge
          (TraceState.writeBatches sink k.flushed (start.1, start.2.world)).1.totals,
        TraceState.finishSink sink
          (TraceState.writeBatches sink k.flushed (start.1, start.2.world)).2⟩ := by
  obtain ⟨M', hembeds', hreleased, hfinalize⟩ :=
    TraceState.finalize_of_holds h.active h.holds hembeds hapart
  rw [← h.world] at hfinalize
  have hthread : finalizeThread field s = .ok _ _ := onTraceState_of_ok h.data hfinalize
  exact ⟨_, Step.discard_of_ok hthread, rfl, hembeds', hreleased,
    Thread.fieldData?_setFieldData s.thread field _, rfl⟩

end Collecting

/-! ## The start -/

namespace Tracer

variable {t : Tracer ω} {s s' : Running (TraceState ω) (Session ω)} {b : TraceBuffer}

theorem startBuffer_ok (h : t.startBuffer s = .ok b s') :
    ∃ M, TraceBuffer.allocate t.config.capacity s.thread.guest.memory = .ok b M ∧
      s' = { s with thread := s.thread.setMemory M } := by
  unfold startBuffer at h
  split at h
  · rename_i buffer M halloc
    injection h with hb hs
    exact ⟨M, by rw [halloc, hb], hs.symm⟩
  · contradiction

/-- A log that could be started is there for a thread that traces with it. -/
theorem startLog_ok (h : t.startLog b s = .ok () s')
    (hfresh : s.thread.fieldData? t.field = none) :
    ∃ sink world, t.config.target.start t.config.format s.thread.id s.world.world =
        .ok sink world ∧
      s' = ⟨(s.thread.setFieldWord t.field (UInt64.ofNat b.headerAddress)).setFieldData t.field
          (.begun s.thread.id b sink), ⟨s.world.totals.register, world⟩⟩ := by
  unfold startLog at h
  split at h
  · rename_i sink world hstart
    refine ⟨sink, world, hstart, ?_⟩
    unfold startState at h
    simp only [TraceState.create, TraceState.activate, Thread.fieldData?_setFieldWord,
      hfresh] at h
    injection h with _ hs
    exact hs.symm
  · unfold returnBuffer at h
    split at h <;> contradiction

/-- A traced thread starts with nothing collected, alongside the untraced one. -/
theorem threadStart_ok (h : t.threadStart s = .ok () s')
    (hfresh : s.thread.fieldData? t.field = none)
    (hnext : s.thread.guest.memory.nextAllocation = heapBase)
    (hbelow : ∀ shape ∈ s.thread.guest.memory.layout,
      shape.1 ≤ heapBase + 2 * pageSize → shape.2.2 = (.readWrite, true))
    {g : Guest} (hmachine : s.thread.guest.machine = g.machine)
    (hembeds : Embeds g.memory s.thread.guest.memory) :
    ∃ b sink world, t.config.target.start t.config.format s.thread.id s.world.world =
        .ok sink world ∧
      b.capacity = t.config.capacity ∧ 0 < b.capacity ∧
      Alongside t.field b sink (.begun s.thread.id b sink, ⟨s.world.totals.register, world⟩)
        g.memory s'.thread.guest.memory .empty g s' ∧
      ∀ shape ∈ s'.thread.guest.memory.layout, shape ∈ s.thread.guest.memory.layout ∨
        shape = (b.headerAddress, BufferHeader.length, .readWrite, true) ∨
        shape = (b.base, b.storageLength, .readWrite, true) := by
  unfold threadStart at h
  obtain ⟨_, _, hget, h⟩ := Step.bind_eq_ok h
  cases hget
  cases haborted : s.world.totals.aborted with
  | some reason =>
    simp only [haborted] at h
    contradiction
  | none =>
  simp only [haborted] at h
  obtain ⟨b, s₁, hbuffer, hlog⟩ := Step.bind_eq_ok h
  obtain ⟨M, hallocate, rfl⟩ := startBuffer_ok hbuffer
  obtain ⟨sink, world, hstart, rfl⟩ := startLog_ok hlog hfresh
  obtain ⟨hcapacity, hholds, hgrown, hfree, hlayout⟩ :=
    TraceBuffer.allocate_ok hembeds.outer hnext hbelow hallocate
  refine ⟨b, sink, world, hstart, hcapacity, hholds.placed.nonempty, ?_, hlayout⟩
  refine ⟨⟨TraceState.active_begun _ b sink, ?_, ?_, rfl, hholds⟩, hmachine,
    hembeds.trans hgrown, rfl, rfl, fun x hx => ?_⟩
  · exact Thread.fieldWord_setFieldData (Thread.fieldWord_setFieldWord _ _ _) _
  · exact Thread.fieldData?_setFieldData _ _ _
  · exact hembeds.free (hfree x hx)

end Tracer

end AccessTrace
