import AccessTrace.Proofs.Record.Rollback
import AccessTrace.Proofs.Session.Accounts

/-!
# Failed starts

A start takes a header, storage, a log and a field of the thread, and is counted last. Wherever it
fails, it has given back what it had taken: the thread is as before, but for the place of its next
allocation, and no counter of the session has moved. The session is aborted if there was no buffer.
-/

namespace AccessTrace

open AddressSpace (Restored)

variable {ω : Type}

namespace Tracer

variable {t : Tracer ω} {s s' : Running (TraceState ω) (Session ω)} {e : TraceError}

/-- What is left of a start that failed: the thread has its registers, flags, spill slots and fields
as before, and its memory but for the place of the next allocation. All totals are as before, but
that the session is now aborted if there was no buffer and it was not aborted already. -/
structure Undone (t : Tracer ω) (s : Running (TraceState ω) (Session ω)) (e : TraceError)
    (s' : Running (TraceState ω) (Session ω)) : Prop where
  thread : ∃ memory, Restored s.thread.guest.memory memory ∧
    s'.thread = s.thread.setMemory memory
  totals : s'.world.totals = { s.world.totals with aborted := s'.world.totals.aborted }
  aborted : s'.world.totals.aborted ≠ s.world.totals.aborted ↔
    (∃ cause M, TraceBuffer.allocate t.config.capacity s.thread.guest.memory = .error cause M) ∧
      s.world.totals.aborted = none
  reason : s'.world.totals.aborted ≠ s.world.totals.aborted →
    s'.world.totals.aborted = some e.message

/-- A start of a session that is aborted already does nothing. -/
theorem undone_refl (t : Tracer ω) {reason : String} (h : s.world.totals.aborted = some reason)
    (e : TraceError) : t.Undone s e s := by
  refine ⟨⟨_, .refl _, rfl⟩, rfl, ⟨fun hne => absurd rfl hne, fun hnone => ?_⟩,
    fun hne => absurd rfl hne⟩
  rw [h] at hnone
  exact absurd hnone.2 (by simp)

/-- Without a buffer the session is aborted, unless it is already. -/
theorem undone_startBuffer {cause : MachineError} {M : AddressSpace}
    (h : TraceBuffer.allocate t.config.capacity s.thread.guest.memory = .error cause M)
    (hrestored : Restored s.thread.guest.memory M) :
    ∃ e s', t.startBuffer s = .error e s' ∧ t.Undone s e s' := by
  let e := TraceError.bufferAllocation s.thread.id cause
  let s' : Running (TraceState ω) (Session ω) :=
    ⟨s.thread.setMemory M, { s.world with totals := s.world.totals.abort e.message }⟩
  have hfails : t.startBuffer s = .error e s' := by
    unfold startBuffer
    rw [h]
  refine ⟨e, s', hfails, ⟨M, hrestored, rfl⟩, rfl, ?_, ?_⟩
  · change some (s.world.totals.aborted.getD e.message) ≠ s.world.totals.aborted ↔ _
    cases haborted : s.world.totals.aborted with
    | none => simp [h]
    | some reason => simp
  · change some (s.world.totals.aborted.getD e.message) ≠ s.world.totals.aborted →
      some (s.world.totals.aborted.getD e.message) = _
    cases haborted : s.world.totals.aborted with
    | none => simp
    | some reason => simp

/-- With a buffer only the log can fail, and then the buffer is given back. -/
theorem undone_startLog {b : TraceBuffer} {M M' : AddressSpace}
    (h : TraceBuffer.allocate t.config.capacity s.thread.guest.memory = .ok b M)
    (hrelease : b.release M = .ok () M') (hrestored : Restored s.thread.guest.memory M')
    (hfails : t.startLog b { s with thread := s.thread.setMemory M } = .error e s') :
    t.Undone s e s' := by
  unfold startLog at hfails
  dsimp only at hfails
  cases hstart : t.config.target.start t.config.format (s.thread.setMemory M).id s.world.world with
  | ok sink world =>
    rw [hstart] at hfails
    contradiction
  | error cause world =>
    rw [hstart] at hfails
    unfold returnBuffer at hfails
    dsimp only at hfails
    rw [show (s.thread.setMemory M).guest.memory = M from rfl, hrelease] at hfails
    injection hfails with he hs
    subst he hs
    refine ⟨⟨M', hrestored, rfl⟩, rfl, ⟨fun hne => absurd rfl hne, ?_⟩, fun hne => absurd rfl hne⟩
    rintro ⟨⟨cause, M'', herror⟩, _⟩
    rw [h] at herror
    contradiction

theorem resumeStart_undone (hmemory : s.thread.guest.memory.Reachable)
    (hnext : s.thread.guest.memory.nextAllocation < addressBound)
    (h : t.resumeStart s = .error e s') : t.Undone s e s' := by
  unfold resumeStart at h
  rcases TraceBuffer.allocate_restored hmemory.wellFormed hmemory.balanced.aligned hnext
    t.config.capacity with ⟨cause, M, hfails, hrestored⟩ | ⟨b, M, hallocate, M', hrelease, hrestored⟩
  · obtain ⟨e', s'', hbuffer, hundone⟩ := undone_startBuffer hfails hrestored
    rw [Step.bind_of_error hbuffer] at h
    injection h with he hs
    rw [← he, ← hs]
    exact hundone
  · have hbuffer : t.startBuffer s = .ok b { s with thread := s.thread.setMemory M } := by
      unfold startBuffer
      rw [hallocate]
    rw [Step.bind_of_ok hbuffer] at h
    exact undone_startLog hallocate hrelease hrestored h

/-- A start that fails leaves nothing behind, whatever the tracer, its target and the thread are,
and also if the session was aborted after the start had seen that it was not. -/
theorem start_undone (hmemory : s.thread.guest.memory.Reachable)
    (hnext : s.thread.guest.memory.nextAllocation < addressBound)
    (h : t.threadStart s = .error e s' ∨ t.resumeStart s = .error e s') : t.Undone s e s' := by
  rcases h with h | h
  · rw [threadStart_eq] at h
    cases haborted : s.world.totals.aborted with
    | some reason =>
      rw [haborted] at h
      injection h with _ hs
      rw [← hs]
      exact undone_refl t haborted e
    | none =>
      rw [haborted] at h
      exact resumeStart_undone hmemory hnext h
  · exact resumeStart_undone hmemory hnext h

end Tracer

namespace Sample

/-- Memory with one region that leaves room for the header of a buffer, but not for its storage. -/
def crowded : AddressSpace :=
  { AddressSpace.withLimit (some 56) with
    regions := [⟨0x1000, 16, .readWrite, .owned (.zeroed 16)⟩]
    ownedBytes := 16 }

theorem undone_crowded : ∃ s', traced.1.threadStart ⟨.create ⟨1⟩ crowded, session⟩ =
      .error (.bufferAllocation ⟨1⟩ (.outOfMemory 32)) s' ∧
    traced.1.Undone ⟨.create ⟨1⟩ crowded, session⟩
      (.bufferAllocation ⟨1⟩ (.outOfMemory 32)) s' ∧
    s'.thread.guest.memory.nextAllocation = heapBase + 2 * pageSize := by
  have hreachable : crowded.Reachable :=
    .map (.withLimit (some 56) .generous)
      (show (AddressSpace.withLimit (some 56)).map 0x1000 16 .readWrite = .ok crowded from rfl)
  have hfails : traced.1.threadStart ⟨.create ⟨1⟩ crowded, session⟩ =
      .error (.bufferAllocation ⟨1⟩ (.outOfMemory 32))
        (Step.final traced.1.threadStart ⟨.create ⟨1⟩ crowded, session⟩) := rfl
  exact ⟨_, hfails, Tracer.start_undone hreachable (by decide) (Or.inl hfails), rfl⟩

end Sample

end AccessTrace
