import AccessTrace.Proofs.Record.Fifo
import AccessTrace.Proofs.Session.Phases

/-!
# Any word as a cursor

Whatever is stored in the place of the cursor, a buffer counts pending records from it only if it
is the address of a slot of the storage, or of its end. Any other word is refused by the count.
Drain, flush and finalization ask for the count before they do anything, and are refused in the same
way.
-/

namespace AccessTrace

namespace TraceBuffer

variable {b : TraceBuffer} {M M' : AddressSpace} {cursor : Word} {count : Nat} {e : TraceError}

/-- The word is the cursor behind `count` records. -/
def StandsBehind (b : TraceBuffer) (count : Nat) (cursor : Word) : Prop :=
  count ≤ b.capacity ∧ cursor.toNat = b.slotAt count

/-- The three comparisons let pass what stands behind some records, and nothing else. -/
theorem exists_standsBehind_iff : (∃ count, b.StandsBehind count cursor) ↔
    b.base ≤ cursor.toNat ∧ (cursor.toNat - b.base) % Record.length = 0 ∧
      cursor.toNat ≤ b.stop := by
  constructor
  · rintro ⟨count, hcount, hcursor⟩
    have hoffset : cursor.toNat - b.base = count * Record.length := by
      rw [hcursor, slotAt, Nat.add_sub_cancel_left]
    refine ⟨?_, ?_, ?_⟩
    · rw [hcursor]
      exact Nat.le_add_right _ _
    · rw [hoffset, Nat.mul_mod_left]
    · rw [hcursor]
      exact slotAt_le hcount
  · rintro ⟨hbase, haligned, hstop⟩
    have hoffset : (cursor.toNat - b.base) / Record.length * Record.length =
        cursor.toNat - b.base := Nat.div_mul_cancel (Nat.dvd_of_mod_eq_zero haligned)
    refine ⟨(cursor.toNat - b.base) / Record.length, ?_, ?_⟩
    · refine Nat.div_le_of_le_mul ?_
      rw [Nat.mul_comm]
      exact Nat.sub_le_iff_le_add'.2 hstop
    · rw [slotAt, hoffset, Nat.add_sub_cancel' hbase]

theorem StandsBehind.div_eq (h : b.StandsBehind count cursor) :
    (cursor.toNat - b.base) / Record.length = count := by
  rw [h.2, slotAt, Nat.add_sub_cancel_left, Nat.mul_div_cancel _ (by decide)]

/-- The count, from a cursor that can be read. -/
theorem pending_of_cursor (h : b.cursor M = .ok cursor) : b.pending M =
    if b.base ≤ cursor.toNat ∧ (cursor.toNat - b.base) % Record.length = 0 ∧
      cursor.toNat ≤ b.stop then .ok ((cursor.toNat - b.base) / Record.length)
    else .error (.corruptBuffer cursor.toNat b.base b.stop) := by
  unfold TraceBuffer.pending
  rw [h]
  rfl

theorem pending_eq_ok_iff (h : b.cursor M = .ok cursor) :
    b.pending M = .ok count ↔ b.StandsBehind count cursor := by
  rw [pending_of_cursor h]
  constructor
  · intro hok
    split at hok
    · rename_i hstands
      obtain ⟨k, hk⟩ := exists_standsBehind_iff.2 hstands
      rw [hk.div_eq] at hok
      rwa [← Except.ok.inj hok]
    · contradiction
  · intro hstands
    rw [if_pos (exists_standsBehind_iff.1 ⟨count, hstands⟩), hstands.div_eq]

theorem pending_of_stray (h : b.cursor M = .ok cursor)
    (hstray : ∀ count, ¬ b.StandsBehind count cursor) :
    b.pending M = .error (.corruptBuffer cursor.toNat b.base b.stop) := by
  rw [pending_of_cursor h, if_neg fun hpassed => ?_]
  obtain ⟨count, hstands⟩ := exists_standsBehind_iff.2 hpassed
  exact hstray count hstands

/-! ## Refusals -/

/-- All that is done with the pending records ends in an error, and has changed nothing: neither
memory nor the state of the thread, its phase and its counters included, nor what is outside of the
thread, such as the log and the totals of the session. -/
structure Refuses (b : TraceBuffer) (e : TraceError) (M : AddressSpace) : Prop where
  pending : b.pending M = .error e
  drain : b.drain M = .error e M
  flush : ∀ (ω : Type) (s : TraceState ω) (world : ω), s.phase = .active → s.buffer? = some b →
    TraceState.flush (s, M, world) = .error e (s, M, world)
  finalize : ∀ (ω : Type) (s : TraceState ω) (session : Session ω), s.phase = .active →
    s.buffer? = some b → TraceState.finalize (s, M, session) = .error e (s, M, session)

/-- Without a count nothing happens. -/
theorem refuses_of_pending (h : b.pending M = .error e) : b.Refuses e M := by
  have hdrain : b.drain M = .error e M := by
    unfold TraceBuffer.drain
    rw [h]
  refine ⟨h, hdrain, fun ω s world hphase hbuffer => ?_, fun ω s session hphase hbuffer => ?_⟩
  · exact TraceState.flush_of_error hphase hbuffer hdrain
  · have hlast := TraceState.inSession_of_error session
      (TraceState.flush_of_error (w := session.world) hphase hbuffer hdrain)
    exact TraceState.finalizeBehind_of_error hlast

/-! ## Cursors that are stored -/

/-- A header that may be read gives back the cursor that was stored in it. -/
theorem cursor_of_store {permissions : Permissions} (hM : M.WellFormed)
    (hheader : (b.headerAddress, BufferHeader.length, permissions, true) ∈ M.layout)
    (hreadable : permissions.read = true) (hstore : M.store b.cursorAddress 8 cursor = .ok M') :
    b.cursor M' = .ok cursor := by
  obtain ⟨_, hwritten⟩ := hM.store_ok hstore
  obtain ⟨_, _, ⟨_, _, hbound⟩, _⟩ := hwritten.writable
  rw [length_littleEndian] at hbound
  rw [← hwritten.layout] at hheader
  obtain ⟨r, hr, hshape⟩ := List.mem_map.1 hheader
  simp only [Region.shape, Prod.mk.injEq] at hshape
  obtain ⟨hbase, hlength, hpermissions, howned⟩ := hshape
  have hrange : r.base ≤ b.cursorAddress ∧ b.cursorAddress + 8 ≤ r.stop := by
    unfold Region.stop cursorAddress BufferHeader.cursorOffset
    unfold BufferHeader.length at hlength
    omega
  have hword : M'.Readable b.cursorAddress 8 :=
    ⟨r, hr, ⟨hrange.1, hrange.2, hbound⟩, hpermissions ▸ hreadable,
      fun i _ => r.isSome_byteAt? howned _⟩
  have hload := hwritten.wellFormed.load_of_readable (by decide) hword
  rwa [hwritten.wordAt_self] at hload

/-- A buffer that could be allocated is in some memory where its header is still mapped and may be
read, and a word is stored as its cursor. Then the count is `count` exactly if the word is the
cursor behind `count` records. Any other word is refused, by the count and by all that asks for
it. -/
theorem stray_cursor_refused {M₀ M₁ : AddressSpace} {capacity : Nat} (hM₀ : M₀.WellFormed)
    (hallocate : allocate capacity M₀ = .ok b M₁) (hM : M.WellFormed) {permissions : Permissions}
    (hheader : (b.headerAddress, BufferHeader.length, permissions, true) ∈ M.layout)
    (hreadable : permissions.read = true) (hstore : M.store b.cursorAddress 8 cursor = .ok M') :
    b.capacity = capacity ∧
    (∀ count, b.pending M' = .ok count ↔ b.StandsBehind count cursor) ∧
    ((∀ count, ¬ b.StandsBehind count cursor) →
      b.Refuses (.corruptBuffer cursor.toNat b.base b.stop) M') := by
  have hcursor := cursor_of_store hM hheader hreadable hstore
  refine ⟨(allocate_steps hM₀ hallocate).1, fun count => pending_eq_ok_iff hcursor,
    fun hstray => ?_⟩
  exact refuses_of_pending (pending_of_stray hcursor hstray)

end TraceBuffer

namespace Sample

/-- The cursor of an empty buffer is set three bytes into its first slot. -/
theorem misaligned_cursor_refused : ∃ M',
    queueMemory.store queueBuffer.cursorAddress 8 (UInt64.ofNat (queueBuffer.base + 3)) = .ok M' ∧
    queueBuffer.Refuses
      (.corruptBuffer (queueBuffer.base + 3) queueBuffer.base queueBuffer.stop) M' := by
  have hwellFormed := AddressSpace.wellFormed_withLimit none .generous
  obtain ⟨_, hqueue⟩ :=
    TraceBuffer.allocate_queue hwellFormed allocate_queueBuffer (by decide)
  obtain ⟨_, _, hrefused⟩ := TraceBuffer.stray_cursor_refused hwellFormed allocate_queueBuffer
    hqueue.wellFormed hqueue.sited.header rfl
    (show queueMemory.store queueBuffer.cursorAddress 8 (UInt64.ofNat (queueBuffer.base + 3)) =
      .ok _ from rfl)
  refine ⟨_, rfl, hrefused ?_⟩
  rintro count ⟨_, hcursor⟩
  have hoffset : queueBuffer.base + 3 = queueBuffer.base + count * 32 := hcursor
  omega

end Sample

end AccessTrace
