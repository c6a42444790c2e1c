import AccessTrace.Proofs.Memory.Operations
import AccessTrace.Proofs.Record.Placement

/-!
# The buffer as a queue

`Queue` is the invariant of a buffer in any memory whatever: the header tells where the storage is
and how far it is filled, and the bytes in front of the cursor are those of the pending records.
Every operation of the buffer is a step on the list of these records, and what happens beside the
buffer keeps the list. One thing can go wrong. To drain an empty buffer is to read an empty range,
and that range is looked up in the region that ends at the storage, if there is one: where that
region refuses to be read, the empty drain is refused, and nothing is lost by it.
-/

namespace AccessTrace

namespace AddressSpace

variable {M : AddressSpace}

theorem look_of_ok {α : Type} {operation : AddressSpace → Except MachineError α} {a : α}
    (h : operation M = .ok a) : look operation M = .ok a M := by
  rw [look_apply, h]

end AddressSpace

namespace TraceBuffer

open AddressSpace (Keeps)

variable {b : TraceBuffer} {pending : List Record} {M M' : AddressSpace}

structure Queue (b : TraceBuffer) (pending : List Record) (M : AddressSpace) : Prop where
  wellFormed : M.WellFormed
  sited : b.Sited M
  room : pending.length ≤ b.capacity
  cursor : M.wordAt b.cursorAddress 8 = UInt64.ofNat (b.slot pending)
  base : M.wordAt (b.headerAddress + BufferHeader.baseOffset) 8 = UInt64.ofNat b.base
  negatedEnd : M.wordAt (b.headerAddress + BufferHeader.negatedEndOffset) 8 =
    0 - UInt64.ofNat b.stop
  bytes : M.bytesAt b.base (pending.length * Record.length) = pending.flatMap Record.toBytes

/-- What leaves header and storage as they are leaves the queue as it is. -/
theorem Queue.of_keeps (h : b.Queue pending M)
    (hheader : Keeps b.headerAddress BufferHeader.length M M')
    (hstorage : Keeps b.base b.storageLength M M') : b.Queue pending M' := by
  have hword {offset : Nat} (hoffset : offset + 8 ≤ BufferHeader.length) :
      M'.wordAt (b.headerAddress + offset) 8 = M.wordAt (b.headerAddress + offset) 8 := by
    rw [AddressSpace.wordAt, AddressSpace.wordAt,
      AddressSpace.bytesAt_congr fun i hi => hheader.byte? _ (by omega) (by omega)]
  have hfilled : pending.length * Record.length ≤ b.storageLength :=
    Nat.mul_le_mul_right _ h.room
  constructor
  · exact hheader.wellFormed
  · exact ⟨hheader.shape, hstorage.shape, h.sited.bound, h.sited.apart, h.sited.nonempty⟩
  · exact h.room
  · rw [cursorAddress, hword (by decide)]
    exact h.cursor
  · rw [hword (by decide)]
    exact h.base
  · rw [hword (by decide)]
    exact h.negatedEnd
  · rw [AddressSpace.bytesAt_congr fun i hi => hstorage.byte? _ (by omega) (by omega)]
    exact h.bytes

/-- So does an operation that touches neither. -/
theorem Queue.other (h : b.Queue pending M) {op : MemoryOperation}
    (hheader : ¬ op.Touches b.headerAddress BufferHeader.length)
    (hstorage : ¬ op.Touches b.base b.storageLength) : b.Queue pending (op.perform M) := by
  have hbound := h.sited.bound
  apply h.of_keeps
  · exact MemoryOperation.keeps_perform h.wellFormed h.sited.header_bound h.sited.header hheader
  · exact MemoryOperation.keeps_perform h.wellFormed hbound h.sited.storage hstorage

/-! ## What the header says -/

theorem ofNat_stop (b : TraceBuffer) :
    UInt64.ofNat b.base + UInt64.ofNat (b.capacity * Record.length) = UInt64.ofNat b.stop := by
  rw [← UInt64.ofNat_add]
  rfl

theorem Queue.load_word (h : b.Queue pending M) {offset : Nat}
    (hoffset : offset + 8 ≤ BufferHeader.length) :
    M.load (b.headerAddress + offset) 8 = .ok (M.wordAt (b.headerAddress + offset) 8) :=
  h.wellFormed.load_of_readable (by decide) (h.sited.usable_header hoffset).2

theorem Queue.cursor_eq (h : b.Queue pending M) :
    b.cursor M = .ok (UInt64.ofNat (b.slot pending)) := by
  rw [← h.cursor]
  exact h.load_word (by decide)

/-- The header is that of the empty buffer, up to the cursor. -/
theorem Queue.header_eq (h : b.Queue pending M) :
    b.header M = .ok { BufferHeader.forBuffer (UInt64.ofNat b.base) b.capacity with
      cursor := UInt64.ofNat (b.slot pending) } := by
  have hcursor : M.load b.cursorAddress 8 = .ok (UInt64.ofNat (b.slot pending)) := h.cursor_eq
  unfold TraceBuffer.header
  rw [hcursor, h.load_word (by decide), h.load_word (by decide), h.base, h.negatedEnd]
  unfold BufferHeader.forBuffer
  rw [b.ofNat_stop]
  rfl

theorem Queue.pending_eq (h : b.Queue pending M) : b.pending M = .ok pending.length :=
  h.sited.pending_eq h.wellFormed h.room h.cursor

theorem Queue.isFull_eq (h : b.Queue pending M) :
    b.isFull M = .ok (decide (pending.length = b.capacity)) := by
  unfold TraceBuffer.isFull
  rw [h.header_eq]
  change Except.ok (UInt64.ofNat (b.slot pending) + (0 - (UInt64.ofNat b.base +
    UInt64.ofNat (b.capacity * Record.length))) == 0) = _
  rw [b.ofNat_stop, beq_eq_decide, decide_eq_decide.2 (h.sited.full_iff h.room)]

/-! ## Steps on the queue -/

/-- With room for another record, the record goes to the end of the queue. -/
theorem Queue.append (h : b.Queue pending M) (hroom : pending.length < b.capacity) (r : Record) :
    ∃ M', b.append r M = .ok () M' ∧ b.Queue (pending ++ [r]) M' := by
  have hapart := h.sited.apart
  have hheaderLength : BufferHeader.length = 24 := rfl
  have hcursorAddress : b.cursorAddress = b.headerAddress := rfl
  have hlength : r.toBytes.length = Record.length := Record.length_toBytes r
  have hrecordLength : Record.length = 32 := rfl
  have hcount : (pending ++ [r]).length = pending.length + 1 := by simp
  have hslot : b.slot (pending ++ [r]) = b.slot pending + Record.length := by
    unfold slot
    rw [hcount, Nat.add_mul, Nat.one_mul, Nat.add_assoc]
  have hbehind : b.base ≤ b.slot pending := Nat.le_add_right _ _
  obtain ⟨hfits, _⟩ := h.sited.slot_fits hroom
  have hfree : M.Writable (b.slot pending) r.toBytes.length :=
    (h.sited.usable_storage hbehind (by omega)).1
  obtain ⟨M₁, hwrite, hwritten⟩ := h.wellFormed.write_of_writable (by omega) hfree
  have hsited₁ := h.sited.of_layout hwritten.layout
  obtain ⟨M₂, hstore, hmoved⟩ := hwritten.wellFormed.store_of_writable (by decide)
    (hsited₁.usable_header (show BufferHeader.cursorOffset + 8 ≤ BufferHeader.length by decide)).1
    (UInt64.ofNat (b.slot pending) + UInt64.ofNat Record.length)
  have hl : (littleEndian 8
      (UInt64.ofNat (b.slot pending) + UInt64.ofNat Record.length).toNat).length = 8 :=
    length_littleEndian _ _
  refine ⟨M₂, ?_, ?_⟩
  · have hlook := AddressSpace.look_of_ok h.cursor_eq
    have hfirst : AddressSpace.step
        (·.write (UInt64.ofNat (b.slot pending)).toNat r.toBytes) M = .ok () M₁ := by
      rw [h.sited.slot_toNat h.room]
      exact AddressSpace.step_of_ok hwrite
    have hsecond : AddressSpace.step (·.store b.cursorAddress 8
        (UInt64.ofNat (b.slot pending) + UInt64.ofNat Record.length)) M₁ = .ok () M₂ :=
      AddressSpace.step_of_ok hstore
    exact (Step.bind_of_ok hlook).trans ((Step.bind_of_ok hfirst).trans hsecond)
  have hword (offset : Nat) (hbase : BufferHeader.baseOffset ≤ offset)
      (hoffset : offset + 8 ≤ BufferHeader.length) :
      M₂.wordAt (b.headerAddress + offset) 8 = M.wordAt (b.headerAddress + offset) 8 := by
    have hbaseOffset : BufferHeader.baseOffset = 8 := rfl
    have hcursorOffset : BufferHeader.cursorOffset = 0 := rfl
    rw [hmoved.wordAt_apart (Or.inr (by omega)), hwritten.wordAt_apart (Or.inl (by omega))]
  constructor
  · exact hmoved.wellFormed
  · exact hsited₁.of_layout hmoved.layout
  · omega
  · rw [hslot, UInt64.ofNat_add]
    exact hmoved.wordAt_self
  · rw [hword _ (by decide) (by decide)]
    exact h.base
  · rw [hword _ (by decide) (by decide)]
    exact h.negatedEnd
  · have hcursorOffset : BufferHeader.cursorOffset = 0 := rfl
    have hself := hwritten.bytesAt_self
    rw [hlength] at hself
    rw [hmoved.bytesAt_apart (Or.inr (by omega)), hcount, Nat.add_mul, Nat.one_mul,
      AddressSpace.bytesAt_append, hwritten.bytesAt_apart (Or.inl (Nat.le_refl _)), h.bytes]
    change _ ++ M₁.bytesAt (b.slot pending) Record.length = _
    rw [hself]
    simp

/-- A reset empties the queue and clears the storage. -/
theorem Queue.reset (h : b.Queue pending M) :
    ∃ M', b.reset M = .ok () M' ∧ b.Queue [] M' ∧
      M'.read b.base b.storageLength = .ok (List.replicate b.storageLength 0) := by
  obtain ⟨M', hreset, hcleared⟩ := h.sited.reset h.wellFormed
  have hsited := h.sited.of_layout hcleared.confined.layout
  refine ⟨M', hreset, ?_, ?_⟩
  · constructor
    · exact hcleared.wellFormed
    · exact hsited
    · exact Nat.zero_le _
    · rw [hcleared.cursor, slot, List.length_nil, Nat.zero_mul, Nat.add_zero]
    · rw [hcleared.header _ (by decide) (by decide)]
      exact h.base
    · rw [hcleared.header _ (by decide) (by decide)]
      exact h.negatedEnd
    · rfl
  · have hpos : 0 < b.storageLength := Nat.mul_pos hsited.nonempty (by decide)
    rw [hcleared.wellFormed.read_of_readable hpos
      (hsited.usable_storage (Nat.le_refl _) (Nat.le_refl _)).2, hcleared.zeros]

/-! ## Draining -/

/-- The bytes of the pending records, if there are any or the empty range can be read. -/
theorem Queue.read_pending (h : b.Queue pending M) (hopen : pending = [] → ¬ b.Blocked M) :
    M.read b.base (pending.length * Record.length) = .ok (pending.flatMap Record.toBytes) := by
  cases pending with
  | nil =>
    rw [List.length_nil, Nat.zero_mul]
    exact (h.sited.read_nothing h.wellFormed).1 (hopen rfl)
  | cons r rs =>
    have hle := (h.sited.slot_le h.room).1
    have hpos : 0 < (r :: rs).length * Record.length := Nat.mul_pos (by simp) (by decide)
    rw [h.wellFormed.read_of_readable hpos (h.sited.usable_storage (Nat.le_refl _) hle).2, h.bytes]

/-- Draining takes the whole queue out, in order, and clears the storage. -/
theorem Queue.drain (h : b.Queue pending M) (hopen : pending = [] → ¬ b.Blocked M) :
    ∃ M', b.drain M = .ok pending M' ∧ b.Queue [] M' ∧
      M'.read b.base b.storageLength = .ok (List.replicate b.storageLength 0) := by
  obtain ⟨M', hreset, hqueue, hzeros⟩ := h.reset
  refine ⟨M', ?_, hqueue, hzeros⟩
  unfold TraceBuffer.drain
  simp only [h.pending_eq, h.read_pending hopen, hreset, Record.readMany_flatMap]

/-- A blocked buffer that is empty refuses to be drained, and stays as it is. -/
theorem Queue.drain_of_blocked (h : b.Queue [] M) (hblocked : b.Blocked M) :
    b.drain M = .error (.machine (.fault b.base 0 .read)) M := by
  have hread : M.read b.base (([] : List Record).length * Record.length) =
      .error (.fault b.base 0 .read) := by
    rw [List.length_nil, Nat.zero_mul]
    exact (h.sited.read_nothing h.wellFormed).2 hblocked
  unfold TraceBuffer.drain
  simp only [h.pending_eq, hread]

/-! ## The beginning and the end of a buffer -/

/-- The region with this shape can be unmapped. -/
theorem unmap_of_shape {base length : Nat} {permissions : Permissions} {isOwned : Bool}
    (hM : M.WellFormed) (hbase : base + 1 < addressBound)
    (hshape : (base, length, permissions, isOwned) ∈ M.layout) : ∃ M', M.unmap base = .ok M' := by
  obtain ⟨r, hr, hrshape⟩ := List.mem_map.1 hshape
  simp only [Region.shape, Prod.mk.injEq] at hrshape
  obtain ⟨rfl, _⟩ := hrshape
  obtain ⟨M', hunmap, _⟩ := hM.unmap_region hr hbase
  exact ⟨M', hunmap⟩

/-- A buffer can be given back. -/
theorem Queue.release (h : b.Queue pending M) : ∃ M', b.release M = .ok () M' := by
  have hapart := h.sited.apart
  have hheaderLength : BufferHeader.length = 24 := rfl
  have hbound := h.sited.header_bound
  have hpos : 0 < b.storageLength := Nat.mul_pos h.sited.nonempty (by decide)
  have hstop : b.base + b.storageLength < addressBound := h.sited.bound
  obtain ⟨M₁, hstorage⟩ := unmap_of_shape h.wellFormed (by omega) h.sited.storage
  have hkept : Keeps b.headerAddress BufferHeader.length M M₁ :=
    .unmap h.wellFormed hbound h.sited.header (by omega) hstorage
  obtain ⟨M₂, hheader⟩ := unmap_of_shape hkept.wellFormed (by omega) hkept.shape
  have hfirst : AddressSpace.step (·.unmap b.base) M = .ok () M₁ :=
    AddressSpace.step_of_ok hstorage
  have hsecond : AddressSpace.step (·.unmap b.headerAddress) M₁ = .ok () M₂ :=
    AddressSpace.step_of_ok hheader
  exact ⟨M₂, (Step.bind_of_ok hfirst).trans hsecond⟩

/-- A buffer that could be allocated is an empty queue, as long as its storage ends at an address. -/
theorem allocate_queue {capacity : Nat} (hM : M.WellFormed) (h : allocate capacity M = .ok b M')
    (hbound : b.stop < addressBound) : b.capacity = capacity ∧ b.Queue [] M' := by
  obtain ⟨hcapacity, hpos, hfirst, hsecond, M₁, M₂, halloc₁, halloc₂, hwrite⟩ :=
    allocate_steps hM h
  obtain ⟨hM', hconfined, hcursor, hbase, hnegatedEnd⟩ :=
    writeHeader_words halloc₂.wellFormed hwrite
  have hheaderRoom := le_roundUpToPage BufferHeader.length
  have hsited : b.Sited M₂ := by
    constructor
    · exact (halloc₂.layout _).2 (Or.inr ((halloc₁.layout _).2 (Or.inl rfl)))
    · exact (halloc₂.layout _).2 (Or.inl rfl)
    · exact hbound
    · omega
    · omega
  refine ⟨hcapacity, ?_⟩
  constructor
  · exact hM'
  · exact hsited.of_layout hconfined.layout
  · exact Nat.zero_le _
  · rw [hcursor, slot, List.length_nil, Nat.zero_mul, Nat.add_zero]
    rfl
  · exact hbase
  · rw [hnegatedEnd]
    simp only [BufferHeader.forBuffer, stop, storageLength, UInt64.ofNat_add]
  · rfl

end TraceBuffer

end AccessTrace
