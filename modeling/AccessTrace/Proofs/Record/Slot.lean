import AccessTrace.Proofs.Record.Buffer

/-!
# Putting a record into the buffer

What code that appends a record needs of memory, and what it leaves: the header and the storage may
be read and written to, wherever they are, as long as they are apart; the four fields of one slot
and the cursor change, and nothing else does. The padding of the slot keeps its bytes.
-/

namespace AccessTrace

namespace TraceBuffer

open AddressSpace (ChangedIn Written)

variable {b : TraceBuffer} {k : Nat} {r : Record} {pending : List Record}
  {M M' N : AddressSpace}

/-- There is room for one more record behind `k` others, and the header says so. -/
structure Ready (b : TraceBuffer) (k : Nat) (M : AddressSpace) : Prop where
  wellFormed : M.WellFormed
  header : M.Readable b.headerAddress BufferHeader.length ∧
    M.Writable b.headerAddress BufferHeader.length
  storage : M.Readable b.base b.storageLength ∧ M.Writable b.base b.storageLength
  apart : b.headerAddress + BufferHeader.length ≤ b.base ∨ b.stop ≤ b.headerAddress
  room : k < b.capacity
  cursor : M.load b.cursorAddress 8 = .ok (UInt64.ofNat (b.slotAt k))
  negatedEnd : M.load (b.headerAddress + BufferHeader.negatedEndOffset) 8 =
    .ok (0 - UInt64.ofNat b.stop)

/-- The addresses of the fields of a record: all of its slot but four bytes of padding. -/
def Fields (b : TraceBuffer) (k x : Nat) : Prop :=
  (b.slotAt k + Record.isWriteOffset ≤ x ∧ x < b.slotAt k + Record.isWriteOffset + 4) ∨
    (b.slotAt k + Record.addressOffset ≤ x ∧ x < b.slotAt k + Record.length)

/-- The addresses of the cursor. -/
def CursorBytes (b : TraceBuffer) (x : Nat) : Prop :=
  b.cursorAddress ≤ x ∧ x < b.cursorAddress + 8

/-- `M'` is `M` with a record in a slot. -/
structure Filled (b : TraceBuffer) (k : Nat) (r : Record) (M M' : AddressSpace) : Prop where
  changes : ChangedIn (b.Fields k) M M'
  record : Record.ofBytes? (M'.bytesAt (b.slotAt k) Record.length) = some r

/-- `M'` is `M` with a record in a slot and the cursor behind it. -/
structure Appended (b : TraceBuffer) (k : Nat) (r : Record) (M M' : AddressSpace) : Prop where
  changes : ChangedIn (fun x => b.Fields k x ∨ b.CursorBytes x) M M'
  cursor : M'.load b.cursorAddress 8 = .ok (UInt64.ofNat (b.slotAt (k + 1)))
  record : ∃ bytes, M'.read (b.slotAt k) Record.length = .ok bytes ∧
    Record.ofBytes? bytes = some r

theorem Ready.bounds (h : b.Ready k M) : b.base ≤ b.slotAt k ∧
    b.slotAt k + Record.length ≤ b.stop ∧ b.stop < addressBound ∧
    b.headerAddress + BufferHeader.length < addressBound := by
  obtain ⟨r, _, hheader, _⟩ := h.header.2
  obtain ⟨s, _, hstorage, _⟩ := h.storage.2
  have hslot := slotAt_le (b := b) (k := k + 1) h.room
  rw [slotAt_succ] at hslot
  exact ⟨Nat.le_add_right _ _, hslot, hstorage.2.2, hheader.2.2⟩

theorem Fields.mem_slot {x : Nat} (h : b.Fields k x) :
    b.slotAt k ≤ x ∧ x < b.slotAt k + Record.length := by
  have hdirection : Record.isWriteOffset = 0 := rfl
  have haddress : Record.addressOffset = 8 := rfl
  have hlength : Record.length = 32 := rfl
  rcases h with ⟨hlow, hhigh⟩ | ⟨hlow, hhigh⟩ <;> omega

/-- The header is apart from every slot. -/
theorem Ready.header_apart (h : b.Ready k M) {x : Nat} (hx : b.headerAddress ≤ x)
    (hx' : x < b.headerAddress + BufferHeader.length) : ¬ b.Fields k x := by
  intro hfield
  have hslot := hfield.mem_slot
  have hbounds := h.bounds
  have hapart := h.apart
  omega

theorem Filled.ready (hf : b.Filled k r M M') (h : b.Ready k M) : b.Ready k M' := by
  have hheader (offset : Nat) (hoffset : offset + 8 ≤ BufferHeader.length) {value : Word}
      (hload : M.load (b.headerAddress + offset) 8 = .ok value) :
      M'.load (b.headerAddress + offset) 8 = .ok value :=
    hf.changes.load h.wellFormed hload fun i hi => h.header_apart (by omega) (by omega)
  exact ⟨hf.changes.wellFormed,
    ⟨hf.changes.readable _ _ h.header.1, h.header.2.of_layout hf.changes.layout⟩,
    ⟨hf.changes.readable _ _ h.storage.1, h.storage.2.of_layout hf.changes.layout⟩, h.apart, h.room,
    hheader BufferHeader.cursorOffset (by decide) h.cursor,
    hheader BufferHeader.negatedEndOffset (by decide) h.negatedEnd⟩

/-- A store to one field of the slot. -/
theorem Ready.store_field (h : b.Ready k M) (hN : ChangedIn (b.Fields k) M N) {offset width : Nat}
    (hwidth : AddressSpace.isScalarWidth width = true)
    (hfields : ∀ x, b.slotAt k + offset ≤ x → x < b.slotAt k + offset + width → b.Fields k x)
    (value : Word) :
    ∃ N', N.store (b.slotAt k + offset) width value = .ok N' ∧
      Written N (b.slotAt k + offset) (littleEndian width value.toNat) N' ∧
      ChangedIn (b.Fields k) M N' := by
  obtain ⟨hbase, hfits, _⟩ := h.bounds
  have hstop : b.stop = b.base + b.storageLength := rfl
  have hpos := AddressSpace.isScalarWidth_pos hwidth
  have hlast := (hfields (b.slotAt k + offset + width - 1) (by omega) (by omega)).mem_slot
  have hw : M.Writable (b.base + (b.slotAt k + offset - b.base)) width :=
    h.storage.2.slice (by omega)
  rw [Nat.add_sub_cancel' (by omega)] at hw
  obtain ⟨N', hok, hwritten⟩ :=
    hN.wellFormed.store_of_writable hwidth (hw.of_layout hN.layout) value
  refine ⟨N', hok, hwritten, hN.trans (hwritten.changedIn hN.wellFormed fun x hx hx' => ?_)⟩
  rw [length_littleEndian] at hx'
  exact hfields x hx hx'

/-- The four stores that put a record into a slot, one for each field. -/
theorem Ready.fill (h : b.Ready k M) (isWrite address size origin : Word) :
    ∃ M₁ M₂ M₃ M₄,
      M.store (b.slotAt k + Record.isWriteOffset) 4 isWrite = .ok M₁ ∧
      M₁.store (b.slotAt k + Record.addressOffset) 8 address = .ok M₂ ∧
      M₂.store (b.slotAt k + Record.sizeOffset) 8 size = .ok M₃ ∧
      M₃.store (b.slotAt k + Record.originOffset) 8 origin = .ok M₄ ∧
      b.Filled k ⟨UInt32.ofNat (isWrite.toNat % 2 ^ 32), address, size, origin⟩ M M₄ := by
  have hword (offset : Nat) (hoffset : Record.addressOffset ≤ offset)
      (hlast : offset + 8 ≤ Record.length) (x : Nat) (hx : b.slotAt k + offset ≤ x)
      (hx' : x < b.slotAt k + offset + 8) : b.Fields k x := Or.inr (by omega)
  obtain ⟨M₁, hok₁, hw₁, hc₁⟩ := h.store_field (.refl _ h.wellFormed) (by decide)
    (fun x hx hx' => Or.inl ⟨hx, hx'⟩) isWrite
  obtain ⟨M₂, hok₂, hw₂, hc₂⟩ := h.store_field hc₁ (by decide)
    (hword Record.addressOffset (by decide) (by decide)) address
  obtain ⟨M₃, hok₃, hw₃, hc₃⟩ := h.store_field hc₂ (by decide)
    (hword Record.sizeOffset (by decide) (by decide)) size
  obtain ⟨M₄, hok₄, hw₄, hc₄⟩ := h.store_field hc₃ (by decide)
    (hword Record.originOffset (by decide) (by decide)) origin
  exact ⟨M₁, M₂, M₃, M₄, hok₁, hok₂, hok₃, hok₄, hc₄,
    Record.ofBytes?_of_written hw₁ hw₂ hw₃ hw₄⟩

/-- Moving the cursor behind a record that is in its slot already. -/
theorem Filled.advance (hf : b.Filled k r M M') (h : b.Ready k M) :
    ∃ M'', M'.store b.cursorAddress 8 (UInt64.ofNat (b.slotAt (k + 1))) = .ok M'' ∧
      b.Appended k r M M'' := by
  have h' := hf.ready h
  obtain ⟨hbase, hfits, _⟩ := h.bounds
  have hlength : BufferHeader.length = 24 := rfl
  have hcursor : b.cursorAddress = b.headerAddress := rfl
  have hstop : b.stop = b.base + b.storageLength := rfl
  have hword : M'.Readable b.cursorAddress 8 ∧ M'.Writable b.cursorAddress 8 :=
    ⟨h'.header.1.slice (i := 0) (by decide), h'.header.2.slice (i := 0) (by decide)⟩
  obtain ⟨M'', hok, hwritten⟩ := h'.wellFormed.store_of_writable (by decide) hword.2
    (UInt64.ofNat (b.slotAt (k + 1)))
  have hchanges : ChangedIn b.CursorBytes M' M'' := by
    refine hwritten.changedIn h'.wellFormed fun x hx hx' => ⟨hx, ?_⟩
    rwa [length_littleEndian] at hx'
  refine ⟨M'', hok, ?_, ?_, ?_⟩
  · exact (hf.changes.mono fun _ => Or.inl).trans (hchanges.mono fun _ => Or.inr)
  · rw [hchanges.wellFormed.load_of_readable (by decide) (hchanges.readable _ _ hword.1),
      hwritten.wordAt_self]
  · have hread : M'.Readable (b.base + (b.slotAt k - b.base)) Record.length :=
      h'.storage.1.slice (by omega)
    rw [Nat.add_sub_cancel' hbase] at hread
    have hslot : M''.bytesAt (b.slotAt k) Record.length =
        M'.bytesAt (b.slotAt k) Record.length := by
      have hapart := h.apart
      refine hwritten.bytesAt_apart ?_
      rw [length_littleEndian]
      omega
    refine ⟨_, hchanges.wellFormed.read_of_readable (by decide) (hchanges.readable _ _ hread), ?_⟩
    rw [hslot]
    exact hf.record

/-- Appending leaves the rest of the header alone. -/
theorem Appended.negatedEnd (ha : b.Appended k r M M') (h : b.Ready k M) :
    M'.load (b.headerAddress + BufferHeader.negatedEndOffset) 8 =
      .ok (0 - UInt64.ofNat b.stop) := by
  have hcursor : b.cursorAddress = b.headerAddress := rfl
  have hoffset : BufferHeader.negatedEndOffset = 16 := rfl
  have hlength : BufferHeader.length = 24 := rfl
  refine ha.changes.load h.wellFormed h.negatedEnd fun i hi hchanged => ?_
  rcases hchanged with hfield | ⟨_, hbefore⟩
  · exact h.header_apart (by omega) (by omega) hfield
  · omega

/-- Appending leaves the records that were there alone. -/
theorem Appended.bytesAt_before (ha : b.Appended k r M M') (h : b.Ready k M) :
    M'.bytesAt b.base (k * Record.length) = M.bytesAt b.base (k * Record.length) := by
  have hapart := h.apart
  have hbounds := h.bounds
  have hcursor : b.cursorAddress = b.headerAddress := rfl
  have hlength : BufferHeader.length = 24 := rfl
  have hslotAt : b.slotAt k = b.base + k * Record.length := rfl
  refine AddressSpace.bytesAt_congr fun i hi => ha.changes.byte? _ fun hchanged => ?_
  rcases hchanged with hfield | ⟨hbehind, hbefore⟩
  · have hslot := hfield.mem_slot
    omega
  · omega

/-! ## Buffers that hold records -/

/-- A buffer that is not full is ready for one more record. -/
theorem Holds.ready (h : b.Holds pending M) (hroom : pending.length < b.capacity) :
    b.Ready pending.length M := by
  have hsited := h.placed.sited
  have hbound := hsited.header_bound
  have hheader := AddressSpace.usable hsited.header (Nat.le_refl _) (Nat.le_refl _) hbound
  have hstorage := hsited.usable_storage (Nat.le_refl _) (Nat.le_refl _)
  have hload (offset : Nat) (hoffset : offset + 8 ≤ BufferHeader.length) :
      M.load (b.headerAddress + offset) 8 = .ok (M.wordAt (b.headerAddress + offset) 8) :=
    h.wellFormed.load_of_readable (by decide) (hsited.usable_header hoffset).2
  refine ⟨h.wellFormed, hheader.symm, hstorage.symm, Or.inl hsited.apart, hroom, ?_, ?_⟩
  · have hcursor := hload BufferHeader.cursorOffset (by decide)
    rwa [show M.wordAt (b.headerAddress + BufferHeader.cursorOffset) 8 = _ from h.cursor] at hcursor
  · rw [hload _ (by decide), h.negatedEnd]

/-- What is appended to a buffer becomes pending, and the rest of memory stays. -/
theorem Appended.holds (ha : b.Appended pending.length r M M') (h : b.Holds pending M)
    (hroom : pending.length < b.capacity) :
    b.Holds (pending ++ [r]) M' ∧ b.Confined M M' := by
  have hready := h.ready hroom
  have hbounds := hready.bounds
  have hcursor : b.cursorAddress = b.headerAddress := rfl
  have hheaderLength : BufferHeader.length = 24 := rfl
  have hlength : (pending ++ [r]).length = pending.length + 1 := by simp
  have hword (offset : Nat) {value : Word}
      (hload : M'.load (b.headerAddress + offset) 8 = .ok value) :
      M'.wordAt (b.headerAddress + offset) 8 = value :=
    (ha.changes.wellFormed.load_ok hload).2.2.symm
  obtain ⟨bytes, hread, hrecord⟩ := ha.record
  have hnew : M'.bytesAt (b.base + pending.length * Record.length) Record.length = bytes := by
    have hreadable := AddressSpace.readable_of_read (by decide) hread
    rw [ha.changes.wellFormed.read_of_readable (by decide) hreadable] at hread
    exact Except.ok.inj hread
  refine ⟨⟨ha.changes.wellFormed, h.placed.of_layout ha.changes.layout, by omega, ?_, ?_, ?_⟩,
    ha.changes.layout, fun x hx => ha.changes.byte? x fun hchanged => hx ?_⟩
  · rw [hlength]
    exact hword BufferHeader.cursorOffset ha.cursor
  · exact hword BufferHeader.negatedEndOffset (ha.negatedEnd hready)
  · rw [hlength, Nat.add_mul, Nat.one_mul, AddressSpace.bytesAt_append,
      ha.bytesAt_before hready,
      Record.readMany_append _ AddressSpace.length_bytesAt, h.records, hnew, hrecord]
    rfl
  · rcases hchanged with hfield | ⟨hbehind, hbefore⟩
    · have hslot := hfield.mem_slot
      exact Or.inr (by omega)
    · exact Or.inl (by omega)

end TraceBuffer

end AccessTrace
