import AccessTrace.Proofs.Record.Buffer

/-!
# Getting a buffer and giving it back

A buffer that could be allocated is empty and stands in memory that was free before, so that the
memory from before is embedded in the new one. A buffer that is released leaves its place free, and
everything else as it was.
-/

namespace AccessTrace

namespace AddressSpace

variable {M M' : AddressSpace} {base length : Nat} {permissions : Permissions}

/-- What an allocation adds. -/
structure Allocated (M : AddressSpace) (base length : Nat) (permissions : Permissions)
    (M' : AddressSpace) : Prop where
  wellFormed : M'.WellFormed
  bound : length < storageBound
  free : ∀ x, base ≤ x → x < base + length → x + 1 < addressBound → M.isMapped x = false
  region : ∃ new : Region, new.shape = (base, length, permissions, true) ∧
    ∀ r, r ∈ M'.regions ↔ r = new ∨ r ∈ M.regions

theorem Allocated.layout (h : Allocated M base length permissions M')
    (shape : Nat × Nat × Permissions × Bool) :
    shape ∈ M'.layout ↔ shape = (base, length, permissions, true) ∨ shape ∈ M.layout := by
  obtain ⟨new, hnew, hregions⟩ := h.region
  simp only [AddressSpace.layout, List.mem_map, hregions]
  constructor
  · rintro ⟨r, rfl | hr, rfl⟩
    · exact Or.inl hnew
    · exact Or.inr ⟨r, hr, rfl⟩
  · rintro (rfl | ⟨r, hr, rfl⟩)
    · exact ⟨new, Or.inl rfl, hnew⟩
    · exact ⟨r, Or.inr hr, rfl⟩

theorem Allocated.embeds (h : Allocated M base length permissions M') (hM : M.WellFormed) :
    Embeds M M' := by
  obtain ⟨new, _, hregions⟩ := h.region
  exact .of_subset hM h.wellFormed fun r hr => (hregions r).2 (Or.inr hr)

theorem allocateM_ok (hM : M.WellFormed) (h : allocateM length permissions M = .ok base M') :
    base = M.nextAllocation ∧ M'.nextAllocation = base + roundUpToPage length + pageSize ∧
      Allocated M base length permissions M' := by
  obtain ⟨rfl, mapped, hmap, rfl⟩ := allocate_ok (allocateM_eq_ok h)
  have hwf := hM.map hmap
  obtain ⟨hpos, hfree, hroom, rfl⟩ := map_ok hmap
  refine ⟨rfl, rfl, ⟨hwf.ordered, hwf.sound⟩, lt_of_hasRoom hroom, fun x hx hx' hbound => ?_,
    ⟨M.nextAllocation, length, permissions, .owned (.zeroed length)⟩, rfl,
    fun r => mem_insertSorted⟩
  rw [isMapped_eq_false_iff]
  intro r hr hrange
  have happart := not_overlaps hfree hr
  omega

end AddressSpace

namespace TraceBuffer

open AddressSpace (Embeds Allocated)

variable {b : TraceBuffer} {pending : List Record} {m M M' : AddressSpace}

theorem allocateStorage_ok {headerAddress length base : Nat}
    (h : allocateStorage headerAddress length M = .ok base M') :
    AddressSpace.allocateM length .readWrite M = .ok base M' := by
  unfold allocateStorage at h
  cases halloc : AddressSpace.allocateM length .readWrite M with
  | ok base' M₁ =>
    rw [halloc] at h
    exact h
  | error e M₁ =>
    rw [halloc] at h
    obtain ⟨_, _, _, hthrow⟩ := Step.bind_eq_ok h
    contradiction

/-- A header that could be stored is there, and nothing outside of the buffer has changed. -/
theorem writeHeader_words {header : BufferHeader} (hM : M.WellFormed)
    (h : b.writeHeader header M = .ok () M') :
    M'.WellFormed ∧ b.Confined M M' ∧
      M'.wordAt b.cursorAddress 8 = header.cursor ∧
      M'.wordAt (b.headerAddress + BufferHeader.baseOffset) 8 = header.base ∧
      M'.wordAt (b.headerAddress + BufferHeader.negatedEndOffset) 8 = header.negatedEnd := by
  have hheader : BufferHeader.length = 24 := rfl
  obtain ⟨_, M₁, h₁, h⟩ := Step.bind_eq_ok h
  obtain ⟨_, M₂, h₂, h₃⟩ := Step.bind_eq_ok h
  obtain ⟨_, hw₁⟩ := hM.store_ok (AddressSpace.step_eq_ok h₁)
  obtain ⟨_, hw₂⟩ := hw₁.wellFormed.store_ok (AddressSpace.step_eq_ok h₂)
  obtain ⟨_, hw₃⟩ := hw₂.wellFormed.store_ok (AddressSpace.step_eq_ok h₃)
  have hin {offset : Nat} (hoffset : offset + 8 ≤ BufferHeader.length) {M M' : AddressSpace}
      {value : Word} (hw : AddressSpace.Written M (b.headerAddress + offset)
        (littleEndian 8 value.toNat) M') : b.Confined M M' := by
    refine .of_written hw fun x hx hx' => Or.inl ?_
    rw [length_littleEndian] at hx'
    omega
  refine ⟨hw₃.wellFormed,
    ((hin (by decide) hw₁).trans (hin (by decide) hw₂)).trans (hin (by decide) hw₃),
    ?_, ?_, hw₃.wordAt_self⟩
  · rw [hw₃.wordAt_apart (Or.inl (by simp [cursorAddress, BufferHeader.cursorOffset,
        BufferHeader.negatedEndOffset])),
      hw₂.wordAt_apart (Or.inl (by simp [cursorAddress, BufferHeader.cursorOffset,
        BufferHeader.baseOffset]))]
    exact hw₁.wordAt_self
  · rw [hw₃.wordAt_apart (Or.inl (by simp [BufferHeader.baseOffset,
      BufferHeader.negatedEndOffset]))]
    exact hw₂.wordAt_self

/-- Storing an empty header gives an empty buffer. -/
theorem writeHeader_ok (hM : M.WellFormed) (hplaced : b.Placed M)
    (h : b.writeHeader (.forBuffer (UInt64.ofNat b.base) b.capacity) M = .ok () M') :
    b.Holds [] M' ∧ b.Confined M M' := by
  obtain ⟨hM', hconfined, hcursor, _, hnegatedEnd⟩ := writeHeader_words hM h
  refine ⟨⟨hM', hplaced.of_layout hconfined.layout, Nat.zero_le _, ?_, ?_, rfl⟩, hconfined⟩
  · rw [List.length_nil, Nat.zero_mul, Nat.add_zero]
    exact hcursor
  · rw [hnegatedEnd]
    simp only [BufferHeader.forBuffer, stop, storageLength, UInt64.ofNat_add]

/-- The steps of an allocation that succeeded: the header, the storage a page behind it, and an
empty header stored. -/
theorem allocate_steps {capacity : Nat} (hM : M.WellFormed)
    (h : allocate capacity M = .ok b M') :
    b.capacity = capacity ∧ 0 < capacity ∧ b.headerAddress = M.nextAllocation ∧
      b.base = b.headerAddress + roundUpToPage BufferHeader.length + pageSize ∧
      ∃ M₁ M₂, Allocated M b.headerAddress BufferHeader.length .readWrite M₁ ∧
        Allocated M₁ b.base b.storageLength .readWrite M₂ ∧
        b.writeHeader (.forBuffer (UInt64.ofNat b.base) b.capacity) M₂ = .ok () M' := by
  unfold allocate at h
  dsimp only at h
  split at h
  · obtain ⟨_, _, hthrow, _⟩ := Step.bind_eq_ok h
    contradiction
  rename_i hlength
  obtain ⟨headerAddress, M₁, hheader, h⟩ := Step.bind_eq_ok h
  obtain ⟨base, M₂, hstorage, h⟩ := Step.bind_eq_ok h
  obtain ⟨_, M₃, hwrite, hbuffer⟩ := Step.bind_eq_ok h
  injection hbuffer with hb hM'
  subst hb hM'
  obtain ⟨hfirst, hnext₁, halloc₁⟩ := AddressSpace.allocateM_ok hM hheader
  obtain ⟨hsecond, _, halloc₂⟩ :=
    AddressSpace.allocateM_ok halloc₁.wellFormed (allocateStorage_ok hstorage)
  exact ⟨rfl, Nat.pos_of_ne_zero fun hzero => hlength (Or.inl (by rw [hzero, Nat.zero_mul])),
    hfirst, hsecond.trans hnext₁, M₁, M₂, halloc₁, halloc₂, hwrite⟩

/-- A buffer that could be allocated is empty, and stands where nothing was. -/
theorem allocate_ok {capacity : Nat} (hM : M.WellFormed) (hnext : M.nextAllocation = heapBase)
    (hbelow : ∀ shape ∈ M.layout, shape.1 ≤ heapBase + 2 * pageSize →
      shape.2.2 = (.readWrite, true))
    (h : allocate capacity M = .ok b M') :
    b.capacity = capacity ∧ b.Holds [] M' ∧ Embeds M M' ∧
      (∀ x, b.Owns x → M.isMapped x = false) ∧
      ∀ shape ∈ M'.layout, shape ∈ M.layout ∨
        shape = (b.headerAddress, BufferHeader.length, .readWrite, true) ∨
        shape = (b.base, b.storageLength, .readWrite, true) := by
  obtain ⟨hcapacity, hpos, hfirst, hsecond, M₁, M₂, halloc₁, halloc₂, hwrite⟩ :=
    allocate_steps hM h
  rw [hnext] at hfirst
  have hbase : b.base = heapBase + 2 * pageSize := by
    rw [hsecond, hfirst]
    rfl
  have hheap : heapBase + 2 * pageSize + storageBound < addressBound := by decide
  have hbound := halloc₂.bound
  have hheaderLength : BufferHeader.length = 24 := rfl
  have hpage : pageSize = 4096 := rfl
  have hstop : b.stop = b.base + b.storageLength := rfl
  have hplaced : b.Placed M₂ := by
    refine ⟨(halloc₂.layout _).2 (Or.inr ((halloc₁.layout _).2 (Or.inl rfl))),
      (halloc₂.layout _).2 (Or.inl rfl), by omega, by omega, by omega, fun shape hshape hle => ?_⟩
    rcases (halloc₂.layout shape).1 hshape with rfl | hshape
    · rfl
    · rcases (halloc₁.layout shape).1 hshape with rfl | hshape
      · rfl
      · exact hbelow shape hshape (hbase ▸ hle)
  have hembeds : Embeds M M₂ := (halloc₁.embeds hM).trans (halloc₂.embeds halloc₁.wellFormed)
  have hfree (x : Nat) (hx : b.Owns x) : M.isMapped x = false := by
    rcases hx with hx | hx
    · exact halloc₁.free x hx.1 hx.2 (by omega)
    · have hfree₁ := halloc₂.free x hx.1 (by omega) (by omega)
      obtain ⟨_, _, hregions⟩ := halloc₁.region
      rw [AddressSpace.isMapped_eq_false_iff] at hfree₁ ⊢
      exact fun r hr => hfree₁ r ((hregions r).2 (Or.inr hr))
  obtain ⟨hholds, hconfined⟩ := writeHeader_ok halloc₂.wellFormed hplaced hwrite
  refine ⟨hcapacity, hholds, hconfined.embeds hembeds hholds.wellFormed hfree, hfree,
    fun shape hshape => ?_⟩
  rw [hconfined.layout, halloc₂.layout] at hshape
  rcases hshape with rfl | hshape
  · exact Or.inr (Or.inr rfl)
  · rcases (halloc₁.layout shape).1 hshape with rfl | hshape
    · exact Or.inr (Or.inl rfl)
    · exact Or.inl hshape

/-- A released buffer leaves its place free and everything else as it was. -/
theorem Holds.release (h : b.Holds pending M) (hembeds : Embeds m M)
    (hapart : ∀ x, b.Owns x → m.isMapped x = false) :
    ∃ M', b.release M = .ok () M' ∧ Embeds m M' ∧ ∀ x, b.Owns x → M'.isMapped x = false := by
  have hbound := h.placed.bound
  have happart := h.placed.apart
  have hrange {r : Region} {base length : Nat}
      (hshape : r.shape = (base, length, .readWrite, true)) :
      r.base = base ∧ r.stop = base + length := by
    simp only [Region.shape, Prod.mk.injEq] at hshape
    unfold Region.stop
    omega
  have hstop : b.stop = b.base + b.storageLength := rfl
  have hheaderLength : BufferHeader.length = 24 := rfl
  obtain ⟨r, hr, hrshape⟩ := List.mem_map.1 h.placed.storage
  obtain ⟨s, hs, hsshape⟩ := List.mem_map.1 h.placed.header
  obtain ⟨hrbase, hrstop⟩ := hrange hrshape
  obtain ⟨hsbase, hsstop⟩ := hrange hsshape
  obtain ⟨M₁, hunmap₁, hembeds₁, hregions₁, hfree₁⟩ := hembeds.unmap hr (by omega)
    fun x hx hx' => hapart x (Or.inr (by omega))
  have hs₁ : s ∈ M₁.regions := (hregions₁ s).2 ⟨hs, by omega⟩
  obtain ⟨M₂, hunmap₂, hembeds₂, hregions₂, hfree₂⟩ := hembeds₁.unmap hs₁ (by omega)
    fun x hx hx' => hapart x (Or.inl (by omega))
  refine ⟨M₂, ?_, hembeds₂, fun x hx => ?_⟩
  · rw [hrbase] at hunmap₁
    rw [hsbase] at hunmap₂
    have hfirst : AddressSpace.step (·.unmap b.base) M = .ok () M₁ :=
      AddressSpace.step_of_ok hunmap₁
    have hsecond : AddressSpace.step (·.unmap b.headerAddress) M₁ = .ok () M₂ :=
      AddressSpace.step_of_ok hunmap₂
    exact (Step.bind_of_ok hfirst).trans hsecond
  · rcases hx with hx | hx
    · exact hfree₂ x (by omega) (by omega)
    · have hfree := hfree₁ x (by omega) (by omega)
      rw [AddressSpace.isMapped_eq_false_iff] at hfree ⊢
      exact fun t ht => hfree t ((hregions₂ t).1 ht).1

end TraceBuffer

end AccessTrace
