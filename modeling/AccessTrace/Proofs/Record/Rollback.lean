import AccessTrace.Proofs.Memory.Restoration
import AccessTrace.Proofs.Record.Placement

/-!
# Buffers that are not kept

A buffer is got in stages: the header, the storage, and the words of the header. An allocation that
fails in one of them has given back what it had. One that succeeds can be given back, and then
memory is as before. Either way only the place of the next allocation has moved.
-/

namespace AccessTrace

namespace AddressSpace

/-- Everything is as it was before, but for the place of the next allocation. -/
def Restored (M M' : AddressSpace) : Prop :=
  ∃ next, M' = { M with nextAllocation := next }

theorem Restored.refl (M : AddressSpace) : Restored M M := ⟨M.nextAllocation, rfl⟩

end AddressSpace

namespace TraceBuffer

open AddressSpace (Added Edited Restored)

variable {b : TraceBuffer} {M M' M'' : AddressSpace} {capacity : Nat}

/-- The words of a header can be stored, and this edits the region of the header only. -/
theorem writeHeader_edited (hM : M.WellFormed)
    (hshape : (b.headerAddress, BufferHeader.length, .readWrite, true) ∈ M.layout)
    (hbound : b.headerAddress + BufferHeader.length < addressBound) (header : BufferHeader) :
    ∃ M', b.writeHeader header M = .ok () M' ∧ Edited b.headerAddress M M' := by
  have hlength : BufferHeader.length = 24 := rfl
  have hfits (offset : Nat) (hoffset : offset + 8 ≤ BufferHeader.length) (value : Word)
      {M : AddressSpace} (hM : M.WellFormed)
      (hshape : (b.headerAddress, BufferHeader.length, .readWrite, true) ∈ M.layout) :=
    hM.store_edited (a := b.headerAddress + offset) hshape hbound (Nat.le_add_right _ _) (by omega)
      value
  obtain ⟨M₁, h₁, hM₁, hlayout₁, hedited₁⟩ :=
    hfits BufferHeader.cursorOffset (by decide) header.cursor hM hshape
  rw [← hlayout₁] at hshape
  obtain ⟨M₂, h₂, hM₂, hlayout₂, hedited₂⟩ :=
    hfits BufferHeader.baseOffset (by decide) header.base hM₁ hshape
  rw [← hlayout₂] at hshape
  obtain ⟨M₃, h₃, _, _, hedited₃⟩ :=
    hfits BufferHeader.negatedEndOffset (by decide) header.negatedEnd hM₂ hshape
  refine ⟨M₃, ?_, (hedited₁.trans hedited₂).trans hedited₃⟩
  exact (Step.bind_of_ok (AddressSpace.step_of_ok h₁)).trans
    ((Step.bind_of_ok (AddressSpace.step_of_ok h₂)).trans (AddressSpace.step_of_ok h₃))

/-- Storage that cannot be had makes the header go, too. -/
theorem allocateStorage_error {header : Region} {length : Nat} {e : MachineError}
    (hadded : Added header M M') (h : M'.allocate length .readWrite = .error e) :
    ∃ M'', allocateStorage header.base length M' = .error e M'' ∧ Restored M M'' := by
  refine ⟨_, ?_, M'.nextAllocation, rfl⟩
  unfold allocateStorage
  rw [AddressSpace.allocateM_apply, h]
  exact Step.bind_of_ok (AddressSpace.step_of_ok hadded.unmap)

/-- A buffer whose header was edited is given back like a new one. -/
theorem release_restored {header storage : Region} {M₁ M₂ : AddressSpace}
    (hheader : Added header M M₁) (hstorage : Added storage M₁ M₂)
    (hedited : Edited header.base M₂ M') (hne : header.base ≠ storage.base) (capacity : Nat) :
    ∃ M'', release ⟨header.base, storage.base, capacity⟩ M' = .ok () M'' ∧ Restored M M'' := by
  obtain ⟨M₃, hfirst, hedited₃⟩ := hedited.unmap_other hne hstorage.unmap
  have hsecond := hedited₃.unmap.trans (hheader.withNext M₂.nextAllocation).unmap
  exact ⟨_, (Step.bind_of_ok (AddressSpace.step_of_ok hfirst)).trans
    (AddressSpace.step_of_ok hsecond), _, rfl⟩

/-- Once header and storage are there, the words of the header can be stored, and the buffer can be
given back. -/
theorem writeHeader_restored {header base : Nat} {M₁ M₂ : AddressSpace} (hM : M.WellFormed)
    (haligned : pageSize ∣ M.nextAllocation) (hnext : M.nextAllocation < addressBound)
    (hheader : AddressSpace.allocateM BufferHeader.length .readWrite M = .ok header M₁)
    (hstorage : AddressSpace.allocateM (capacity * Record.length) .readWrite M₁ = .ok base M₂) :
    ∃ M₃, (⟨header, base, capacity⟩ : TraceBuffer).writeHeader
        (.forBuffer (UInt64.ofNat base) capacity) M₂ = .ok () M₃ ∧
      ∃ M'', release ⟨header, base, capacity⟩ M₃ = .ok () M'' ∧ Restored M M'' := by
  obtain ⟨hfirst, hnext₁, halloc₁⟩ := AddressSpace.allocateM_ok hM hheader
  obtain ⟨hsecond, _, halloc₂⟩ := AddressSpace.allocateM_ok halloc₁.wellFormed hstorage
  -- A header that starts at a page below the bound ends below it.
  have hbound : header + BufferHeader.length < addressBound := by
    obtain ⟨pages, hpages⟩ := haligned
    unfold BufferHeader.length
    unfold addressBound at hnext ⊢
    unfold pageSize at hpages
    omega
  obtain ⟨M₃, hwrite, hedited⟩ := writeHeader_edited (b := ⟨header, base, capacity⟩)
    halloc₂.wellFormed ((halloc₂.layout _).2 (Or.inr ((halloc₁.layout _).2 (Or.inl rfl))))
    hbound (.forBuffer (UInt64.ofNat base) capacity)
  have hne : header ≠ base := by
    have hroom : 0 < pageSize := by decide
    omega
  have hadded₁ := hM.added_allocate (AddressSpace.allocateM_eq_ok hheader)
  have hadded₂ := halloc₁.wellFormed.added_allocate (AddressSpace.allocateM_eq_ok hstorage)
  exact ⟨M₃, hwrite, release_restored hadded₁ hadded₂ hedited hne capacity⟩

/-- An allocation that fails has been undone, and one that succeeds can be. -/
theorem allocate_restored (hM : M.WellFormed) (haligned : pageSize ∣ M.nextAllocation)
    (hnext : M.nextAllocation < addressBound) (capacity : Nat) :
    (∃ e M', allocate capacity M = .error e M' ∧ Restored M M') ∨
    ∃ b M', allocate capacity M = .ok b M' ∧
      ∃ M'', b.release M' = .ok () M'' ∧ Restored M M'' := by
  unfold allocate
  dsimp only
  by_cases hlength : capacity * Record.length = 0 ∨ addressBound ≤ capacity * Record.length
  · rw [if_pos hlength]
    exact Or.inl ⟨_, M, rfl, .refl M⟩
  rw [if_neg hlength]
  have hheaderM := AddressSpace.allocateM_apply BufferHeader.length .readWrite M
  cases hheader : M.allocate BufferHeader.length .readWrite with
  | error e =>
    rw [hheader] at hheaderM
    exact Or.inl ⟨e, M, Step.bind_of_error hheaderM, .refl M⟩
  | ok allocated =>
    obtain ⟨header, M₁⟩ := allocated
    rw [hheader] at hheaderM
    cases hstorage : M₁.allocate (capacity * Record.length) .readWrite with
    | error e =>
      obtain ⟨M₂, hfailed, hrestored⟩ :=
        allocateStorage_error (hM.added_allocate hheader) hstorage
      refine Or.inl ⟨e, M₂, ?_, hrestored⟩
      exact (Step.bind_of_ok hheaderM).trans (Step.bind_of_error hfailed)
    | ok allocated =>
      obtain ⟨base, M₂⟩ := allocated
      have hstorageM := AddressSpace.allocateM_apply (capacity * Record.length) .readWrite M₁
      rw [hstorage] at hstorageM
      have hkept : allocateStorage header (capacity * Record.length) M₁ = .ok base M₂ := by
        unfold allocateStorage
        rw [hstorageM]
      obtain ⟨M₃, hwrite, hrestored⟩ :=
        writeHeader_restored hM haligned hnext hheaderM hstorageM
      refine Or.inr ⟨⟨header, base, capacity⟩, M₃, ?_, hrestored⟩
      exact (Step.bind_of_ok hheaderM).trans
        ((Step.bind_of_ok hkept).trans (Step.bind_of_ok hwrite))

end TraceBuffer

end AccessTrace
