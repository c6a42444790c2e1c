import AccessTrace.Proofs.Machine.Steps
import AccessTrace.Proofs.Memory.Embedding
import AccessTrace.Proofs.Memory.InPlace
import AccessTrace.Proofs.Record.Layout
import AccessTrace.Record.Buffer

/-!
# The buffer in memory

`Holds` is the invariant of a trace buffer: header and storage are regions of their own, the cursor
stands behind the pending records, the negated end belongs to the storage, and the bytes below the
cursor decode to the pending records. Draining gives back exactly what is pending.
-/

namespace AccessTrace

namespace TraceBuffer

open AddressSpace (Embeds Written)

variable {b : TraceBuffer} {pending : List Record} {m M M' M'' : AddressSpace}

/-- The addresses of the header and of the storage. -/
def Owns (b : TraceBuffer) (x : Nat) : Prop :=
  (b.headerAddress ≤ x ∧ x < b.headerAddress + BufferHeader.length) ∨ (b.base ≤ x ∧ x < b.stop)

/-- Header and storage are ordinary memory, one behind the other. -/
structure Sited (b : TraceBuffer) (M : AddressSpace) : Prop where
  header : (b.headerAddress, BufferHeader.length, .readWrite, true) ∈ M.layout
  storage : (b.base, b.storageLength, .readWrite, true) ∈ M.layout
  bound : b.stop < addressBound
  apart : b.headerAddress + BufferHeader.length ≤ b.base
  nonempty : 0 < b.capacity

/-- Header and storage are ordinary memory, and so is everything else up to the storage. -/
structure Placed (b : TraceBuffer) (M : AddressSpace) : Prop where
  header : (b.headerAddress, BufferHeader.length, .readWrite, true) ∈ M.layout
  storage : (b.base, b.storageLength, .readWrite, true) ∈ M.layout
  bound : b.stop < addressBound
  apart : b.headerAddress + BufferHeader.length ≤ b.base
  nonempty : 0 < b.capacity
  below : ∀ shape ∈ M.layout, shape.1 ≤ b.base → shape.2.2 = (.readWrite, true)

structure Holds (b : TraceBuffer) (pending : List Record) (M : AddressSpace) : Prop where
  wellFormed : M.WellFormed
  placed : b.Placed M
  room : pending.length ≤ b.capacity
  cursor : M.wordAt b.cursorAddress 8 = UInt64.ofNat (b.base + pending.length * Record.length)
  negatedEnd : M.wordAt (b.headerAddress + BufferHeader.negatedEndOffset) 8 =
    0 - UInt64.ofNat b.stop
  records : Record.readMany pending.length
    (M.bytesAt b.base (pending.length * Record.length)) = pending

/-- `M'` is `M` with changes at most in the buffer. -/
structure Confined (b : TraceBuffer) (M M' : AddressSpace) : Prop where
  layout : M'.layout = M.layout
  byte? : ∀ x, ¬ b.Owns x → M'.byte? x = M.byte? x

theorem Confined.trans (h₁ : b.Confined M M') (h₂ : b.Confined M' M'') : b.Confined M M'' :=
  ⟨h₂.layout.trans h₁.layout, fun x hx => (h₂.byte? x hx).trans (h₁.byte? x hx)⟩

theorem Confined.of_written {a : Nat} {bytes : List UInt8} (h : Written M a bytes M')
    (hin : ∀ x, a ≤ x → x < a + bytes.length → b.Owns x) : b.Confined M M' :=
  ⟨h.layout, fun x hx => h.byte?_outside fun hrange => hx (hin x hrange.1 hrange.2)⟩

/-- The application does not notice what happens in the buffer. -/
theorem Confined.embeds (h : b.Confined M M') (hembeds : Embeds m M) (hM' : M'.WellFormed)
    (hapart : ∀ x, b.Owns x → m.isMapped x = false) : Embeds m M' := by
  refine ⟨hembeds.inner, hM', by rw [h.layout]; exact hembeds.layout, fun x hx => ?_⟩
  rw [h.byte? x, hembeds.byte? x hx]
  intro howns
  rw [hapart x howns] at hx
  contradiction

theorem Placed.sited (h : b.Placed M) : b.Sited M :=
  ⟨h.header, h.storage, h.bound, h.apart, h.nonempty⟩

theorem Sited.of_layout (h : b.Sited M) (hlayout : M'.layout = M.layout) : b.Sited M' :=
  ⟨hlayout ▸ h.header, hlayout ▸ h.storage, h.bound, h.apart, h.nonempty⟩

theorem Placed.of_layout (h : b.Placed M) (hlayout : M'.layout = M.layout) : b.Placed M' :=
  ⟨hlayout ▸ h.header, hlayout ▸ h.storage, h.bound, h.apart, h.nonempty, hlayout ▸ h.below⟩

theorem Sited.header_bound (h : b.Sited M) :
    b.headerAddress + BufferHeader.length < addressBound := by
  have hbound := h.bound
  have hapart := h.apart
  unfold stop at hbound
  omega

/-- One may read and write the words of the header. -/
theorem Sited.usable_header (h : b.Sited M) {offset : Nat}
    (hoffset : offset + 8 ≤ BufferHeader.length) :
    M.Writable (b.headerAddress + offset) 8 ∧ M.Readable (b.headerAddress + offset) 8 := by
  have hbound := h.header_bound
  exact AddressSpace.usable h.header (by omega) (by omega) (by omega)

/-- One may read and write the storage. -/
theorem Sited.usable_storage (h : b.Sited M) {a n : Nat} (ha : b.base ≤ a)
    (hn : a + n ≤ b.stop) : M.Writable a n ∧ M.Readable a n := by
  have hbound := h.bound
  exact AddressSpace.usable h.storage ha hn (by omega)

/-- The invariant is about the bytes of the buffer, and the layout around it. -/
theorem Holds.of_agree (h : b.Holds pending M) (hM' : M'.WellFormed)
    (hlayout : M'.layout = M.layout) (hbyte : ∀ x, b.Owns x → M'.byte? x = M.byte? x) :
    b.Holds pending M' := by
  have hroom := h.room
  have hheader {offset : Nat} (hoffset : offset + 8 ≤ BufferHeader.length) :
      M'.wordAt (b.headerAddress + offset) 8 = M.wordAt (b.headerAddress + offset) 8 := by
    rw [AddressSpace.wordAt, AddressSpace.wordAt,
      AddressSpace.bytesAt_congr fun i _ => hbyte _ (Or.inl (by omega))]
  have hstorage : M'.bytesAt b.base (pending.length * Record.length) =
      M.bytesAt b.base (pending.length * Record.length) := by
    have hle : pending.length * Record.length ≤ b.storageLength :=
      Nat.mul_le_mul_right _ hroom
    refine AddressSpace.bytesAt_congr fun i _ => hbyte _ (Or.inr ?_)
    unfold stop
    omega
  refine ⟨hM', h.placed.of_layout hlayout, hroom, ?_, ?_, ?_⟩
  · rw [cursorAddress, hheader (by decide)]
    exact h.cursor
  · rw [hheader (by decide)]
    exact h.negatedEnd
  · rw [hstorage]
    exact h.records

/-! ## Slots -/

/-- Where a record goes that has `k` records before it. -/
def slotAt (b : TraceBuffer) (k : Nat) : Nat :=
  b.base + k * Record.length

theorem slotAt_succ (b : TraceBuffer) (k : Nat) :
    b.slotAt (k + 1) = b.slotAt k + Record.length := by
  rw [slotAt, slotAt, Nat.add_mul, Nat.one_mul, Nat.add_assoc]

/-- The cursor stays in front of the end as long as there are not too many records. -/
theorem slotAt_le {k : Nat} (hk : k ≤ b.capacity) : b.slotAt k ≤ b.stop :=
  Nat.add_le_add_left (Nat.mul_le_mul_right _ hk) _

/-- The sum of cursor and negated end is zero exactly when there is no room left. -/
theorem slotAt_full_iff (hbound : b.stop < addressBound) {k : Nat} (hk : k ≤ b.capacity) :
    UInt64.ofNat (b.slotAt k) + (0 - UInt64.ofNat b.stop) = 0 ↔ k = b.capacity := by
  have hstop : (UInt64.ofNat b.stop).toNat = b.stop := UInt64.toNat_ofNat_of_lt' hbound
  have hslot : (UInt64.ofNat (b.slotAt k)).toNat = b.slotAt k :=
    UInt64.toNat_ofNat_of_lt' (Nat.lt_of_le_of_lt (slotAt_le hk) hbound)
  have hsub : UInt64.ofNat (b.slotAt k) + (0 - UInt64.ofNat b.stop) =
      UInt64.ofNat (b.slotAt k) - UInt64.ofNat b.stop := by
    rw [UInt64.zero_sub, ← UInt64.sub_eq_add_neg]
  rw [hsub, UInt64.sub_eq_iff_eq_add, UInt64.zero_add]
  constructor
  · intro heq
    have hnat := congrArg UInt64.toNat heq
    rw [hslot, hstop] at hnat
    exact Nat.eq_of_mul_eq_mul_right (by decide) (Nat.add_left_cancel hnat)
  · intro heq
    rw [slotAt, stop, storageLength, heq]

/-- Where the next record goes. -/
def slot (b : TraceBuffer) (pending : List Record) : Nat :=
  b.base + pending.length * Record.length

theorem Sited.slot_le (h : b.Sited M) (hroom : pending.length ≤ b.capacity) :
    b.slot pending ≤ b.stop ∧ b.stop < addressBound :=
  ⟨slotAt_le hroom, h.bound⟩

/-- There is a whole free slot while fewer records are pending than there is room for. -/
theorem Sited.slot_fits (h : b.Sited M) (hroom : pending.length < b.capacity) :
    b.slot pending + Record.length ≤ b.stop ∧ b.stop < addressBound := by
  refine ⟨?_, h.bound⟩
  rw [slot, Nat.add_assoc, ← Nat.succ_mul]
  exact slotAt_le hroom

theorem Sited.slot_toNat (h : b.Sited M) (hroom : pending.length ≤ b.capacity) :
    (UInt64.ofNat (b.slot pending)).toNat = b.slot pending := by
  obtain ⟨hle, hbound⟩ := h.slot_le hroom
  exact UInt64.toNat_ofNat_of_lt' (Nat.lt_of_le_of_lt hle hbound)

theorem Sited.full_iff (h : b.Sited M) (hroom : pending.length ≤ b.capacity) :
    UInt64.ofNat (b.slot pending) + (0 - UInt64.ofNat b.stop) = 0 ↔
      pending.length = b.capacity :=
  slotAt_full_iff h.bound hroom

/-! ## Draining -/

/-- A cursor behind some records tells how many they are, if it can be read. -/
theorem Sited.pending_of_readable (h : b.Sited M) (hM' : M'.WellFormed)
    (hreadable : M'.Readable b.cursorAddress 8) (hroom : pending.length ≤ b.capacity)
    (hcursor : M'.wordAt b.cursorAddress 8 = UInt64.ofNat (b.slot pending)) :
    b.pending M' = .ok pending.length := by
  have hload : b.cursor M' = .ok (M'.wordAt b.cursorAddress 8) :=
    hM'.load_of_readable (by decide) hreadable
  have hslot : b.slot pending - b.base = pending.length * Record.length := by
    unfold slot
    omega
  have hstands : b.base ≤ b.slot pending ∧ (b.slot pending - b.base) % Record.length = 0 ∧
      b.slot pending ≤ b.stop := by
    refine ⟨Nat.le_add_right _ _, ?_, (h.slot_le hroom).1⟩
    rw [hslot, Nat.mul_mod_left]
  unfold TraceBuffer.pending
  rw [hload]
  change (if b.base ≤ (M'.wordAt b.cursorAddress 8).toNat ∧
      ((M'.wordAt b.cursorAddress 8).toNat - b.base) % Record.length = 0 ∧
      (M'.wordAt b.cursorAddress 8).toNat ≤ b.stop then
    (.ok (((M'.wordAt b.cursorAddress 8).toNat - b.base) / Record.length) : Except TraceError Nat)
    else throw _) = _
  rw [hcursor, h.slot_toNat hroom, if_pos hstands, hslot, Nat.mul_div_cancel _ (by decide)]

theorem Sited.pending_eq (h : b.Sited M) (hM : M.WellFormed) (hroom : pending.length ≤ b.capacity)
    (hcursor : M.wordAt b.cursorAddress 8 = UInt64.ofNat (b.slot pending)) :
    b.pending M = .ok pending.length :=
  h.pending_of_readable hM (h.usable_header (by decide)).2 hroom hcursor

theorem Holds.pending_eq (h : b.Holds pending M) : b.pending M = .ok pending.length :=
  h.placed.sited.pending_eq h.wellFormed h.room h.cursor

/-- The region that ends where the storage begins refuses an empty read there. -/
def Blocked (b : TraceBuffer) (M : AddressSpace) : Prop :=
  ∃ r ∈ M.regions, r.stop = b.base ∧ r.read? b.base 0 = none

/-- The region of the storage. -/
theorem Sited.storage_region (h : b.Sited M) : ∃ s ∈ M.regions, s.base = b.base ∧
    s.stop = b.stop ∧ s.permissions = .readWrite ∧ s.isOwned = true := by
  obtain ⟨s, hs, hshape⟩ := List.mem_map.1 h.storage
  simp only [Region.shape, Prod.mk.injEq] at hshape
  refine ⟨s, hs, hshape.1, ?_, hshape.2.2⟩
  unfold Region.stop stop
  rw [hshape.1, hshape.2.1]

/-- The empty range at the base can be read unless the buffer is blocked. -/
theorem Sited.read_nothing (h : b.Sited M) (hM : M.WellFormed) :
    (¬ b.Blocked M → M.read b.base 0 = .ok []) ∧
      (b.Blocked M → M.read b.base 0 = .error (.fault b.base 0 .read)) := by
  obtain ⟨s, hs, hsbase, hsstop, hsreadable, hsowned⟩ := h.storage_region
  have hbound := h.bound
  have hsnonempty := hM.base_lt_stop hs
  have hcovers : s.covers b.base 0 = true := (s.covers_iff _ _).2 ⟨by omega, by omega⟩
  have hlocated : ∃ r, M.locate? b.base 0 = some r := by
    rw [AddressSpace.locate?, if_pos (by omega), ← Option.isSome_iff_exists, List.find?_isSome]
    exact ⟨s, hs, hcovers⟩
  obtain ⟨r, hr⟩ := hlocated
  obtain ⟨hmem, hbase, hstop, _⟩ := AddressSpace.locate?_spec hr
  -- Either the range is found at the end of the region before the storage, or in the storage.
  have hfound : r.stop = b.base ∨ r = s := by
    by_cases hend : r.stop = b.base
    · exact Or.inl hend
    · exact Or.inr (hM.region_unique hmem hs (a := b.base) (by omega) ⟨hbase, by omega⟩
        ⟨by omega, by omega⟩)
  constructor
  · intro hopen
    have hread : ∃ bytes, r.read? b.base 0 = some bytes := by
      rcases hfound with hend | rfl
      · exact Option.ne_none_iff_exists'.1 fun hnone => hopen ⟨r, hmem, hend, hnone⟩
      · exact ⟨[], Region.read?_nothing_of_owned (by rw [hsreadable]; rfl) hsowned b.base⟩
    obtain ⟨bytes, hbytes⟩ := hread
    rw [AddressSpace.read, hr, Option.bind_some, hbytes, Region.eq_nil_of_read?_nothing hbytes]
  · rintro ⟨t, ht, hend, hrefused⟩
    have ht' := hM.base_lt_stop ht
    have hsame : r = t := by
      rcases hfound with hfound | rfl
      · exact hM.region_unique hmem ht (a := b.base - 1) (by omega)
          ⟨by have := hM.base_lt_stop hmem; omega, by omega⟩ ⟨by omega, by omega⟩
      · -- A region before the storage would have been found first.
        rw [AddressSpace.locate?, if_pos (by omega)] at hr
        obtain ⟨_, front, back, hregions, hfront⟩ := List.find?_eq_some_iff_append.1 hr
        have hordered := hM.ordered
        rw [hregions, List.mem_append, List.mem_cons] at ht
        rw [hregions, List.pairwise_append] at hordered
        rcases ht with ht | rfl | ht
        · have hcovers := (t.covers_iff b.base 0).2 ⟨by omega, by omega⟩
          have hnot := hfront t ht
          rw [hcovers] at hnot
          contradiction
        · rfl
        · have hbefore := ((List.pairwise_cons.1 hordered.2.1).1 t ht).1
          omega
    rw [AddressSpace.read, hr, Option.bind_some, hsame, hrefused]

/-- With ordinary memory before the storage, the buffer is not blocked. -/
theorem Placed.not_blocked (h : b.Placed M) (hM : M.WellFormed) : ¬ b.Blocked M := by
  rintro ⟨r, hr, hend, hrefused⟩
  have hbase := hM.base_lt_stop hr
  have hkind := h.below r.shape (List.mem_map_of_mem hr) (by unfold Region.shape; omega)
  simp only [Region.shape, Prod.mk.injEq] at hkind
  have hread := Region.read?_nothing_of_owned (by rw [hkind.1]; rfl) hkind.2 b.base
  rw [hrefused] at hread
  contradiction

/-- The pending records can be read; if there are none, so can the empty range at the base. -/
theorem Holds.read_pending (h : b.Holds pending M) :
    M.read b.base (pending.length * Record.length) =
      .ok (M.bytesAt b.base (pending.length * Record.length)) := by
  by_cases hempty : pending.length = 0
  · rw [hempty, Nat.zero_mul]
    exact (h.placed.sited.read_nothing h.wellFormed).1 (h.placed.not_blocked h.wellFormed)
  · have hpos : 0 < pending.length * Record.length := Nat.mul_pos (by omega) (by decide)
    exact h.wellFormed.read_of_readable hpos
      (h.placed.sited.usable_storage (Nat.le_refl _) (h.placed.sited.slot_le h.room).1).2

/-- What a reset does: the storage is all zeros, the cursor stands at the base, and the rest of the
header is as it was. -/
structure Cleared (b : TraceBuffer) (M M' : AddressSpace) : Prop where
  wellFormed : M'.WellFormed
  confined : b.Confined M M'
  cursor : M'.wordAt b.cursorAddress 8 = UInt64.ofNat b.base
  header : ∀ offset, BufferHeader.baseOffset ≤ offset → offset + 8 ≤ BufferHeader.length →
    M'.wordAt (b.headerAddress + offset) 8 = M.wordAt (b.headerAddress + offset) 8
  zeros : M'.bytesAt b.base b.storageLength = List.replicate b.storageLength 0

theorem Sited.reset (h : b.Sited M) (hM : M.WellFormed) :
    ∃ M', b.reset M = .ok () M' ∧ b.Cleared M M' := by
  have hapart := h.apart
  have hheaderLength : BufferHeader.length = 24 := rfl
  have hbaseOffset : BufferHeader.baseOffset = 8 := rfl
  have hcursor : b.cursorAddress = b.headerAddress := rfl
  have hpos : 0 < b.storageLength := Nat.mul_pos h.nonempty (by decide)
  have hstorage := (h.usable_storage (Nat.le_refl _)
    (show b.base + b.storageLength ≤ b.stop from Nat.le_refl _)).1
  obtain ⟨M₁, hfill, hcleared⟩ := hM.fill_of_writable hpos hstorage 0
  have hzeros : (List.replicate b.storageLength (0 : UInt8)).length = b.storageLength :=
    List.length_replicate
  obtain ⟨M₂, hstore, hmoved⟩ := hcleared.wellFormed.store_of_writable (by decide)
    ((h.of_layout hcleared.layout).usable_header
      (show BufferHeader.cursorOffset + 8 ≤ BufferHeader.length by decide)).1 (UInt64.ofNat b.base)
  have hl : (littleEndian 8 (UInt64.ofNat b.base).toNat).length = 8 := length_littleEndian _ _
  have hfirst : AddressSpace.step (·.fill b.base b.storageLength 0) M = .ok () M₁ :=
    AddressSpace.step_of_ok hfill
  have hsecond : AddressSpace.step (·.store b.cursorAddress 8 (UInt64.ofNat b.base)) M₁ =
      .ok () M₂ := AddressSpace.step_of_ok hstore
  refine ⟨M₂, (Step.bind_of_ok hfirst).trans hsecond, hmoved.wellFormed,
    (Confined.of_written hcleared fun x hx hx' => Or.inr ?_).trans
      (.of_written hmoved fun x hx hx' => Or.inl ?_), hmoved.wordAt_self, fun offset hle hfits => ?_,
    ?_⟩
  · unfold stop
    omega
  · unfold BufferHeader.cursorOffset at hx hx'
    omega
  · have hbehind : b.headerAddress + BufferHeader.cursorOffset + 8 ≤ b.headerAddress + offset := by
      unfold BufferHeader.cursorOffset
      omega
    rw [hmoved.wordAt_apart (Or.inr (by rw [hl]; exact hbehind)),
      hcleared.wordAt_apart (Or.inl (by omega))]
  · rw [hmoved.bytesAt_apart (Or.inr (by unfold BufferHeader.cursorOffset; omega))]
    have hself := hcleared.bytesAt_self
    rwa [hzeros] at hself

theorem Holds.reset (h : b.Holds pending M) :
    ∃ M', b.reset M = .ok () M' ∧ b.Holds [] M' ∧ b.Confined M M' := by
  obtain ⟨M', hreset, hcleared⟩ := h.placed.sited.reset h.wellFormed
  refine ⟨M', hreset, ⟨hcleared.wellFormed, h.placed.of_layout hcleared.confined.layout,
    Nat.zero_le _, ?_, ?_, rfl⟩, hcleared.confined⟩
  · rw [hcleared.cursor, List.length_nil, Nat.zero_mul, Nat.add_zero]
  · rw [hcleared.header BufferHeader.negatedEndOffset (by decide) (by decide)]
    exact h.negatedEnd

/-- Draining takes out what is pending, no more and no less, in order. -/
theorem Holds.drain (h : b.Holds pending M) :
    ∃ M', b.drain M = .ok pending M' ∧ b.Holds [] M' ∧ b.Confined M M' := by
  obtain ⟨M', hreset, hholds, hconfined⟩ := h.reset
  refine ⟨M', ?_, hholds, hconfined⟩
  unfold TraceBuffer.drain
  simp only [h.pending_eq, h.read_pending, hreset, h.records]

end TraceBuffer

end AccessTrace
