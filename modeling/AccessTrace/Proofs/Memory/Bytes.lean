import AccessTrace.Proofs.LittleEndian
import AccessTrace.Proofs.Memory.Cells
import AccessTrace.Proofs.Memory.Regions

/-!
# Memory as bytes

An address space read as a partial map from addresses to bytes. A read gives the bytes of its
range if one region holds the range, may be read and has the bytes; a write replaces the bytes of
its range if one region holds it, may be written to and has storage of its own. What a change of
bytes leaves alone is the layout: the range, the permissions and the kind of every region.
-/

namespace AccessTrace

namespace Region

/-- The byte at a position, if the backing of the region has one there. -/
def byteAt? (r : Region) (i : Nat) : Option UInt8 :=
  match r.backing with
  | .owned storage => some (storage.get i)
  | .image image => image.bytes[i]?

def isOwned (r : Region) : Bool :=
  match r.backing with
  | .owned _ => true
  | .image _ => false

/-- What of a region does not depend on its bytes. -/
def shape (r : Region) : Nat × Nat × Permissions × Bool :=
  (r.base, r.length, r.permissions, r.isOwned)

theorem shape_eq_iff {r s : Region} :
    r.shape = s.shape ↔ r.base = s.base ∧ r.length = s.length ∧ r.permissions = s.permissions ∧
      r.isOwned = s.isOwned := by
  simp [shape]

theorem stop_of_shape {r s : Region} (h : r.shape = s.shape) : r.stop = s.stop := by
  rw [shape_eq_iff] at h
  simp only [stop, h.1, h.2.1]

theorem isSome_byteAt? (r : Region) (h : r.isOwned = true) (i : Nat) :
    (r.byteAt? i).isSome := by
  cases hb : r.backing with
  | owned storage => simp [byteAt?, hb]
  | image image => simp [isOwned, hb] at h

theorem read?_eq_some_iff {r : Region} {a n : Nat} {bytes : List UInt8} (hn : 0 < n) :
    r.read? a n = some bytes ↔ r.permissions.read = true ∧ bytes.length = n ∧
      ∀ i < n, r.byteAt? (a - r.base + i) = bytes[i]? := by
  unfold read? byteAt?
  by_cases hp : r.permissions.read = true
  · rw [hp]
    cases hb : r.backing with
    | owned storage =>
      simp only [Bool.not_true, Bool.false_eq_true, ↓reduceIte, Option.some.injEq, true_and]
      constructor
      · rintro rfl
        refine ⟨by simp [Storage.read], fun i hi => ?_⟩
        simp [Storage.read, hi]
      · rintro ⟨hl, h⟩
        apply List.ext_getElem? fun i => ?_
        by_cases hi : i < n
        · rw [← h i hi]
          simp [Storage.read, hi]
        · rw [List.getElem?_eq_none (by simp [Storage.read]; omega),
            List.getElem?_eq_none (by omega)]
    | image image =>
      simp only [Bool.not_true, Bool.false_eq_true, ↓reduceIte, true_and]
      have hslice : ∀ i < n, ((image.bytes.drop (a - r.base)).take n)[i]? =
          image.bytes[a - r.base + i]? := by
        intro i hi
        rw [List.getElem?_take_of_lt hi, List.getElem?_drop]
      split
      · rename_i hfits
        rw [Option.some.injEq]
        constructor
        · rintro rfl
          refine ⟨by simp; omega, fun i hi => (hslice i hi).symm⟩
        · rintro ⟨hl, h⟩
          apply List.ext_getElem? fun i => ?_
          by_cases hi : i < n
          · rw [hslice i hi, h i hi]
          · rw [List.getElem?_eq_none (by simp; omega), List.getElem?_eq_none (by omega)]
      · rename_i hfits
        constructor
        · intro h
          contradiction
        · rintro ⟨hl, h⟩
          have hlast := h (n - 1) (by omega)
          rw [List.getElem?_eq_none (by omega), eq_comm, List.getElem?_eq_none_iff] at hlast
          omega
  · simp [hp]

theorem eq_nil_of_read?_nothing {r : Region} {a : Nat} {bytes : List UInt8}
    (h : r.read? a 0 = some bytes) : bytes = [] := by
  unfold read? at h
  split at h
  · contradiction
  · cases hb : r.backing with
    | owned storage =>
      rw [hb] at h
      exact (Option.some.inj h).symm
    | image image =>
      rw [hb] at h
      obtain ⟨_, hbytes⟩ := Option.ite_none_right_eq_some.1 h
      rw [← Option.some.inj hbytes, List.take_zero]

theorem read?_nothing_of_owned {r : Region} (hread : r.permissions.read = true)
    (howned : r.isOwned = true) (a : Nat) : r.read? a 0 = some [] := by
  unfold isOwned at howned
  cases hb : r.backing with
  | owned storage => simp [read?, hb, hread, Storage.read]
  | image image => simp [hb] at howned

end Region

namespace AddressSpace

variable {m m' : AddressSpace} {r : Region} {a n : Nat} {bytes : List UInt8}

/-- The byte at an address, whatever its permissions. -/
def byte? (m : AddressSpace) (a : Nat) : Option UInt8 :=
  (m.locate? a 1).bind fun r => r.byteAt? (a - r.base)

/-- The ranges, permissions and kinds of the regions. -/
def layout (m : AddressSpace) : List (Nat × Nat × Permissions × Bool) :=
  m.regions.map Region.shape

/-- The range lies in one region that may be read and has bytes there. -/
def Readable (m : AddressSpace) (a n : Nat) : Prop :=
  ∃ r ∈ m.regions, (r.base ≤ a ∧ a + n ≤ r.stop ∧ a + n < addressBound) ∧
    r.permissions.read = true ∧ ∀ i < n, (r.byteAt? (a - r.base + i)).isSome

/-- The range lies in one region that may be written to and has storage of its own. -/
def Writable (m : AddressSpace) (a n : Nat) : Prop :=
  ∃ r ∈ m.regions, (r.base ≤ a ∧ a + n ≤ r.stop ∧ a + n < addressBound) ∧
    r.permissions.write = true ∧ r.isOwned = true

theorem WellFormed.byte?_of_mem (hm : m.WellFormed) (hr : r ∈ m.regions) (hb : r.base ≤ a)
    (hs : a < r.stop) (ha : a + 1 < addressBound) : m.byte? a = r.byteAt? (a - r.base) := by
  rw [byte?, hm.locate?_eq_some Nat.one_pos hr hb hs ha]
  rfl

/-- The bytes of a range; where there is none, zero stands in. -/
def bytesAt (m : AddressSpace) (a n : Nat) : List UInt8 :=
  (List.range n).map fun i => (m.byte? (a + i)).getD 0

@[simp] theorem length_bytesAt : (m.bytesAt a n).length = n := by
  simp [bytesAt]

theorem bytesAt_congr (h : ∀ i < n, m'.byte? (a + i) = m.byte? (a + i)) :
    m'.bytesAt a n = m.bytesAt a n := by
  refine List.map_congr_left fun i hi => ?_
  rw [h i (List.mem_range.1 hi)]

theorem bytesAt_append (m : AddressSpace) (a n k : Nat) :
    m.bytesAt a (n + k) = m.bytesAt a n ++ m.bytesAt (a + n) k := by
  simp only [bytesAt, List.range_add, List.map_append, List.map_map]
  congr 1
  refine List.map_congr_left fun i _ => ?_
  rw [Function.comp_apply, Nat.add_assoc]

/-- A part of the bytes of a range are the bytes of a part of the range. -/
theorem bytesAt_slice (m : AddressSpace) {a n i k : Nat} (h : i + k ≤ n) :
    ((m.bytesAt a n).drop i).take k = m.bytesAt (a + i) k := by
  obtain ⟨rest, rfl⟩ := Nat.exists_eq_add_of_le h
  rw [bytesAt_append, bytesAt_append, List.append_assoc,
    List.drop_left' (length_bytesAt), List.take_left' (length_bytesAt)]

/-- A read of at least one byte gives the bytes of a readable range. -/
theorem WellFormed.read_of_readable (hm : m.WellFormed) (hn : 0 < n) (h : m.Readable a n) :
    m.read a n = .ok (m.bytesAt a n) := by
  obtain ⟨r, hr, ⟨hb, hs, ha⟩, hp, hbytes⟩ := h
  have hread : r.read? a n = some (m.bytesAt a n) := by
    rw [Region.read?_eq_some_iff hn]
    refine ⟨hp, length_bytesAt, fun i hi => ?_⟩
    have hbyte := hm.byte?_of_mem hr (a := a + i) (by omega) (by omega) (by omega)
    obtain ⟨b, hb'⟩ := Option.isSome_iff_exists.1 (hbytes i hi)
    rw [show a + i - r.base = a - r.base + i by omega, hb'] at hbyte
    simp [bytesAt, hi, hbyte, hb']
  rw [read, hm.locate?_eq_some hn hr hb hs ha, Option.bind_some, hread]

theorem readable_of_read (hn : 0 < n) {bytes : List UInt8}
    (h : m.read a n = .ok bytes) : m.Readable a n := by
  unfold read at h
  split at h
  · rename_i found hfound
    obtain ⟨r, hr, hread⟩ := Option.bind_eq_some_iff.1 hfound
    obtain ⟨hmem, hrange⟩ := locate?_spec hr
    rw [Region.read?_eq_some_iff hn] at hread
    refine ⟨r, hmem, hrange, hread.1, fun i hi => ?_⟩
    rw [hread.2.2 i hi, List.getElem?_eq_getElem (by omega)]
    rfl
  · contradiction

theorem read_of_not_readable (hn : 0 < n) (h : ¬ m.Readable a n) :
    m.read a n = .error (.fault a n .read) := by
  cases hread : m.read a n with
  | ok bytes => exact absurd (readable_of_read hn hread) h
  | error e =>
    unfold read at hread
    split at hread
    · contradiction
    · rw [← Except.error.inj hread]

/-! ## Changes -/

/-- `m'` is `m` with `bytes` in the place of the bytes from `a` on. -/
structure Written (m : AddressSpace) (a : Nat) (bytes : List UInt8) (m' : AddressSpace) : Prop where
  wellFormed : m'.WellFormed
  nonempty : 0 < bytes.length
  writable : m.Writable a bytes.length
  layout : m'.layout = m.layout
  byte? : ∀ x, m'.byte? x = if a ≤ x ∧ x < a + bytes.length then bytes[x - a]? else m.byte? x
  rest : m'.nextAllocation = m.nextAllocation ∧ m'.ownedBytes = m.ownedBytes ∧ m'.limit = m.limit

theorem byte?_eq_none (h : ∀ r ∈ m.regions, ¬ (r.base ≤ a ∧ a < r.stop)) : m.byte? a = none := by
  rw [byte?, Option.bind_eq_none_iff]
  intro r hr
  obtain ⟨hmem, hb, hs, _⟩ := locate?_spec hr
  exact absurd ⟨hb, by omega⟩ (h r hmem)

theorem byte?_eq_none_of_end (h : addressBound ≤ a + 1) : m.byte? a = none := by
  rw [byte?, locate?, if_neg (by omega)]
  rfl

/-- The byte at an address depends on the regions around the address only. -/
theorem WellFormed.byte?_congr (hm : m.WellFormed) (hm' : m'.WellFormed)
    (h : ∀ r : Region, r.base ≤ a → a < r.stop → (r ∈ m'.regions ↔ r ∈ m.regions)) :
    m'.byte? a = m.byte? a := by
  by_cases ha : a + 1 < addressBound
  · by_cases hin : ∃ r ∈ m.regions, r.base ≤ a ∧ a < r.stop
    · obtain ⟨r, hr, hb, hs⟩ := hin
      rw [hm.byte?_of_mem hr hb hs ha, hm'.byte?_of_mem ((h r hb hs).2 hr) hb hs ha]
    · rw [byte?_eq_none fun r hr hrange => hin ⟨r, hr, hrange⟩, byte?_eq_none fun r hr hrange =>
        hin ⟨r, (h r hrange.1 hrange.2).1 hr, hrange⟩]
  · rw [byte?_eq_none_of_end (by omega), byte?_eq_none_of_end (by omega)]

/-- A change is possible exactly in a writable range, and it is one of the storage there. -/
theorem WellFormed.change_of_writable (hm : m.WellFormed) (hn : 0 < n) (h : m.Writable a n)
    (f : Nat → Storage → Storage) :
    ∃ r ∈ m.regions, (r.base ≤ a ∧ a + n ≤ r.stop ∧ a + n < addressBound) ∧
      ∃ storage, r.backing = .owned storage ∧ m.change a n f = .ok { m with
        regions := replaceAt r.base { r with backing := .owned (f (a - r.base) storage) }
          m.regions } := by
  obtain ⟨r, hr, hrange, hp, howned⟩ := h
  refine ⟨r, hr, hrange, ?_⟩
  unfold Region.isOwned at howned
  cases hb : r.backing with
  | owned storage =>
    refine ⟨storage, rfl, ?_⟩
    rw [change, hm.locate?_eq_some hn hr hrange.1 hrange.2.1 hrange.2.2, Option.bind_some]
    simp [Region.change?, hb, hp]
  | image image => simp [hb] at howned

/-- A change that succeeds is one of the storage of the region that holds the range. -/
theorem change_ok {f : Nat → Storage → Storage} (h : m.change a n f = .ok m') :
    ∃ r storage, m.locate? a n = some r ∧ r.permissions.write = true ∧
      r.backing = .owned storage ∧ m' = { m with
        regions := replaceAt r.base { r with backing := .owned (f (a - r.base) storage) }
          m.regions } := by
  unfold change at h
  split at h
  · rename_i region hfound
    obtain ⟨r, hr, hchange⟩ := Option.bind_eq_some_iff.1 hfound
    unfold Region.change? at hchange
    cases hb : r.backing with
    | owned storage =>
      rw [hb] at hchange
      obtain ⟨hp, hregion⟩ := Option.ite_none_right_eq_some.1 hchange
      obtain rfl := Option.some.inj hregion
      exact ⟨r, storage, hr, hp, hb, (Except.ok.inj h).symm⟩
    | image image =>
      rw [hb] at hchange
      contradiction
  · contradiction

theorem writable_of_change {f : Nat → Storage → Storage}
    (h : m.change a n f = .ok m') : m.Writable a n := by
  obtain ⟨r, storage, hr, hp, hb, _⟩ := change_ok h
  obtain ⟨hmem, hrange⟩ := locate?_spec hr
  exact ⟨r, hmem, hrange, hp, by simp [Region.isOwned, hb]⟩

theorem change_of_not_writable (h : ¬ m.Writable a n)
    (f : Nat → Storage → Storage) : m.change a n f = .error (.fault a n .write) := by
  cases hchange : m.change a n f with
  | ok m' => exact absurd (writable_of_change hchange) h
  | error e =>
    unfold change at hchange
    split at hchange
    · contradiction
    · rw [← Except.error.inj hchange]

theorem WellFormed.layout_replace (hm : m.WellFormed) (hr : r ∈ m.regions)
    (hb : r.base + 1 < addressBound) {region : Region} (hshape : region.shape = r.shape) :
    ({ m with regions := replaceAt r.base region m.regions } : AddressSpace).layout = m.layout := by
  change (replaceAt r.base region m.regions).map Region.shape = _
  rw [hm.replaceAt_eq_map hb, List.map_map]
  refine List.map_congr_left fun s hs => ?_
  by_cases hsr : s.base = r.base
  · obtain rfl := hm.base_unique hr hs hb hsr
    rw [Function.comp_apply, Region.swap_self _ _ _ rfl, hshape]
  · rw [Function.comp_apply, Region.swap_other _ _ _ hsr]

/-- What a change does to the bytes, from what it does to storage. -/
theorem WellFormed.written_of_change (hm : m.WellFormed) (bytes : List UInt8)
    (hn : 0 < bytes.length) (hw : m.Writable a bytes.length) {f : Nat → Storage → Storage}
    (hsize : ∀ start storage, (f start storage).size = storage.size)
    (hf : ∀ start storage, start + bytes.length ≤ storage.size → ∀ i < storage.size,
      some ((f start storage).get i) =
        if start ≤ i ∧ i < start + bytes.length then bytes[i - start]? else some (storage.get i)) :
    ∃ m', m.change a bytes.length f = .ok m' ∧ Written m a bytes m' := by
  obtain ⟨r, hr, hrange, storage, hb, hchange⟩ := hm.change_of_writable hn hw f
  refine ⟨_, hchange, ?_⟩
  have hstop : r.stop = r.base + r.length := rfl
  have hrb : r.base + 1 < addressBound := by omega
  have hsound := hm.sound r hr
  have hlength : storage.size = r.length := by
    have h := hsound.2
    rwa [hb] at h
  let region : Region := { r with backing := .owned (f (a - r.base) storage) }
  have hshape : region.shape = r.shape := by
    simp [Region.shape_eq_iff, region, Region.isOwned, hb]
  have hwf := hm.replace_first (hm.regionAt?_base hr hrb) region rfl rfl
    ⟨hsound.1, by simp only [region, hsize]; exact hlength⟩
  have hmap := hm.replaceAt_eq_map hrb region
  refine ⟨hwf, hn, hw, hm.layout_replace hr hrb hshape, fun x => ?_, rfl, rfl, rfl⟩
  by_cases hx : x + 1 < addressBound
  · by_cases hin : ∃ s ∈ m.regions, s.base ≤ x ∧ x < s.stop
    · obtain ⟨s, hs, hsx⟩ := hin
      by_cases hsr : s = r
      · subst hsr
        have hmem : region ∈ replaceAt s.base region m.regions := by
          rw [hmap, mem_map_swap ⟨s, hs, rfl⟩]
          exact Or.inl rfl
        rw [hwf.byte?_of_mem hmem hsx.1 hsx.2 hx, hm.byte?_of_mem hs hsx.1 hsx.2 hx]
        have h := hf (a - s.base) storage (by omega) (x - s.base) (by omega)
        change some ((f (a - s.base) storage).get (x - s.base)) = _
        rw [h]
        by_cases hxa : a ≤ x ∧ x < a + bytes.length
        · rw [if_pos (by omega), if_pos hxa, show x - s.base - (a - s.base) = x - a by omega]
        · rw [if_neg (by omega), if_neg hxa]
          simp [Region.byteAt?, hb]
      · have hne : s.base ≠ r.base := fun h => hsr (hm.base_unique hr hs hrb h)
        have hmem : s ∈ replaceAt r.base region m.regions := by
          rw [hmap, mem_map_swap ⟨r, hr, rfl⟩]
          exact Or.inr ⟨hs, hne⟩
        have hout : ¬ (a ≤ x ∧ x < a + bytes.length) := by
          rintro ⟨h₁, h₂⟩
          exact hsr (hm.region_unique hs hr hx hsx ⟨by omega, by omega⟩)
        rw [hwf.byte?_of_mem hmem hsx.1 hsx.2 hx, hm.byte?_of_mem hs hsx.1 hsx.2 hx, if_neg hout]
    · have hnone : ∀ s ∈ m.regions, ¬ (s.base ≤ x ∧ x < s.stop) := fun s hs h => hin ⟨s, hs, h⟩
      have hout : ¬ (a ≤ x ∧ x < a + bytes.length) := fun h => hnone r hr ⟨by omega, by omega⟩
      rw [if_neg hout, byte?_eq_none hnone]
      refine byte?_eq_none fun s hs => ?_
      change s ∈ replaceAt r.base region m.regions at hs
      rw [hmap, mem_map_swap ⟨r, hr, rfl⟩] at hs
      rcases hs with rfl | ⟨hs, _⟩
      · exact hnone r hr
      · exact hnone s hs
  · rw [if_neg (by omega), byte?_eq_none_of_end (by omega), byte?_eq_none_of_end (by omega)]

/-- A write of at least one byte into a writable range. -/
theorem WellFormed.write_of_writable (hm : m.WellFormed) {bytes : List UInt8}
    (hn : 0 < bytes.length) (hw : m.Writable a bytes.length) :
    ∃ m', m.write a bytes = .ok m' ∧ Written m a bytes m' := by
  refine hm.written_of_change bytes hn hw (fun _ _ => Storage.size_write _ _ _) ?_
  intro start storage hfits i hi
  rw [Storage.get_write _ _ _ _ hfits hi]
  by_cases h : start ≤ i
  · by_cases h' : i < start + bytes.length
    · rw [if_pos h, if_pos ⟨h, h'⟩, List.getElem?_eq_getElem (by omega)]
      rfl
    · rw [if_pos h, if_neg (by omega), List.getElem?_eq_none (by omega)]
      rfl
  · rw [if_neg h, if_neg (by omega)]

theorem WellFormed.write_ok (hm : m.WellFormed) {bytes : List UInt8} (hn : 0 < bytes.length)
    (h : m.write a bytes = .ok m') : Written m a bytes m' := by
  have hw : m.Writable a bytes.length := writable_of_change h
  obtain ⟨m'', h', hwritten⟩ := hm.write_of_writable hn hw
  rw [h] at h'
  exact Except.ok.inj h' ▸ hwritten

theorem write_of_not_writable {bytes : List UInt8}
    (h : ¬ m.Writable a bytes.length) :
    m.write a bytes = .error (.fault a bytes.length .write) :=
  change_of_not_writable h _

/-- Filling a range is writing as many equal bytes. -/
theorem WellFormed.fill_of_writable (hm : m.WellFormed) (hn : 0 < n) (hw : m.Writable a n)
    (byte : UInt8) :
    ∃ m', m.fill a n byte = .ok m' ∧ Written m a (List.replicate n byte) m' := by
  have hl : (List.replicate n byte).length = n := List.length_replicate
  have h := hm.written_of_change (a := a) (List.replicate n byte) (by omega)
    (by rwa [hl]) (f := fun start storage => storage.fill start n byte)
    (fun _ _ => Storage.size_fill _ _ _ _) ?_
  · rw [hl] at h
    exact h
  · intro start storage hfits i hi
    rw [Storage.get_fill _ _ _ _ _ hi, hl]
    by_cases h : start ≤ i ∧ i < start + n
    · rw [if_pos h, if_pos h, List.getElem?_replicate, if_pos (by omega)]
    · rw [if_neg h, if_neg h]

theorem WellFormed.fill_ok (hm : m.WellFormed) (hn : 0 < n) {byte : UInt8}
    (h : m.fill a n byte = .ok m') : Written m a (List.replicate n byte) m' := by
  have hw : m.Writable a n := writable_of_change h
  obtain ⟨m'', h', hwritten⟩ := hm.fill_of_writable hn hw byte
  rw [h] at h'
  exact Except.ok.inj h' ▸ hwritten

theorem fill_of_not_writable {byte : UInt8}
    (h : ¬ m.Writable a n) : m.fill a n byte = .error (.fault a n .write) :=
  change_of_not_writable h _

/-! ## Layouts -/

theorem exists_of_layout (h : m'.layout = m.layout) (hr : r ∈ m.regions) :
    ∃ r' ∈ m'.regions, r'.shape = r.shape := by
  have hs : r.shape ∈ m'.layout := h ▸ List.mem_map_of_mem hr
  exact List.mem_map.1 hs

/-- Where one may write depends on the layout only. -/
theorem Writable.of_layout (hw : m.Writable a n) (h : m'.layout = m.layout) : m'.Writable a n := by
  obtain ⟨r, hr, hrange, hp, howned⟩ := hw
  obtain ⟨r', hr', hshape⟩ := exists_of_layout h hr
  have hstop := Region.stop_of_shape hshape
  rw [Region.shape_eq_iff] at hshape
  exact ⟨r', hr', by rw [hstop, hshape.1]; exact hrange, hshape.2.2.1 ▸ hp, hshape.2.2.2 ▸ howned⟩

/-- Where one may read depends on the layout and on where there are bytes. -/
theorem Readable.of_layout (hread : m.Readable a n) (hm : m.WellFormed) (hm' : m'.WellFormed)
    (h : m'.layout = m.layout)
    (hbytes : ∀ i < n, (m.byte? (a + i)).isSome → (m'.byte? (a + i)).isSome) :
    m'.Readable a n := by
  obtain ⟨r, hr, ⟨hb, hs, ha⟩, hp, hsome⟩ := hread
  obtain ⟨r', hr', hshape⟩ := exists_of_layout h hr
  have hstop := Region.stop_of_shape hshape
  rw [Region.shape_eq_iff] at hshape
  refine ⟨r', hr', by rw [hstop, hshape.1]; exact ⟨hb, hs, ha⟩, hshape.2.2.1 ▸ hp, fun i hi => ?_⟩
  have h₁ := hm.byte?_of_mem hr (a := a + i) (by omega) (by omega) (by omega)
  have h₂ := hm'.byte?_of_mem hr' (a := a + i) (by omega) (by omega) (by omega)
  have hi' : a - r.base + i = a + i - r.base := by omega
  rw [hshape.1, hi', ← hshape.1, ← h₂]
  apply hbytes i hi
  rw [h₁, ← hi']
  exact hsome i hi

theorem Readable.slice (h : m.Readable a n) {i k : Nat} (hi : i + k ≤ n) :
    m.Readable (a + i) k := by
  obtain ⟨r, hr, ⟨hb, hs, ha⟩, hp, hbytes⟩ := h
  refine ⟨r, hr, by omega, hp, fun j hj => ?_⟩
  have hpart := hbytes (i + j) (by omega)
  rwa [show a - r.base + (i + j) = a + i - r.base + j by omega] at hpart

theorem Writable.slice (h : m.Writable a n) {i k : Nat} (hi : i + k ≤ n) :
    m.Writable (a + i) k := by
  obtain ⟨r, hr, ⟨hb, hs, ha⟩, hp⟩ := h
  exact ⟨r, hr, by omega, hp⟩

/-- What was readable is readable after a change of bytes. -/
theorem Written.readable (h : Written m a bytes m') (hm : m.WellFormed) {b k : Nat}
    (hread : m.Readable b k) : m'.Readable b k := by
  refine hread.of_layout hm h.wellFormed h.layout fun i _ hsome => ?_
  rw [h.byte? (b + i)]
  split
  · rw [List.getElem?_eq_getElem (by omega)]
    rfl
  · exact hsome

theorem Written.writable_iff (h : Written m a bytes m') {b k : Nat} :
    m'.Writable b k ↔ m.Writable b k :=
  ⟨fun hw => hw.of_layout (h.layout).symm, fun hw => hw.of_layout (h.layout)⟩

theorem Written.byte?_outside (h : Written m a bytes m') {x : Nat}
    (hx : ¬ (a ≤ x ∧ x < a + bytes.length)) : m'.byte? x = m.byte? x := by
  rw [h.byte? x, if_neg hx]

theorem Written.bytesAt_self (h : Written m a bytes m') : m'.bytesAt a bytes.length = bytes := by
  apply List.ext_getElem? fun i => ?_
  by_cases hi : i < bytes.length
  · simp [bytesAt, hi, h.byte? (a + i)]
  · rw [List.getElem?_eq_none (by simp; omega), List.getElem?_eq_none (by omega)]

theorem Written.bytesAt_apart (h : Written m a bytes m') {b k : Nat}
    (hapart : b + k ≤ a ∨ a + bytes.length ≤ b) : m'.bytesAt b k = m.bytesAt b k :=
  bytesAt_congr fun i hi => h.byte?_outside (by omega)

/-- Writing over the start of what was written. -/
theorem Written.overwrite {m₁ m₂ : AddressSpace} {first : List UInt8} (h₁ : Written m a bytes m₁)
    (h₂ : Written m₁ a first m₂) (hlength : first.length ≤ bytes.length) :
    Written m a (first ++ bytes.drop first.length) m₂ := by
  have hl : (first ++ bytes.drop first.length).length = bytes.length := by
    rw [List.length_append, List.length_drop]
    omega
  refine ⟨h₂.wellFormed, by rw [hl]; exact h₁.nonempty, by rw [hl]; exact h₁.writable,
    h₂.layout.trans h₁.layout, fun x => ?_, h₂.rest.1.trans h₁.rest.1,
    h₂.rest.2.1.trans h₁.rest.2.1, h₂.rest.2.2.trans h₁.rest.2.2⟩
  rw [hl, h₂.byte? x, h₁.byte? x]
  by_cases hx : a ≤ x ∧ x < a + bytes.length
  · rw [if_pos hx, if_pos hx]
    by_cases hf : x < a + first.length
    · rw [if_pos ⟨hx.1, hf⟩, List.getElem?_append_left (by omega)]
    · rw [if_neg (by omega), List.getElem?_append_right (by omega), List.getElem?_drop]
      congr 1
      omega
  · rw [if_neg hx, if_neg hx, if_neg (by omega)]

/-- Clearing a writable range and storing `first` at its start. -/
theorem WellFormed.clear_of_writable (hm : m.WellFormed) (first : List UInt8)
    (hfirst : 0 < first.length) (hn : first.length ≤ n) (hw : m.Writable a n) :
    ∃ m', (m.fill a n 0).bind (·.write a first) = .ok m' ∧
      Written m a (first ++ (List.replicate n 0).drop first.length) m' := by
  obtain ⟨m₁, hfill, hcleared⟩ := hm.fill_of_writable (by omega) hw 0
  have hw₁ : m₁.Writable a first.length := by
    obtain ⟨r, hr, hrange, hp⟩ := hcleared.writable_iff.2 hw
    exact ⟨r, hr, by omega, hp⟩
  obtain ⟨m₂, hwrite, hstored⟩ := hcleared.wellFormed.write_of_writable hfirst hw₁
  refine ⟨m₂, ?_, hcleared.overwrite hstored (by simpa using hn)⟩
  rw [hfill]
  exact hwrite

/-! ## Changes at some addresses -/

/-- `m'` is `m` with other bytes at some of the addresses. -/
structure ChangedIn (changes : Nat → Prop) (m m' : AddressSpace) : Prop where
  wellFormed : m'.WellFormed
  layout : m'.layout = m.layout
  readable : ∀ a n, m.Readable a n → m'.Readable a n
  byte? : ∀ x, ¬ changes x → m'.byte? x = m.byte? x

theorem ChangedIn.refl (changes : Nat → Prop) (hm : m.WellFormed) : ChangedIn changes m m :=
  ⟨hm, rfl, fun _ _ => id, fun _ _ => rfl⟩

theorem ChangedIn.trans {changes : Nat → Prop} {m'' : AddressSpace} (h : ChangedIn changes m m')
    (h' : ChangedIn changes m' m'') : ChangedIn changes m m'' :=
  ⟨h'.wellFormed, h'.layout.trans h.layout, fun a n hread => h'.readable a n (h.readable a n hread),
    fun x hx => (h'.byte? x hx).trans (h.byte? x hx)⟩

theorem ChangedIn.mono {changes more : Nat → Prop} (h : ChangedIn changes m m')
    (hmore : ∀ x, changes x → more x) : ChangedIn more m m' :=
  ⟨h.wellFormed, h.layout, h.readable, fun x hx => h.byte? x fun hx' => hx (hmore x hx')⟩

theorem Written.changedIn (h : Written m a bytes m') (hm : m.WellFormed) {changes : Nat → Prop}
    (hin : ∀ x, a ≤ x → x < a + bytes.length → changes x) : ChangedIn changes m m' :=
  ⟨h.wellFormed, h.layout, fun _ _ => h.readable hm,
    fun x hx => h.byte?_outside fun hrange => hx (hin x hrange.1 hrange.2)⟩

/-! ## Scalars -/

theorem isScalarWidth_pos {width : Nat} (h : isScalarWidth width = true) : 0 < width := by
  unfold isScalarWidth at h
  simp only [Bool.or_eq_true, beq_iff_eq] at h
  omega

theorem isScalarWidth_le {width : Nat} (h : isScalarWidth width = true) : width ≤ 8 := by
  simp only [isScalarWidth, Bool.or_eq_true, beq_iff_eq] at h
  omega

/-- The word that the bytes of a range spell. -/
def wordAt (m : AddressSpace) (a width : Nat) : Word :=
  UInt64.ofNat (ofLittleEndian (m.bytesAt a width))

theorem WellFormed.load_of_readable (hm : m.WellFormed) {width : Nat}
    (hwidth : isScalarWidth width = true) (h : m.Readable a width) :
    m.load a width = .ok (m.wordAt a width) := by
  rw [load, if_pos hwidth, hm.read_of_readable (isScalarWidth_pos hwidth) h]
  rfl

theorem load_of_not_readable {width : Nat} (hwidth : isScalarWidth width = true)
    (h : ¬ m.Readable a width) : m.load a width = .error (.fault a width .read) := by
  rw [load, if_pos hwidth, read_of_not_readable (isScalarWidth_pos hwidth) h]
  rfl

theorem WellFormed.load_ok (hm : m.WellFormed) {width : Nat} {value : Word}
    (h : m.load a width = .ok value) :
    isScalarWidth width = true ∧ m.Readable a width ∧ value = m.wordAt a width := by
  by_cases hwidth : isScalarWidth width = true
  · by_cases hr : m.Readable a width
    · rw [hm.load_of_readable hwidth hr] at h
      exact ⟨hwidth, hr, (Except.ok.inj h).symm⟩
    · rw [load_of_not_readable hwidth hr] at h
      contradiction
  · rw [load, if_neg hwidth] at h
    contradiction

theorem WellFormed.store_of_writable (hm : m.WellFormed) {width : Nat}
    (hwidth : isScalarWidth width = true) (h : m.Writable a width) (value : Word) :
    ∃ m', m.store a width value = .ok m' ∧
      Written m a (littleEndian width value.toNat) m' := by
  rw [store, if_pos hwidth]
  have hl : (littleEndian width value.toNat).length = width := length_littleEndian _ _
  exact hm.write_of_writable (by rw [hl]; exact isScalarWidth_pos hwidth) (by rwa [hl])

theorem store_of_not_writable {width : Nat} (hwidth : isScalarWidth width = true)
    (h : ¬ m.Writable a width) (value : Word) :
    m.store a width value = .error (.fault a width .write) := by
  have hl : (littleEndian width value.toNat).length = width := length_littleEndian _ _
  rw [store, if_pos hwidth, write_of_not_writable (by rwa [hl]), hl]

/-- A store that succeeds is a write. -/
theorem write_of_store {width : Nat} {value : Word} (h : m.store a width value = .ok m') :
    isScalarWidth width = true ∧ m.write a (littleEndian width value.toNat) = .ok m' := by
  unfold store at h
  split at h
  · rename_i hwidth
    exact ⟨hwidth, h⟩
  · contradiction

theorem WellFormed.store_ok (hm : m.WellFormed) {width : Nat} {value : Word}
    (h : m.store a width value = .ok m') :
    isScalarWidth width = true ∧ Written m a (littleEndian width value.toNat) m' := by
  obtain ⟨hwidth, hwrite⟩ := write_of_store h
  refine ⟨hwidth, hm.write_ok ?_ hwrite⟩
  rw [length_littleEndian]
  exact isScalarWidth_pos hwidth

/-- A full word that was stored is there, and other words stay. -/
theorem Written.wordAt_self {value : Word} (h : Written m a (littleEndian 8 value.toNat) m') :
    m'.wordAt a 8 = value := by
  have hbytes := h.bytesAt_self
  rw [length_littleEndian] at hbytes
  rw [wordAt, hbytes, ofLittleEndian_littleEndian]
  have hlt := value.toNat_lt
  rw [Nat.mod_eq_of_lt (by omega), UInt64.ofNat_toNat]

theorem Written.wordAt_apart (h : Written m a bytes m') {b : Nat}
    (hapart : b + 8 ≤ a ∨ a + bytes.length ≤ b) : m'.wordAt b 8 = m.wordAt b 8 := by
  rw [wordAt, wordAt, h.bytesAt_apart hapart]

/-- What is loaded from other addresses stays. -/
theorem ChangedIn.load {changes : Nat → Prop} (h : ChangedIn changes m m') (hm : m.WellFormed)
    {width : Nat} {value : Word} (hload : m.load a width = .ok value)
    (hapart : ∀ i < width, ¬ changes (a + i)) : m'.load a width = .ok value := by
  obtain ⟨hwidth, hread, rfl⟩ := hm.load_ok hload
  rw [h.wellFormed.load_of_readable hwidth (h.readable a width hread), wordAt, wordAt,
    bytesAt_congr fun i hi => h.byte? _ (hapart i hi)]

/-- Inside a region of ordinary memory everything is possible. -/
theorem usable {M : AddressSpace} {base length : Nat}
    (h : (base, length, Permissions.readWrite, true) ∈ M.layout) (ha : base ≤ a)
    (hn : a + n ≤ base + length) (hb : a + n < addressBound) : M.Writable a n ∧ M.Readable a n := by
  obtain ⟨r, hr, hshape⟩ := List.mem_map.1 h
  simp only [Region.shape, Prod.mk.injEq] at hshape
  obtain ⟨hbase, hlength, hperm, howned⟩ := hshape
  have hrange : r.base ≤ a ∧ a + n ≤ r.stop ∧ a + n < addressBound := by
    unfold Region.stop
    omega
  exact ⟨⟨r, hr, hrange, by rw [hperm]; rfl, howned⟩,
    ⟨r, hr, hrange, by rw [hperm]; rfl, fun i _ => r.isSome_byteAt? howned _⟩⟩

end AddressSpace

end AccessTrace
