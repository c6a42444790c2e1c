import AccessTrace.Proofs.Memory.Reachable

/-!
# Operations beside a region

The operations on an address space as data, so that one can speak of any sequence of them. An
operation that neither unmaps nor protects an ordinary region and changes none of its bytes leaves
the region as it is, whatever else it does: where the region stands, what may be done with it, and
the byte at each of its addresses.
-/

namespace AccessTrace

/-- The operations that can change an address space. -/
inductive MemoryOperation where
  | map (base length : Nat) (permissions : Permissions)
  | allocate (length : Nat) (permissions : Permissions)
  | mapImage (base : Nat) (image : CodeImage)
  | unmap (base : Nat)
  | protect (base : Nat) (permissions : Permissions)
  | write (address : Nat) (bytes : List UInt8)
  | fill (address length : Nat) (byte : UInt8)
  | store (address width : Nat) (value : Word)

namespace MemoryOperation

def apply (m : AddressSpace) : MemoryOperation → Except MachineError AddressSpace
  | map base length permissions => m.map base length permissions
  | allocate length permissions => (m.allocate length permissions).map Prod.snd
  | mapImage base image => m.mapImage base image
  | unmap base => m.unmap base
  | protect base permissions => m.protect base permissions
  | write address bytes => m.write address bytes
  | fill address length byte => m.fill address length byte
  | store address width value => m.store address width value

theorem apply_allocate {m m' : AddressSpace} {length : Nat} {permissions : Permissions}
    (h : (allocate length permissions).apply m = .ok m') :
    ∃ base, m.allocate length permissions = .ok (base, m') := by
  change (m.allocate length permissions).map Prod.snd = .ok m' at h
  cases hallocate : m.allocate length permissions with
  | error e =>
    rw [hallocate] at h
    contradiction
  | ok allocated =>
    rw [hallocate] at h
    obtain rfl := Except.ok.inj h
    exact ⟨allocated.1, rfl⟩

/-- The address space after an operation; one that fails leaves it as it was. -/
def perform (m : AddressSpace) (op : MemoryOperation) : AddressSpace :=
  (op.apply m).toOption.getD m

/-- Whether two ranges have an address in common. -/
def Meet (a n base length : Nat) : Prop :=
  ∃ x, (a ≤ x ∧ x < a + n) ∧ base ≤ x ∧ x < base + length

/-- Whether an operation is about the region of this range. What is mapped anew is not: it cannot
reach into a region that is there already. -/
def Touches (base length : Nat) : MemoryOperation → Prop
  | map .. | allocate .. | mapImage .. => False
  | unmap base' | protect base' _ => base' = base
  | write address bytes => Meet address bytes.length base length
  | fill address n _ => Meet address n base length
  | store address width _ => Meet address width base length

end MemoryOperation

namespace AddressSpace

open MemoryOperation (Meet)

variable {m m' : AddressSpace} {r : Region} {a n base length : Nat}

/-- The ordinary region of this range is in `m'` as it is in `m`. -/
structure Keeps (base length : Nat) (m m' : AddressSpace) : Prop where
  wellFormed : m'.WellFormed
  shape : (base, length, Permissions.readWrite, true) ∈ m'.layout
  byte? : ∀ x, base ≤ x → x < base + length → m'.byte? x = m.byte? x

theorem Keeps.refl (hm : m.WellFormed)
    (hshape : (base, length, Permissions.readWrite, true) ∈ m.layout) : Keeps base length m m :=
  ⟨hm, hshape, fun _ _ _ => rfl⟩

/-- A region is kept if the regions at its addresses are. -/
theorem Keeps.of_regions (hm : m.WellFormed) (hm' : m'.WellFormed)
    (hshape : (base, length, Permissions.readWrite, true) ∈ m.layout)
    (h : ∀ x, base ≤ x → x < base + length → ∀ r : Region, r.base ≤ x → x < r.stop →
      (r ∈ m'.regions ↔ r ∈ m.regions)) : Keeps base length m m' := by
  refine ⟨hm', ?_, fun x hx hx' => hm.byte?_congr hm' (h x hx hx')⟩
  obtain ⟨r, hr, hrshape⟩ := List.mem_map.1 hshape
  have hstop := hm.base_lt_stop hr
  simp only [Region.shape, Prod.mk.injEq] at hrshape
  have hin : r.base < base + length := by
    unfold Region.stop at hstop
    omega
  refine List.mem_map.2 ⟨r, (h r.base (by omega) hin r (Nat.le_refl _) hstop).2 hr, ?_⟩
  simp only [Region.shape, Prod.mk.injEq]
  exact hrshape

/-- The region around an address of a region is that region. -/
theorem WellFormed.base_of_shape (hm : m.WellFormed) (hbound : base + length < addressBound)
    {permissions : Permissions} {isOwned : Bool}
    (hshape : (base, length, permissions, isOwned) ∈ m.layout) (hr : r ∈ m.regions) {x : Nat}
    (hx : base ≤ x ∧ x < base + length) (hrx : r.base ≤ x ∧ x < r.stop) : r.base = base := by
  obtain ⟨s, hs, hsshape⟩ := List.mem_map.1 hshape
  simp only [Region.shape, Prod.mk.injEq] at hsshape
  have hsx : s.base ≤ x ∧ x < s.stop := by
    unfold Region.stop
    omega
  rw [hm.region_unique hr hs (by omega) hrx hsx]
  exact hsshape.1

/-- What is mapped anew stands beside the regions that are there already. -/
theorem Keeps.insert (hm : m.WellFormed) (hm' : m'.WellFormed) {region : Region}
    (hbound : base + length < addressBound)
    (hshape : (base, length, Permissions.readWrite, true) ∈ m.layout)
    (hfree : m.overlaps region.base region.length = false)
    (hregions : m'.regions = insertSorted region m.regions) : Keeps base length m m' := by
  refine .of_regions hm hm' hshape fun x hx hx' r hr hr' => ?_
  rw [hregions, mem_insertSorted]
  refine or_iff_right fun hnew => ?_
  subst hnew
  obtain ⟨s, hs, hsshape⟩ := List.mem_map.1 hshape
  simp only [Region.shape, Prod.mk.injEq] at hsshape
  have happart := not_overlaps hfree hs
  unfold Region.stop at happart hr'
  omega

/-- The first region with a base, and what stands around it. -/
theorem regionAt?_split (h : m.regionAt? a = some r) : r ∈ m.regions ∧ r.base = a ∧
    ∃ front back, m.regions = front ++ r :: back ∧ ∀ s ∈ front, s.base ≠ a := by
  obtain ⟨hbase, front, back, hregions, hfront⟩ := List.find?_eq_some_iff_append.1 h
  exact ⟨List.mem_of_find?_eq_some h, by simpa using hbase, front, back, hregions,
    fun s hs => by simpa using hfront s hs⟩

/-- A region with another base may be taken away. -/
theorem Keeps.unmap (hm : m.WellFormed) (hbound : base + length < addressBound)
    (hshape : (base, length, Permissions.readWrite, true) ∈ m.layout) (ha : a ≠ base)
    (h : m.unmap a = .ok m') : Keeps base length m m' := by
  refine .of_regions hm (hm.unmap h) hshape fun x hx hx' r hr hr' => ?_
  rw [(unmap_ok h).2]
  refine ⟨List.mem_of_mem_eraseP, fun hmem => (List.mem_eraseP_of_neg ?_).2 hmem⟩
  rw [hm.base_of_shape hbound hshape hmem ⟨hx, hx'⟩ ⟨hr, hr'⟩]
  simpa using ha.symm

/-- The permissions of a region with another base may change. -/
theorem Keeps.protect (hm : m.WellFormed) (hbound : base + length < addressBound)
    (hshape : (base, length, Permissions.readWrite, true) ∈ m.layout) (ha : a ≠ base)
    {permissions : Permissions} (h : m.protect a permissions = .ok m') :
    Keeps base length m m' := by
  refine .of_regions hm (hm.protect h) hshape fun x hx hx' r hr hr' => ?_
  unfold AddressSpace.protect at h
  split at h
  · contradiction
  rename_i old hold
  obtain rfl := (Except.ok.inj h).symm
  obtain ⟨hmem, hbase, front, back, hregions, hfront⟩ := regionAt?_split hold
  change r ∈ replaceAt a { old with permissions } m.regions ↔ _
  rw [hregions, replaceAt_append hfront hbase, List.mem_append, List.mem_cons, List.mem_append,
    List.mem_cons]
  -- Neither the old region nor the new one in its place has an address of the kept region.
  have happart (s : Region) (hs : s.base = old.base) (hs' : s.stop = old.stop) : r ≠ s := by
    rintro rfl
    have hsame := hm.base_of_shape hbound hshape hmem ⟨hx, hx'⟩ ⟨by omega, by omega⟩
    omega
  rw [or_iff_right (happart { old with permissions } rfl rfl), or_iff_right (happart old rfl rfl)]

/-- Bytes beside a region may change. -/
theorem Keeps.written (hshape : (base, length, Permissions.readWrite, true) ∈ m.layout)
    {bytes : List UInt8} (h : Written m a bytes m') (happart : ¬ Meet a bytes.length base length) :
    Keeps base length m m' :=
  ⟨h.wellFormed, h.layout ▸ hshape, fun x hx hx' =>
    h.byte?_outside fun hin => happart ⟨x, hin, hx, hx'⟩⟩

/-- A change of no bytes at all changes nothing. -/
theorem change_nothing {f : Nat → Storage → Storage} (hf : ∀ start storage, f start storage = storage)
    (h : m.change a n f = .ok m') (hm : m.WellFormed) : m' = m := by
  obtain ⟨r, storage, hr, _, hb, rfl⟩ := change_ok h
  obtain ⟨_, _, front, back, hregions, hfront⟩ := regionAt?_split (hm.regionAt?_of_locate? hr)
  have hreplaced : replaceAt r.base r m.regions = m.regions := by
    rw [hregions, replaceAt_append hfront rfl]
  rw [hf, ← hb, hreplaced]

theorem write_nothing (hm : m.WellFormed) (h : m.write a [] = .ok m') : m' = m :=
  change_nothing (fun _ _ => rfl) h hm

theorem fill_nothing (hm : m.WellFormed) {byte : UInt8} (h : m.fill a 0 byte = .ok m') :
    m' = m := by
  have hnothing (start : Nat) (storage : Storage) : storage.fill start 0 byte = storage := by
    simp [Storage.fill, Storage.depth, Cells.fill]
  exact change_nothing hnothing h hm

theorem Keeps.write (hm : m.WellFormed)
    (hshape : (base, length, Permissions.readWrite, true) ∈ m.layout) {bytes : List UInt8}
    (happart : ¬ Meet a bytes.length base length) (h : m.write a bytes = .ok m') :
    Keeps base length m m' := by
  by_cases hn : 0 < bytes.length
  · exact .written hshape (hm.write_ok hn h) happart
  · obtain rfl : bytes = [] := List.length_eq_zero_iff.1 (by omega)
    rw [write_nothing hm h]
    exact .refl hm hshape

theorem Keeps.fill (hm : m.WellFormed)
    (hshape : (base, length, Permissions.readWrite, true) ∈ m.layout) {byte : UInt8}
    (happart : ¬ Meet a n base length) (h : m.fill a n byte = .ok m') :
    Keeps base length m m' := by
  by_cases hn : 0 < n
  · exact .written hshape (hm.fill_ok hn h) (by rwa [List.length_replicate])
  · obtain rfl : n = 0 := by omega
    rw [fill_nothing hm h]
    exact .refl hm hshape

end AddressSpace

namespace MemoryOperation

open AddressSpace (Keeps)

variable {m m' : AddressSpace} {base length : Nat}

theorem keeps_of_apply (hm : m.WellFormed) (hbound : base + length < addressBound)
    (hshape : (base, length, Permissions.readWrite, true) ∈ m.layout) {op : MemoryOperation}
    (hop : ¬ op.Touches base length) (h : op.apply m = .ok m') : Keeps base length m m' := by
  cases op with
  | map base' length' permissions =>
    obtain ⟨_, hfree, _, hregions⟩ := AddressSpace.map_ok h
    exact .insert hm (hm.map h) hbound hshape hfree (by rw [hregions])
  | allocate length' permissions =>
    obtain ⟨base', hallocate⟩ := apply_allocate h
    obtain ⟨_, mapped, hmap, hm'⟩ := AddressSpace.allocate_ok hallocate
    obtain ⟨_, hfree, _, hregions⟩ := AddressSpace.map_ok hmap
    exact .insert hm (hm.allocate hallocate) hbound hshape hfree (by rw [hm', hregions])
  | mapImage base' image =>
    obtain ⟨hfree, hregions⟩ := AddressSpace.mapImage_ok h
    exact .insert hm (hm.mapImage h) hbound hshape hfree (by rw [hregions])
  | unmap base' => exact .unmap hm hbound hshape hop h
  | protect base' permissions => exact .protect hm hbound hshape hop h
  | write address bytes => exact .write hm hshape hop h
  | fill address n byte => exact .fill hm hshape hop h
  | store address width value =>
    obtain ⟨_, hwritten⟩ := hm.store_ok h
    exact .written hshape hwritten (by rwa [length_littleEndian])

/-- What an operation does not touch it leaves as it is. -/
theorem keeps_perform (hm : m.WellFormed) (hbound : base + length < addressBound)
    (hshape : (base, length, Permissions.readWrite, true) ∈ m.layout) {op : MemoryOperation}
    (hop : ¬ op.Touches base length) : Keeps base length m (op.perform m) := by
  unfold perform
  cases h : op.apply m with
  | ok m' => exact keeps_of_apply hm hbound hshape hop h
  | error e => exact .refl hm hshape

end MemoryOperation

end AccessTrace
