import AccessTrace.Proofs.Memory.Bytes

/-!
# Reachable address spaces

Every address space that the operations can build is well-formed, whatever their arguments were.
-/

namespace AccessTrace

namespace AddressSpace

variable {m m' : AddressSpace} {r : Region} {a n : Nat}

/-- The first region that covers a range is also the first one with its base. -/
theorem WellFormed.regionAt?_of_locate? (hm : m.WellFormed) (h : m.locate? a n = some r) :
    m.regionAt? r.base = some r := by
  obtain ⟨hr, hbase, hstop, hbound⟩ := locate?_spec h
  by_cases hb : r.base + 1 < addressBound
  · exact hm.regionAt?_base hr hb
  -- What is left is an empty range at the last address, which all regions there cover.
  rw [locate?, if_pos hbound] at h
  obtain ⟨_, front, back, hregions, hfront⟩ := List.find?_eq_some_iff_append.1 h
  refine List.find?_eq_some_iff_append.2 ⟨beq_self_eq_true _, front, back, hregions, ?_⟩
  intro s hs
  have hlast : s.base ≠ r.base := by
    intro hsame
    have hlt := hm.base_lt_stop (r := s) (by rw [hregions]; exact List.mem_append_left _ hs)
    have hcovers : s.covers a n = true := (s.covers_iff a n).2 ⟨by omega, by omega⟩
    have hnot := hfront s hs
    rw [hcovers] at hnot
    contradiction
  simpa using hlast

/-- A change of storage that keeps its size keeps the invariant. -/
theorem WellFormed.change (hm : m.WellFormed) {f : Nat → Storage → Storage}
    (hsize : ∀ start storage, (f start storage).size = storage.size)
    (h : m.change a n f = .ok m') : m'.WellFormed := by
  obtain ⟨r, storage, hr, _, hb, rfl⟩ := change_ok h
  have hsound := hm.sound r (locate?_spec hr).1
  have hlength : storage.size = r.length := by
    have h := hsound.2
    rwa [hb] at h
  exact hm.replace_first (hm.regionAt?_of_locate? hr) _ rfl rfl
    ⟨hsound.1, (hsize _ storage).trans hlength⟩

theorem WellFormed.protect (hm : m.WellFormed) {base : Nat} {permissions : Permissions}
    (h : m.protect base permissions = .ok m') : m'.WellFormed := by
  unfold AddressSpace.protect at h
  split at h
  · contradiction
  · rename_i r hr
    obtain rfl := (Except.ok.inj h).symm
    have hsound := hm.sound r (List.mem_of_find?_eq_some hr)
    exact hm.replace_first hr _ rfl rfl ⟨hsound.1, hsound.2⟩

theorem WellFormed.allocate (hm : m.WellFormed) {length base : Nat} {permissions : Permissions}
    (h : m.allocate length permissions = .ok (base, m')) : m'.WellFormed := by
  obtain ⟨_, mapped, hmap, rfl⟩ := allocate_ok h
  have hmapped := hm.map hmap
  exact ⟨hmapped.ordered, hmapped.sound⟩

/-- The address spaces that the operations build from empty ones. -/
inductive Reachable : AddressSpace → Prop where
  | withLimit (limit : Option Nat) (allocator : Allocator) : Reachable (withLimit limit allocator)
  | map {m m' : AddressSpace} {base length : Nat} {permissions : Permissions} (hm : Reachable m)
    (h : m.map base length permissions = .ok m') : Reachable m'
  | allocate {m m' : AddressSpace} {base length : Nat} {permissions : Permissions}
    (hm : Reachable m) (h : m.allocate length permissions = .ok (base, m')) : Reachable m'
  | mapImage {m m' : AddressSpace} {base : Nat} {image : CodeImage} (hm : Reachable m)
    (h : m.mapImage base image = .ok m') : Reachable m'
  | unmap {m m' : AddressSpace} {base : Nat} (hm : Reachable m) (h : m.unmap base = .ok m') :
    Reachable m'
  | protect {m m' : AddressSpace} {base : Nat} {permissions : Permissions} (hm : Reachable m)
    (h : m.protect base permissions = .ok m') : Reachable m'
  | write {m m' : AddressSpace} {address : Nat} {bytes : List UInt8} (hm : Reachable m)
    (h : m.write address bytes = .ok m') : Reachable m'
  | fill {m m' : AddressSpace} {address length : Nat} {byte : UInt8} (hm : Reachable m)
    (h : m.fill address length byte = .ok m') : Reachable m'

theorem Reachable.wellFormed (h : m.Reachable) : m.WellFormed := by
  induction h with
  | withLimit limit allocator => exact wellFormed_withLimit limit allocator
  | map _ h hm => exact hm.map h
  | allocate _ h hm => exact hm.allocate h
  | mapImage _ h hm => exact hm.mapImage h
  | unmap _ h hm => exact hm.unmap h
  | protect _ h hm => exact hm.protect h
  | write _ h hm => exact hm.change (fun _ _ => Storage.size_write _ _ _) h
  | fill _ h hm => exact hm.change (fun _ _ => Storage.size_fill _ _ _ _) h

end AddressSpace

end AccessTrace
