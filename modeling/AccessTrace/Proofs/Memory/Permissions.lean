import AccessTrace.Proofs.Memory.Restoration

/-!
# Changes of permissions

Permissions decide which accesses succeed, and nothing else depends on them: regions are found where
they were and the bytes are what they were. To protect a region twice is to protect it once, and it
does not matter whether a region is protected before or after another one is, or before or after
bytes are changed that may be written to both times.
-/

namespace AccessTrace

namespace Region

def withPermissions (r : Region) (p : Permissions) : Region :=
  { r with permissions := p }

def withStorage (r : Region) (storage : Storage) : Region :=
  { r with backing := .owned storage }

end Region

namespace AddressSpace

variable {m m' n : AddressSpace} {region r s : Region} {a base other x k : Nat}
  {p q : Permissions}

/-! ## Regions in the place of others -/

/-- Puts a region in the place of the first one with this base. -/
def put (m : AddressSpace) (base : Nat) (region : Region) : AddressSpace :=
  { m with regions := replaceAt base region m.regions }

theorem regionAt?_put (h : m.regionAt? base = some r) (hbase : region.base = base) :
    (m.put base region).regionAt? base = some region :=
  regionAt?_replaceAt h hbase

theorem regionAt?_put_of_ne (hbase : region.base = base) (hne : base ≠ other) :
    (m.put base region).regionAt? other = m.regionAt? other :=
  find?_replaceAt_of_ne hbase hne m.regions

theorem put_put (hbase : r.base = base) : (m.put base r).put base region = m.put base region := by
  simp only [put, replaceAt_replaceAt hbase]

theorem put_self (h : m.regionAt? base = some r) : m.put base r = m := by
  obtain ⟨_, hbase, front, back, hregions, hfront⟩ := regionAt?_split h
  rw [put, hregions, replaceAt_append hfront hbase, ← hregions]

/-- Regions with different bases can be replaced in any order. -/
theorem replaceAt_comm (hr : r.base = base) (hs : s.base = other) (hne : base ≠ other)
    (l : List Region) :
    replaceAt base r (replaceAt other s l) = replaceAt other s (replaceAt base r l) := by
  induction l with
  | nil => rfl
  | cons first rest ih =>
    by_cases hbase : first.base = base
    · have hother : first.base ≠ other := hbase ▸ hne
      have hr' : r.base ≠ other := hr ▸ hne
      simp only [replaceAt, if_neg hother, if_pos hbase, if_neg hr']
    · by_cases hother : first.base = other
      · have hs' : s.base ≠ base := hs ▸ hne.symm
        simp only [replaceAt, if_pos hother, if_neg hbase, if_neg hs']
      · simp only [replaceAt, if_neg hother, if_neg hbase, ih]

theorem put_comm (hr : r.base = base) (hs : s.base = other) (hne : base ≠ other) :
    (m.put other s).put base r = (m.put base r).put other s := by
  simp only [put, replaceAt_comm hr hs hne]

/-! ## Protection -/

theorem protect_of_region (h : m.regionAt? a = some r) (p : Permissions) :
    m.protect a p = .ok (m.put a (r.withPermissions p)) := by
  rw [protect, h]
  rfl

theorem protect_ok (h : m.protect a p = .ok m') :
    ∃ r, m.regionAt? a = some r ∧ r.base = a ∧ m' = m.put a (r.withPermissions p) := by
  cases hr : m.regionAt? a with
  | none =>
    rw [protect, hr] at h
    contradiction
  | some r =>
    rw [protect_of_region hr] at h
    exact ⟨r, rfl, (regionAt?_split hr).2.1, (Except.ok.inj h).symm⟩

/-- A region has the permissions that it was given last. -/
theorem protect_protect (h : m.protect a p = .ok m') (q : Permissions) :
    m'.protect a q = m.protect a q := by
  obtain ⟨r, hr, hbase, rfl⟩ := protect_ok h
  have hput : (m.put a (r.withPermissions p)).regionAt? a = some (r.withPermissions p) :=
    regionAt?_put hr hbase
  rw [protect_of_region hput, protect_of_region hr]
  exact congrArg Except.ok (put_put hbase)

theorem protect_comm (hne : a ≠ base) (h : m.protect a p = .ok m') (q : Permissions) :
    m'.protect base q = (m.protect base q).bind (·.protect a p) := by
  obtain ⟨r, hr, hbase, rfl⟩ := protect_ok h
  have hother : (m.put a (r.withPermissions p)).regionAt? base = m.regionAt? base :=
    regionAt?_put_of_ne hbase hne
  cases hs : m.regionAt? base with
  | none =>
    rw [protect, protect, hother, hs]
    rfl
  | some s =>
    have hsbase := (regionAt?_split hs).2.1
    have hgiven : (s.withPermissions q).base = base := hsbase
    have hr' : (m.put base (s.withPermissions q)).regionAt? a = some r := by
      rwa [regionAt?_put_of_ne hgiven hne.symm]
    rw [protect_of_region (hother.trans hs), protect_of_region hs]
    show _ = AddressSpace.protect _ a p
    rw [protect_of_region hr']
    exact congrArg Except.ok (put_comm hsbase hbase hne.symm)

/-- To give a region the permissions that it has changes nothing. -/
theorem protect_of_permissions (h : m.regionAt? a = some r) (hp : r.permissions = p) :
    m.protect a p = .ok m := by
  rw [protect_of_region h, ← hp]
  exact congrArg Except.ok (put_self h)

/-- Regions are found where they were. -/
theorem WellFormed.locate?_protect (hm : m.WellFormed) (h : m.protect a p = .ok m') (x k : Nat) :
    m'.locate? x k = (m.locate? x k).map fun r =>
      if r.base = a then r.withPermissions p else r := by
  obtain ⟨s, hs, _, rfl⟩ := protect_ok h
  obtain ⟨_, hbase, front, back, hregions, hfront⟩ := regionAt?_split hs
  by_cases hbound : x + k < addressBound
  · have hfound (r : Region) (hr : m.regions.find? (·.covers x k) = some r) :
        m.regionAt? r.base = some r :=
      hm.regionAt?_of_locate? (by rw [locate?, if_pos hbound, hr])
    rw [locate?, if_pos hbound, locate?, if_pos hbound]
    show (replaceAt a (s.withPermissions p) m.regions).find? _ = _
    rw [hregions] at hfound ⊢
    rw [replaceAt_append hfront hbase, List.find?_append, List.find?_append]
    rw [List.find?_append] at hfound
    cases hin : front.find? (·.covers x k) with
    | some r =>
      have hne := hfront r (List.mem_of_find?_eq_some hin)
      simp [hne]
    | none =>
      rw [hin, Option.none_or] at hfound
      have hsame : (s.withPermissions p).covers x k = s.covers x k := rfl
      simp only [Option.none_or, List.find?_cons, hsame] at hfound ⊢
      cases hcovers : s.covers x k with
      | true => simp only [Option.map_some, if_pos hbase]
      | false =>
        simp only [hcovers] at hfound ⊢
        cases hback : back.find? (·.covers x k) with
        | none => rfl
        | some r =>
          have hne : r.base ≠ a := by
            intro heq
            have hr := hfound r hback
            rw [heq, hs] at hr
            obtain rfl := Option.some.inj hr
            have hcovers' := List.find?_some hback
            rw [hcovers] at hcovers'
            contradiction
          rw [Option.map_some, if_neg hne]
  · rw [locate?, if_neg hbound, locate?, if_neg hbound]
    rfl

/-- Bytes do not depend on permissions. -/
theorem WellFormed.byte?_protect (hm : m.WellFormed) (h : m.protect a p = .ok m') (x : Nat) :
    m'.byte? x = m.byte? x := by
  rw [byte?, byte?, hm.locate?_protect h]
  cases m.locate? x 1 with
  | none => rfl
  | some r =>
    rw [Option.map_some, Option.bind_some, Option.bind_some]
    split <;> rfl

/-- The bytes that are left were there before. -/
theorem WellFormed.byte?_unmap (hm : m.WellFormed) (h : m.unmap a = .ok m') {x : Nat} {byte : UInt8}
    (hx : m'.byte? x = some byte) : m.byte? x = some byte := by
  obtain ⟨r, hr, hbyte⟩ := Option.bind_eq_some_iff.1 hx
  obtain ⟨hmem, hbase, hstop, hbound⟩ := locate?_spec hr
  rw [(unmap_ok h).2] at hmem
  rw [hm.byte?_of_mem (List.mem_of_mem_eraseP hmem) hbase (by omega) hbound, hbyte]

theorem WellFormed.regionAt?_unmap (hm : m.WellFormed) (ha : a + 1 < addressBound)
    (h : m.unmap a = .ok m') : m'.regionAt? a = none := by
  obtain ⟨⟨r, hr, rfl⟩, _⟩ := unmap_ok h
  obtain ⟨n, hunmap, hregions⟩ := hm.unmap_region hr ha
  obtain rfl := Except.ok.inj (hunmap.symm.trans h)
  rw [regionAt?, List.find?_eq_none]
  intro s hs
  simpa using ((hregions s).1 hs).2

theorem change_of_locate? {storage : Storage} (hr : m.locate? x k = some r)
    (hwrite : r.permissions.write = true) (hbacking : r.backing = .owned storage)
    (f : Nat → Storage → Storage) :
    m.change x k f = .ok (m.put r.base (r.withStorage (f (x - r.base) storage))) := by
  unfold change
  rw [hr, Option.bind_some, Region.change?, hbacking]
  simp only [hwrite, if_true]
  rfl

/-- What may be written to both times is the same before and after. -/
theorem WellFormed.change_protect (hm : m.WellFormed) {f : Nat → Storage → Storage}
    (h : m.change x k f = .ok m') (hprotect : m'.protect a p = .ok n) (hp : p.write = true) :
    ∃ m₀, m.protect a p = .ok m₀ ∧ m₀.change x k f = .ok n := by
  obtain ⟨r, storage, hr, hwrite, hbacking, _⟩ := change_ok h
  have hfirst := hm.regionAt?_of_locate? hr
  have hbase : (r.withStorage (f (x - r.base) storage)).base = r.base := rfl
  rw [change_of_locate? hr hwrite hbacking] at h
  obtain rfl := Except.ok.inj h
  obtain ⟨s, hs, hsbase, rfl⟩ := protect_ok hprotect
  by_cases heq : r.base = a
  · subst heq
    rw [regionAt?_put hfirst hbase] at hs
    obtain rfl := Option.some.inj hs
    have hprotected := protect_of_region hfirst p
    have hlocated := hm.locate?_protect hprotected x k
    rw [hr, Option.map_some, if_pos rfl] at hlocated
    refine ⟨_, hprotected, (change_of_locate? hlocated hp hbacking f).trans ?_⟩
    rw [put_put hbase]
    exact congrArg Except.ok (put_put (r := r.withPermissions p) rfl)
  · rw [regionAt?_put_of_ne hbase heq] at hs
    have hprotected := protect_of_region hs p
    have hlocated := hm.locate?_protect hprotected x k
    rw [hr, Option.map_some, if_neg heq] at hlocated
    refine ⟨_, hprotected, (change_of_locate? hlocated hwrite hbacking f).trans ?_⟩
    exact congrArg Except.ok (put_comm hbase hsbase heq)

end AddressSpace

end AccessTrace
