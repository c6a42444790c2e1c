import AccessTrace.Proofs.Memory.InPlace

/-!
# Giving memory back

To unmap what was allocated last gives back the address space from before, but for the place of the
next allocation. This stays so if the region is written to in between, or another one is, as long as it
keeps its base and its storage.
-/

namespace AccessTrace

namespace AddressSpace

variable {m m' n : AddressSpace} {region r : Region} {base other : Nat}

/-! ## Lists of regions -/

/-- A region that was replaced is removed like the one from before. -/
theorem eraseP_replaceAt (hbase : region.base = base) (l : List Region) :
    (replaceAt base region l).eraseP (fun r => r.base == base) =
      l.eraseP fun r => r.base == base := by
  induction l with
  | nil => rfl
  | cons r rest ih =>
    rw [replaceAt]
    split
    · rename_i h
      rw [List.eraseP_cons_of_pos (by simpa using hbase), List.eraseP_cons_of_pos (by simpa using h)]
    · rename_i h
      rw [List.eraseP_cons_of_neg (by simpa using h), List.eraseP_cons_of_neg (by simpa using h), ih]

theorem eraseP_replaceAt_of_ne (hbase : region.base = base) (hne : base ≠ other) (l : List Region) :
    (replaceAt base region l).eraseP (fun r => r.base == other) =
      replaceAt base region (l.eraseP fun r => r.base == other) := by
  induction l with
  | nil => rfl
  | cons r rest ih =>
    rw [replaceAt]
    split
    · rename_i h
      rw [List.eraseP_cons_of_neg (by simpa [hbase] using hne),
        List.eraseP_cons_of_neg (by simpa [h] using hne), replaceAt, if_pos h]
    · rename_i h
      by_cases hother : r.base = other
      · rw [List.eraseP_cons_of_pos (by simpa using hother),
          List.eraseP_cons_of_pos (by simpa using hother)]
      · rw [List.eraseP_cons_of_neg (by simpa using hother),
          List.eraseP_cons_of_neg (by simpa using hother), ih, replaceAt, if_neg h]

theorem find?_replaceAt_of_ne (hbase : region.base = base) (hne : base ≠ other) (l : List Region) :
    (replaceAt base region l).find? (fun r => r.base == other) =
      l.find? fun r => r.base == other := by
  induction l with
  | nil => rfl
  | cons r rest ih =>
    rw [replaceAt]
    split
    · rename_i h
      rw [List.find?_cons_of_neg (by simpa [hbase] using hne),
        List.find?_cons_of_neg (by simpa [h] using hne)]
    · by_cases hother : r.base = other
      · rw [List.find?_cons_of_pos (by simpa using hother),
          List.find?_cons_of_pos (by simpa using hother)]
      · rw [List.find?_cons_of_neg (by simpa using hother),
          List.find?_cons_of_neg (by simpa using hother), ih]

theorem find?_eraseP_of_ne (hne : base ≠ other) (l : List Region) :
    (l.eraseP fun r => r.base == other).find? (fun r => r.base == base) =
      l.find? fun r => r.base == base := by
  induction l with
  | nil => rfl
  | cons r rest ih =>
    by_cases hother : r.base = other
    · rw [List.eraseP_cons_of_pos (by simpa using hother),
        List.find?_cons_of_neg (by simpa [hother] using hne.symm)]
    · rw [List.eraseP_cons_of_neg (by simpa using hother), List.find?_cons, ih, List.find?_cons]

theorem replaceAt_replaceAt (hbase : r.base = base) (l : List Region) :
    replaceAt base region (replaceAt base r l) = replaceAt base region l := by
  induction l with
  | nil => rfl
  | cons first rest ih =>
    rw [replaceAt]
    split
    · rename_i h
      rw [replaceAt, if_pos hbase, replaceAt, if_pos h]
    · rename_i h
      rw [replaceAt, if_neg h, ih, replaceAt, if_neg h]

/-! ## Edits of a region -/

/-- The first region at a base may have been replaced by one that owns as much. -/
def Edited (base : Nat) (m m' : AddressSpace) : Prop :=
  ∃ r region, m.regionAt? base = some r ∧ region.base = base ∧ region.ownedBytes = r.ownedBytes ∧
    m' = { m with regions := replaceAt base region m.regions }

theorem regionAt?_replaceAt (hfirst : m.regionAt? base = some r) (hbase : region.base = base) :
    ({ m with regions := replaceAt base region m.regions } : AddressSpace).regionAt? base =
      some region := by
  obtain ⟨_, hr, front, back, hregions, hfront⟩ := regionAt?_split hfirst
  refine List.find?_eq_some_iff_append.2 ⟨by simpa using hbase, front, back, ?_, ?_⟩
  · change replaceAt base region m.regions = _
    rw [hregions, replaceAt_append hfront hr]
  · simpa using hfront

theorem Edited.trans (h : Edited base m m') (h' : Edited base m' n) : Edited base m n := by
  obtain ⟨r, region, hfirst, hbase, howned, rfl⟩ := h
  obtain ⟨r', region', hfirst', hbase', howned', rfl⟩ := h'
  rw [regionAt?_replaceAt hfirst hbase] at hfirst'
  obtain rfl := Option.some.inj hfirst'
  refine ⟨r, region', hfirst, hbase', howned'.trans howned, ?_⟩
  dsimp only
  rw [replaceAt_replaceAt hbase]

/-- An edited region is unmapped like the one from before. -/
theorem Edited.unmap (h : Edited base m m') : m'.unmap base = m.unmap base := by
  obtain ⟨r, region, hfirst, hbase, howned, rfl⟩ := h
  unfold AddressSpace.unmap
  rw [regionAt?_replaceAt hfirst hbase, hfirst]
  dsimp only
  rw [howned, eraseP_replaceAt hbase]

/-- An edit stays when another region is unmapped. -/
theorem Edited.unmap_other (h : Edited base m m') (hne : base ≠ other)
    (hunmap : m.unmap other = .ok n) : ∃ n', m'.unmap other = .ok n' ∧ Edited base n n' := by
  obtain ⟨r, region, hfirst, hbase, howned, rfl⟩ := h
  unfold AddressSpace.unmap at hunmap ⊢
  have hother : ({ m with regions := replaceAt base region m.regions } : AddressSpace).regionAt?
      other = m.regionAt? other := find?_replaceAt_of_ne hbase hne m.regions
  rw [hother]
  cases hfound : m.regionAt? other with
  | none =>
    rw [hfound] at hunmap
    contradiction
  | some s =>
    rw [hfound] at hunmap
    obtain rfl := Except.ok.inj hunmap
    refine ⟨_, rfl, r, region, ?_, hbase, howned, ?_⟩
    · exact (find?_eraseP_of_ne hne m.regions).trans hfirst
    · dsimp only
      rw [eraseP_replaceAt_of_ne hbase hne]

/-! ## Added regions -/

/-- A region was put behind regions with other bases. -/
def Added (region : Region) (m m' : AddressSpace) : Prop :=
  ∃ front back next, m.regions = front ++ back ∧ (∀ r ∈ front, r.base ≠ region.base) ∧
    m' = { m with
      regions := front ++ region :: back
      nextAllocation := next
      ownedBytes := m.ownedBytes + region.ownedBytes }

/-- To unmap an added region undoes that. -/
theorem Added.unmap (h : Added region m m') :
    m'.unmap region.base = .ok { m with nextAllocation := m'.nextAllocation } := by
  obtain ⟨front, back, next, hregions, hfront, rfl⟩ := h
  have hfound : ({ m with
      regions := front ++ region :: back
      nextAllocation := next
      ownedBytes := m.ownedBytes + region.ownedBytes } : AddressSpace).regionAt? region.base =
        some region :=
    List.find?_eq_some_iff_append.2 ⟨beq_self_eq_true _, front, back, rfl, by simpa using hfront⟩
  unfold AddressSpace.unmap
  rw [hfound]
  dsimp only
  rw [List.eraseP_append_right _ (by simpa using hfront),
    List.eraseP_cons_of_pos (by simp), ← hregions, Nat.add_sub_cancel]

theorem Added.withNext (h : Added region m m') (next : Nat) :
    Added region m { m' with nextAllocation := next } := by
  obtain ⟨front, back, _, hregions, hfront, rfl⟩ := h
  exact ⟨front, back, next, hregions, hfront, rfl⟩

theorem WellFormed.added_allocate (hm : m.WellFormed) {length : Nat} {permissions : Permissions}
    (h : m.allocate length permissions = .ok (base, m')) :
    Added ⟨base, length, permissions, .owned (.zeroed length)⟩ m m' := by
  obtain ⟨rfl, mapped, hmap, rfl⟩ := allocate_ok h
  obtain ⟨_, _, _, rfl⟩ := map_ok hmap
  obtain ⟨front, back, hregions, hinserted, hfront, _⟩ := insertSorted_split hm.sorted
    ⟨m.nextAllocation, length, permissions, .owned (.zeroed length)⟩
  refine ⟨front, back, m.nextAllocation + roundUpToPage length + pageSize, hregions,
    fun r hr => Nat.ne_of_lt (hfront r hr), ?_⟩
  dsimp only
  rw [hinserted]
  rfl

/-- A word that is stored into an ordinary region is an edit of it. -/
theorem WellFormed.store_edited (hm : m.WellFormed) {length a : Nat}
    (hshape : (base, length, Permissions.readWrite, true) ∈ m.layout)
    (hbound : base + length < addressBound) (ha : base ≤ a) (hn : a + 8 ≤ base + length)
    (value : Word) : ∃ m', m.store a 8 value = .ok m' ∧ m'.WellFormed ∧ m'.layout = m.layout ∧
      Edited base m m' := by
  have hwritable : m.Writable a 8 := (usable hshape ha hn (by omega)).1
  obtain ⟨m', hstore, hwritten⟩ := hm.store_of_writable rfl hwritable value
  refine ⟨m', hstore, hwritten.wellFormed, hwritten.layout, ?_⟩
  have hlength : (littleEndian 8 value.toNat).length = 8 := length_littleEndian _ _
  obtain ⟨r, hr, hrange, storage, hbacking, hchange⟩ := hm.change_of_writable (n := 8)
    (by decide) hwritable fun start storage => storage.write start (littleEndian 8 value.toNat)
  have hbase : r.base = base := hm.base_of_shape hbound hshape hr (x := a)
    ⟨ha, by omega⟩ ⟨hrange.1, by omega⟩
  have hwrite : m.change a 8 (fun start storage =>
      storage.write start (littleEndian 8 value.toNat)) = .ok m' := by
    rw [← hlength]
    exact (write_of_store hstore).2
  rw [hwrite, hbase] at hchange
  refine ⟨r, _, hbase ▸ hm.regionAt?_base hr (by omega), rfl, ?_, Except.ok.inj hchange⟩
  simp only [Region.ownedBytes, hbacking, Storage.size_write]

end AddressSpace

end AccessTrace
