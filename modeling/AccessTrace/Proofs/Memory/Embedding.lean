import AccessTrace.Proofs.Memory.Bytes

/-!
# One memory inside another

A memory is embedded in another if its regions are regions there too and hold the same bytes. What
can be done to the inner memory can be done to the outer one with the same outcome, and leaves the
bytes beside the inner one alone. The converse fails in one way only: an access may be possible in
the outer memory because it falls into a region which the inner one does not have.
-/

namespace AccessTrace

namespace AddressSpace

variable {m m' M M' : AddressSpace} {a n : Nat} {bytes : List UInt8}

theorem isMapped_iff {x : Nat} :
    m.isMapped x = true ↔ ∃ r ∈ m.regions, r.base ≤ x ∧ x < r.stop := by
  simp [isMapped]

theorem isMapped_eq_false_iff {x : Nat} :
    m.isMapped x = false ↔ ∀ r ∈ m.regions, ¬ (r.base ≤ x ∧ x < r.stop) := by
  simp [isMapped]

/-- Where there are regions depends on the layout only. -/
theorem isMapped_of_layout (h : m'.layout = m.layout) (x : Nat) :
    m'.isMapped x = m.isMapped x := by
  have himp {m m' : AddressSpace} (h : m'.layout = m.layout) (hx : m.isMapped x = true) :
      m'.isMapped x = true := by
    obtain ⟨r, hr, hrange⟩ := isMapped_iff.1 hx
    obtain ⟨r', hr', hshape⟩ := exists_of_layout h hr
    refine isMapped_iff.2 ⟨r', hr', ?_⟩
    rwa [Region.stop_of_shape hshape, (Region.shape_eq_iff.1 hshape).1]
  rw [Bool.eq_iff_iff]
  exact ⟨himp h.symm, himp h⟩

/-- The regions of the inner memory are in the outer one, with the same bytes. -/
structure Embeds (m M : AddressSpace) : Prop where
  inner : m.WellFormed
  outer : M.WellFormed
  layout : m.layout ⊆ M.layout
  byte? : ∀ x, m.isMapped x = true → M.byte? x = m.byte? x

/-- `M'` is `M` with changes at most where `m` has regions. -/
structure Beside (m M M' : AddressSpace) : Prop where
  layout : M'.layout = M.layout
  byte? : ∀ x, m.isMapped x = false → M'.byte? x = M.byte? x

/-- The range lies in a region of the outer memory that the inner one does not have. -/
def Foreign (m M : AddressSpace) (a n : Nat) : Prop :=
  ∃ r ∈ M.regions, r.shape ∉ m.layout ∧ r.base ≤ a ∧ a + n ≤ r.stop

/-- The error is a fault that only the inner memory gives. -/
def ForeignFault (m M : AddressSpace) (e : MachineError) : Prop :=
  ∃ a n direction, e = .fault a n direction ∧ Foreign m M a n

theorem Foreign.of_layout (h : Foreign m M a n) (hm : m'.layout = m.layout)
    (hM : M'.layout = M.layout) : Foreign m' M' a n := by
  obtain ⟨r, hr, hnew, hrange⟩ := h
  obtain ⟨r', hr', hshape⟩ := exists_of_layout hM hr
  refine ⟨r', hr', by rwa [hm, hshape], ?_⟩
  rwa [Region.stop_of_shape hshape, (Region.shape_eq_iff.1 hshape).1]

theorem ForeignFault.of_layout {e : MachineError} (h : ForeignFault m M e)
    (hm : m'.layout = m.layout) (hM : M'.layout = M.layout) : ForeignFault m' M' e := by
  obtain ⟨a, n, direction, he, hforeign⟩ := h
  exact ⟨a, n, direction, he, hforeign.of_layout hm hM⟩

theorem Beside.refl (m M : AddressSpace) : Beside m M M :=
  ⟨rfl, fun _ _ => rfl⟩

theorem Beside.trans {M₁ M₂ : AddressSpace} (h₁ : Beside m M M₁) (hm : m'.layout = m.layout)
    (h₂ : Beside m' M₁ M₂) : Beside m M M₂ := by
  refine ⟨h₂.layout.trans h₁.layout, fun x hx => ?_⟩
  rw [h₂.byte? x (by rwa [isMapped_of_layout hm]), h₁.byte? x hx]

namespace Embeds

/-- A region of the inner memory, as it is in the outer one. -/
theorem exists_region (h : Embeds m M) {r : Region} (hr : r ∈ m.regions) :
    ∃ s ∈ M.regions, s.shape = r.shape :=
  List.mem_map.1 (h.layout (List.mem_map_of_mem hr))

theorem isMapped (h : Embeds m M) {x : Nat} (hx : m.isMapped x = true) : M.isMapped x = true := by
  obtain ⟨r, hr, hrange⟩ := isMapped_iff.1 hx
  obtain ⟨s, hs, hshape⟩ := h.exists_region hr
  refine isMapped_iff.2 ⟨s, hs, ?_⟩
  rwa [Region.stop_of_shape hshape, (Region.shape_eq_iff.1 hshape).1]

/-- What is free in the outer memory is free in the inner one. -/
theorem free (h : Embeds m M) {x : Nat} (hx : M.isMapped x = false) : m.isMapped x = false := by
  by_cases hin : m.isMapped x = true
  · rw [h.isMapped hin] at hx
    contradiction
  · exact Bool.eq_false_iff.2 hin

theorem writable (h : Embeds m M) (hw : m.Writable a n) : M.Writable a n := by
  obtain ⟨r, hr, hrange, hp, howned⟩ := hw
  obtain ⟨s, hs, hshape⟩ := h.exists_region hr
  have hstop := Region.stop_of_shape hshape
  rw [Region.shape_eq_iff] at hshape
  exact ⟨s, hs, by rwa [hstop, hshape.1], hshape.2.2.1 ▸ hp, hshape.2.2.2 ▸ howned⟩

/-- Position by position, two regions of one shape hold the same bytes. -/
theorem byteAt?_eq (h : Embeds m M) {r s : Region} (hr : r ∈ m.regions) (hs : s ∈ M.regions)
    (hshape : s.shape = r.shape) {x : Nat} (hx : r.base ≤ x ∧ x < r.stop)
    (hb : x + 1 < addressBound) : s.byteAt? (x - r.base) = r.byteAt? (x - r.base) := by
  have hstop := Region.stop_of_shape hshape
  have hbase := (Region.shape_eq_iff.1 hshape).1
  have hbyte := h.byte? x (isMapped_iff.2 ⟨r, hr, hx⟩)
  rw [h.outer.byte?_of_mem hs (by omega) (by omega) hb,
    h.inner.byte?_of_mem hr hx.1 hx.2 hb, hbase] at hbyte
  exact hbyte

theorem readable (h : Embeds m M) (hread : m.Readable a n) : M.Readable a n := by
  obtain ⟨r, hr, hrange, hp, hsome⟩ := hread
  obtain ⟨s, hs, hshape⟩ := h.exists_region hr
  have hstop := Region.stop_of_shape hshape
  obtain ⟨hbase, _, hperm, _⟩ := Region.shape_eq_iff.1 hshape
  refine ⟨s, hs, by rwa [hstop, hbase], hperm ▸ hp, fun i hi => ?_⟩
  have hbyte := h.byteAt?_eq hr hs hshape (x := a + i) (by omega) (by omega)
  rw [show a + i - r.base = a - r.base + i by omega] at hbyte
  rw [hbase, hbyte]
  exact hsome i hi

theorem bytesAt (h : Embeds m M) (hread : m.Readable a n) : M.bytesAt a n = m.bytesAt a n := by
  obtain ⟨r, hr, hrange, _⟩ := hread
  refine bytesAt_congr fun i hi => h.byte? _ (isMapped_iff.2 ⟨r, hr, ?_⟩)
  omega

/-- Ordinary memory of the inner one reads alike. -/
theorem read_eq (h : Embeds m M) {base length : Nat}
    (hregion : (base, length, Permissions.readWrite, true) ∈ m.layout) (hpos : 0 < n)
    (ha : base ≤ a) (hn : a + n ≤ base + length) : M.read a n = m.read a n := by
  by_cases hb : a + n < addressBound
  · have hread := (usable hregion ha hn hb).2
    rw [h.outer.read_of_readable hpos (h.readable hread), h.inner.read_of_readable hpos hread,
      h.bytesAt hread]
  · have hend {m : AddressSpace} : ¬ m.Readable a n := fun ⟨_, _, hrange, _⟩ => hb hrange.2.2
    rw [read_of_not_readable hpos hend, read_of_not_readable hpos hend]

/-- An access that is possible in the outer memory is so in the inner one, or it is foreign. -/
theorem writable_or_foreign (m : AddressSpace) (hw : M.Writable a n) :
    m.Writable a n ∨ Foreign m M a n := by
  obtain ⟨s, hs, hrange, hp, howned⟩ := hw
  by_cases hnew : s.shape ∈ m.layout
  · obtain ⟨r, hr, hshape⟩ := List.mem_map.1 hnew
    have hstop := Region.stop_of_shape hshape
    rw [Region.shape_eq_iff] at hshape
    exact Or.inl ⟨r, hr, by rwa [hstop, hshape.1], hshape.2.2.1 ▸ hp, hshape.2.2.2 ▸ howned⟩
  · exact Or.inr ⟨s, hs, hnew, hrange.1, hrange.2.1⟩

theorem readable_or_foreign (h : Embeds m M) (hread : M.Readable a n) :
    m.Readable a n ∨ Foreign m M a n := by
  obtain ⟨s, hs, hrange, hp, hsome⟩ := hread
  by_cases hnew : s.shape ∈ m.layout
  · obtain ⟨r, hr, hshape⟩ := List.mem_map.1 hnew
    have hstop := Region.stop_of_shape hshape
    obtain ⟨hbase, _, hperm, _⟩ := Region.shape_eq_iff.1 hshape
    refine Or.inl ⟨r, hr, by rwa [hstop, hbase], hperm ▸ hp, fun i hi => ?_⟩
    have hbyte := h.byteAt?_eq hr hs hshape.symm (x := a + i) (by omega) (by omega)
    rw [show a + i - r.base = a - r.base + i by omega] at hbyte
    rw [← hbyte, hbase]
    exact hsome i hi
  · exact Or.inr ⟨s, hs, hnew, hrange.1, hrange.2.1⟩

/-- The same bytes written to the same place of both memories. -/
theorem written (h : Embeds m M) (hinner : Written m a bytes m') (houter : Written M a bytes M') :
    Embeds m' M' ∧ Beside m M M' := by
  refine ⟨⟨hinner.wellFormed, houter.wellFormed, ?_, fun x hx => ?_⟩, houter.layout,
    fun x hx => houter.byte?_outside fun hrange => ?_⟩
  · rw [hinner.layout, houter.layout]
    exact h.layout
  · rw [isMapped_of_layout hinner.layout] at hx
    rw [houter.byte? x, hinner.byte? x, h.byte? x hx]
  · obtain ⟨r, hr, hr', _⟩ := hinner.writable
    exact isMapped_eq_false_iff.1 hx r hr (by omega)

/-- A memory is embedded in one with more regions. -/
theorem of_subset (hm : m.WellFormed) (hM : M.WellFormed) (h : ∀ r ∈ m.regions, r ∈ M.regions) :
    Embeds m M := by
  refine ⟨hm, hM, fun shape hshape => ?_, fun x hx => ?_⟩
  · obtain ⟨r, hr, rfl⟩ := List.mem_map.1 hshape
    exact List.mem_map_of_mem (h r hr)
  · obtain ⟨r, hr, hb, hs⟩ := isMapped_iff.1 hx
    by_cases hbound : x + 1 < addressBound
    · rw [hm.byte?_of_mem hr hb hs hbound, hM.byte?_of_mem (h r hr) hb hs hbound]
    · rw [byte?_eq_none_of_end (by omega), byte?_eq_none_of_end (by omega)]

theorem trans {N : AddressSpace} (h : Embeds m M) (h' : Embeds M N) : Embeds m N := by
  refine ⟨h.inner, h'.outer, List.Subset.trans h.layout h'.layout, fun x hx => ?_⟩
  rw [h'.byte? x, h.byte? x hx]
  obtain ⟨r, hr, hrange⟩ := isMapped_iff.1 hx
  obtain ⟨s, hs, hshape⟩ := h.exists_region hr
  have hstop := Region.stop_of_shape hshape
  have hbase := (Region.shape_eq_iff.1 hshape).1
  exact isMapped_iff.2 ⟨s, hs, by omega⟩

/-! ## Operations -/

theorem load (h : Embeds m M) {width : Nat} {value : Word} (hload : m.load a width = .ok value) :
    M.load a width = .ok value := by
  obtain ⟨hwidth, hread, rfl⟩ := h.inner.load_ok hload
  rw [h.outer.load_of_readable hwidth (h.readable hread), wordAt, wordAt, h.bytesAt hread]

theorem load_error (h : Embeds m M) {width : Nat} {e : MachineError}
    (hload : m.load a width = .error e) : M.load a width = .error e ∨ ForeignFault m M e := by
  by_cases hwidth : isScalarWidth width = true
  · by_cases hread : m.Readable a width
    · rw [h.inner.load_of_readable hwidth hread] at hload
      contradiction
    · rw [load_of_not_readable hwidth hread] at hload
      injection hload with he
      subst he
      by_cases hread' : M.Readable a width
      · rcases h.readable_or_foreign hread' with hread' | hforeign
        · exact absurd hread' hread
        · exact Or.inr ⟨a, width, .read, rfl, hforeign⟩
      · exact Or.inl (load_of_not_readable hwidth hread')
  · rw [AddressSpace.load, if_neg hwidth] at hload ⊢
    exact Or.inl hload

theorem store (h : Embeds m M) {width : Nat} {value : Word}
    (hstore : m.store a width value = .ok m') :
    ∃ M', M.store a width value = .ok M' ∧ Embeds m' M' ∧ m'.layout = m.layout ∧
      Beside m M M' := by
  obtain ⟨hwidth, hinner⟩ := h.inner.store_ok hstore
  have hw := h.writable hinner.writable
  rw [length_littleEndian] at hw
  obtain ⟨M', hstore', houter⟩ := h.outer.store_of_writable hwidth hw value
  obtain ⟨hembeds, hbeside⟩ := h.written hinner houter
  exact ⟨M', hstore', hembeds, hinner.layout, hbeside⟩

theorem store_error (h : Embeds m M) {width : Nat} {value : Word} {e : MachineError}
    (hstore : m.store a width value = .error e) :
    M.store a width value = .error e ∨ ForeignFault m M e := by
  by_cases hwidth : isScalarWidth width = true
  · by_cases hw : m.Writable a width
    · obtain ⟨_, hok, _⟩ := h.inner.store_of_writable hwidth hw value
      rw [hok] at hstore
      contradiction
    · rw [store_of_not_writable hwidth hw] at hstore
      injection hstore with he
      subst he
      by_cases hw' : M.Writable a width
      · rcases writable_or_foreign m hw' with hw' | hforeign
        · exact absurd hw' hw
        · exact Or.inr ⟨a, width, .write, rfl, hforeign⟩
      · exact Or.inl (store_of_not_writable hwidth hw' value)
  · rw [AddressSpace.store, if_neg hwidth] at hstore ⊢
    exact Or.inl hstore

/-- Clearing a range and storing something at its start. -/
theorem clear (h : Embeds m M) {first : List UInt8} (hfirst : 0 < first.length)
    (hn : first.length ≤ n) (hclear : (m.fill a n 0).bind (·.write a first) = .ok m') :
    ∃ M', (M.fill a n 0).bind (·.write a first) = .ok M' ∧ Embeds m' M' ∧
      m'.layout = m.layout ∧ Beside m M M' := by
  have hw : m.Writable a n := by
    cases hfill : m.fill a n 0 with
    | ok cleared => exact writable_of_change hfill
    | error e =>
      rw [hfill] at hclear
      contradiction
  obtain ⟨m'', hinner_ok, hinner⟩ := h.inner.clear_of_writable first hfirst hn hw
  obtain ⟨M', houter_ok, houter⟩ := h.outer.clear_of_writable first hfirst hn (h.writable hw)
  obtain rfl : m'' = m' := by
    rw [hclear] at hinner_ok
    exact (Except.ok.inj hinner_ok).symm
  obtain ⟨hembeds, hbeside⟩ := h.written hinner houter
  exact ⟨M', houter_ok, hembeds, hinner.layout, hbeside⟩

theorem clear_error (h : Embeds m M) {first : List UInt8} (hfirst : 0 < first.length)
    (hn : first.length ≤ n) {e : MachineError}
    (hclear : (m.fill a n 0).bind (·.write a first) = .error e) :
    (M.fill a n 0).bind (·.write a first) = .error e ∨ ForeignFault m M e := by
  by_cases hw : m.Writable a n
  · obtain ⟨_, hok, _⟩ := h.inner.clear_of_writable first hfirst hn hw
    rw [hok] at hclear
    contradiction
  · rw [fill_of_not_writable hw] at hclear
    injection hclear with he
    subst he
    by_cases hw' : M.Writable a n
    · rcases writable_or_foreign m hw' with hw' | hforeign
      · exact absurd hw' hw
      · exact Or.inr ⟨a, n, .write, rfl, hforeign⟩
    · rw [fill_of_not_writable hw']
      exact Or.inl rfl

/-- A region beside the inner memory can be unmapped. -/
theorem unmap (h : Embeds m M) {r : Region} (hr : r ∈ M.regions) (hbound : r.stop < addressBound)
    (hapart : ∀ x, r.base ≤ x → x < r.stop → m.isMapped x = false) :
    ∃ M', M.unmap r.base = .ok M' ∧ Embeds m M' ∧
      (∀ s, s ∈ M'.regions ↔ s ∈ M.regions ∧ s.base ≠ r.base) ∧
      ∀ x, r.base ≤ x → x < r.stop → M'.isMapped x = false := by
  have hlt := h.outer.base_lt_stop hr
  have hb : r.base + 1 < addressBound := by omega
  obtain ⟨M', hunmap, hregions⟩ := h.outer.unmap_region hr hb
  have hother (s : Region) (hs : s ∈ M.regions) {x : Nat} (hx : m.isMapped x = true)
      (hrange : s.base ≤ x ∧ x < s.stop) : s.base ≠ r.base := by
    intro hbase
    obtain rfl := h.outer.base_unique hr hs hb hbase
    rw [hapart x hrange.1 hrange.2] at hx
    contradiction
  have hM' := h.outer.unmap hunmap
  refine ⟨M', hunmap, ⟨h.inner, hM', fun shape hshape => ?_, fun x hx => ?_⟩, hregions,
    fun x hx hx' => ?_⟩
  · obtain ⟨t, ht, rfl⟩ := List.mem_map.1 hshape
    obtain ⟨s, hs, hshape'⟩ := h.exists_region ht
    have hstop := Region.stop_of_shape hshape'
    have hbase := (Region.shape_eq_iff.1 hshape').1
    have hlt' := h.inner.base_lt_stop ht
    have hne := hother s hs (isMapped_iff.2 ⟨t, ht, Nat.le_refl _, hlt'⟩) (by omega)
    exact hshape' ▸ List.mem_map_of_mem ((hregions s).2 ⟨hs, hne⟩)
  · rw [← h.byte? x hx]
    refine h.outer.byte?_congr hM' fun s hb hs => ?_
    rw [hregions]
    exact ⟨fun hs => hs.1, fun hmem => ⟨hmem, hother s hmem hx ⟨hb, hs⟩⟩⟩
  · rw [isMapped_eq_false_iff]
    intro s hs hrange
    rw [hregions] at hs
    have hsr := h.outer.region_unique hs.1 hr (by omega) hrange ⟨hx, hx'⟩
    exact hs.2 (by rw [hsr])

end Embeds

end AddressSpace

end AccessTrace
