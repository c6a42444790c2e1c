import AccessTrace.Memory.AddressSpace
import Mathlib.Algebra.GroupWithZero.Nat
import Mathlib.Data.List.Pairwise

/-!
# Well-formed address spaces

The regions of an address space stand in the order of their bases and do not meet, as far as an
access can tell: no access reaches the last address, so what lies there is left open. Every
region has at least one address, and storage for all of them or an image. Under this invariant
an access finds the one region that holds its whole range, and a change to that region leaves all
other regions as they were.
-/

namespace AccessTrace

namespace Region

/-- `r` may stand before `s` in an address space. -/
def Before (r s : Region) : Prop :=
  r.base ≤ s.base ∧ (r.stop ≤ s.base ∨ addressBound ≤ s.base + 1)

/-- What the region says of its length fits what it is backed by. -/
def Sound (r : Region) : Prop :=
  0 < r.length ∧
    match r.backing with
    | .owned storage => storage.size = r.length
    | .image image => r.length = max image.bytes.length 1

/-- The region in the place of every region that starts at `base`. -/
def swap (base : Nat) (region r : Region) : Region :=
  if r.base = base then region else r

theorem swap_self (base : Nat) (region r : Region) (h : r.base = base) :
    swap base region r = region := if_pos h

theorem swap_other (base : Nat) (region r : Region) (h : r.base ≠ base) :
    swap base region r = r := if_neg h

theorem covers_iff (r : Region) (a n : Nat) :
    r.covers a n = true ↔ r.base ≤ a ∧ a + n ≤ r.stop := by
  simp [covers]

end Region

namespace AddressSpace

variable {m : AddressSpace} {r s : Region} {a n : Nat}

/-- The invariant that every operation on an address space keeps. -/
structure WellFormed (m : AddressSpace) : Prop where
  ordered : m.regions.Pairwise Region.Before
  sound : ∀ r ∈ m.regions, r.Sound

theorem wellFormed_withLimit (limit : Option Nat) (allocator : Allocator) :
    (withLimit limit allocator).WellFormed :=
  ⟨List.Pairwise.nil, by simp [withLimit]⟩

/-- Two regions that hold the first byte of an access are one region. -/
theorem WellFormed.region_unique (hm : m.WellFormed) (hr : r ∈ m.regions) (hs : s ∈ m.regions)
    (ha : a + 1 < addressBound) (hra : r.base ≤ a ∧ a < r.stop) (hsa : s.base ≤ a ∧ a < s.stop) :
    r = s := by
  by_contra hne
  have hapart : m.regions.Pairwise fun r s => r.Before s ∨ s.Before r :=
    hm.ordered.imp Or.inl
  have : Std.Symm fun r s : Region => r.Before s ∨ s.Before r := ⟨fun _ _ => Or.symm⟩
  rcases hapart.forall hr hs hne with h | h <;> rcases h with ⟨_, h | h⟩ <;> omega

theorem WellFormed.base_lt_stop (hm : m.WellFormed) (hr : r ∈ m.regions) : r.base < r.stop := by
  have h := (hm.sound r hr).1
  unfold Region.stop
  omega

/-- A region that an access can reach is the only one with its base. -/
theorem WellFormed.base_unique (hm : m.WellFormed) (hr : r ∈ m.regions) (hs : s ∈ m.regions)
    (hb : r.base + 1 < addressBound) (h : s.base = r.base) : s = r := by
  have h₁ := hm.base_lt_stop hr
  have h₂ := hm.base_lt_stop hs
  exact hm.region_unique hs hr (a := r.base) hb ⟨by omega, by omega⟩ ⟨by omega, by omega⟩

theorem locate?_spec (h : m.locate? a n = some r) :
    r ∈ m.regions ∧ r.base ≤ a ∧ a + n ≤ r.stop ∧ a + n < addressBound := by
  unfold locate? at h
  split at h
  · rename_i hb
    have hc := List.find?_some h
    rw [Region.covers_iff] at hc
    exact ⟨List.mem_of_find?_eq_some h, hc.1, hc.2, hb⟩
  · contradiction

/-- A range of at least one byte is located in the region that holds it. -/
theorem WellFormed.locate?_eq_some (hm : m.WellFormed) (hn : 0 < n) (hr : r ∈ m.regions)
    (hba : r.base ≤ a) (has : a + n ≤ r.stop) (hb : a + n < addressBound) :
    m.locate? a n = some r := by
  have hfound : ∃ s, m.regions.find? (·.covers a n) = some s := by
    rw [← Option.isSome_iff_exists, List.find?_isSome]
    exact ⟨r, hr, (r.covers_iff a n).2 ⟨hba, has⟩⟩
  obtain ⟨s, hs⟩ := hfound
  have hsm := List.mem_of_find?_eq_some hs
  have hsc := List.find?_some hs
  rw [Region.covers_iff] at hsc
  have he : s = r := hm.region_unique hsm hr (a := a) (by omega) ⟨by omega, by omega⟩
    ⟨by omega, by omega⟩
  rw [locate?, if_pos hb, hs, he]

/-! ## Replacing a region -/

/-- The first region with a base that an access can reach is the only one, so replacing it is
replacing every region with that base. -/
theorem replaceAt_eq_map {l : List Region} (hl : l.Pairwise Region.Before)
    (hpos : ∀ r ∈ l, r.base < r.stop) {base : Nat} (hb : base + 1 < addressBound)
    (region : Region) : replaceAt base region l = l.map (Region.swap base region) := by
  induction l with
  | nil => rfl
  | cons head tail ih =>
    have hp := hpos head (by simp)
    rw [List.pairwise_cons] at hl
    rw [replaceAt, List.map_cons]
    by_cases h : head.base = base
    · have htail : tail.map (Region.swap base region) = tail := by
        refine (List.map_congr_left fun s hs => ?_).trans tail.map_id
        apply Region.swap_other
        rcases (hl.1 s hs).2 with h' | h' <;> omega
      rw [if_pos h, Region.swap_self _ _ _ h, htail]
    · rw [if_neg h, Region.swap_other _ _ _ h, ih hl.2 fun r hr => hpos r (by simp [hr])]

theorem WellFormed.replaceAt_eq_map (hm : m.WellFormed) {base : Nat} (hb : base + 1 < addressBound)
    (region : Region) : replaceAt base region m.regions = m.regions.map (Region.swap base region) :=
  AddressSpace.replaceAt_eq_map hm.ordered (fun _ hr => hm.base_lt_stop hr) hb region

/-- A region other than the replaced one stays, and nothing but the replacement is new. -/
theorem mem_map_swap {l : List Region} {base : Nat} {region : Region}
    (hx : ∃ s ∈ l, s.base = base) :
    r ∈ l.map (Region.swap base region) ↔ r = region ∨ (r ∈ l ∧ r.base ≠ base) := by
  rw [List.mem_map]
  constructor
  · rintro ⟨s, hs, rfl⟩
    by_cases h : s.base = base
    · exact Or.inl (Region.swap_self _ _ _ h)
    · rw [Region.swap_other _ _ _ h]
      exact Or.inr ⟨hs, h⟩
  · rintro (rfl | ⟨hr, h⟩)
    · obtain ⟨s, hs, h⟩ := hx
      exact ⟨s, hs, Region.swap_self _ _ _ h⟩
    · exact ⟨r, hr, Region.swap_other _ _ _ h⟩

theorem replaceAt_append {front back : List Region} {base : Nat}
    (hfront : ∀ s ∈ front, s.base ≠ base) (hr : r.base = base) (region : Region) :
    replaceAt base region (front ++ r :: back) = front ++ region :: back := by
  induction front with
  | nil => exact if_pos hr
  | cons head front ih =>
    have hrest := ih fun s hs => hfront s (List.mem_cons_of_mem _ hs)
    rw [List.cons_append, replaceAt, if_neg (hfront head (List.mem_cons_self ..)), hrest]
    rfl

/-- A replacement with the same range keeps the invariant. -/
theorem WellFormed.replace_first (hm : m.WellFormed) {base : Nat}
    (hfirst : m.regionAt? base = some r) (region : Region) (hbase : region.base = r.base)
    (hlength : region.length = r.length) (hsound : region.Sound) :
    ({ m with regions := replaceAt base region m.regions } : AddressSpace).WellFormed := by
  obtain ⟨hr, front, back, hregions, hfront⟩ := List.find?_eq_some_iff_append.1 hfirst
  have hreplaced : replaceAt base region m.regions = front ++ region :: back := by
    rw [hregions]
    exact replaceAt_append (fun s hs => by simpa using hfront s hs) (by simpa using hr) region
  have hordered := hm.ordered
  have hstop : region.stop = r.stop := by unfold Region.stop; rw [hbase, hlength]
  have hbefore (s : Region) : (s.Before region ↔ s.Before r) ∧ (region.Before s ↔ r.Before s) := by
    unfold Region.Before
    rw [hbase, hstop]
    exact ⟨Iff.rfl, Iff.rfl⟩
  rw [hregions, List.pairwise_append, List.pairwise_cons] at hordered
  obtain ⟨hfirsts, ⟨hback, hbacks⟩, hacross⟩ := hordered
  constructor
  · change (replaceAt base region m.regions).Pairwise Region.Before
    rw [hreplaced, List.pairwise_append, List.pairwise_cons]
    refine ⟨hfirsts, ⟨fun s hs => (hbefore s).2.2 (hback s hs), hbacks⟩, fun s hs t ht => ?_⟩
    rcases List.mem_cons.1 ht with rfl | ht
    · exact (hbefore s).1.2 (hacross s hs r (List.mem_cons_self ..))
    · exact hacross s hs t (List.mem_cons_of_mem _ ht)
  · intro s hs
    change s ∈ replaceAt base region m.regions at hs
    rw [hreplaced, List.mem_append, List.mem_cons] at hs
    have hold (t : Region) (ht : t ∈ front ∨ t ∈ back) : t.Sound := by
      refine hm.sound t ?_
      rw [hregions, List.mem_append, List.mem_cons]
      exact ht.imp_right Or.inr
    rcases hs with hs | rfl | hs
    · exact hold s (Or.inl hs)
    · exact hsound
    · exact hold s (Or.inr hs)

theorem WellFormed.regionAt?_base (hm : m.WellFormed) (hr : r ∈ m.regions)
    (hb : r.base + 1 < addressBound) : m.regionAt? r.base = some r := by
  have hfound : (m.regionAt? r.base).isSome := by
    rw [regionAt?, List.find?_isSome]
    exact ⟨r, hr, by simp⟩
  obtain ⟨s, hs⟩ := Option.isSome_iff_exists.1 hfound
  rw [hs, hm.base_unique hr (List.mem_of_find?_eq_some hs) hb (by simpa using List.find?_some hs)]

/-! ## Adding and removing regions -/

theorem mem_insertSorted {region : Region} {l : List Region} :
    r ∈ insertSorted region l ↔ r = region ∨ r ∈ l := by
  induction l with
  | nil => simp [insertSorted]
  | cons head tail ih =>
    rw [insertSorted]
    split
    · rw [List.mem_cons, ih, List.mem_cons]
      exact or_left_comm
    · simp

/-- A region that meets none of a list takes its place in it. -/
theorem pairwise_insertSorted {region : Region} {l : List Region} (hl : l.Pairwise Region.Before)
    (hpos : ∀ r ∈ l, r.base < r.stop)
    (happart : ∀ r ∈ l, r.stop ≤ region.base ∨ min region.stop (addressBound - 1) ≤ r.base) :
    (insertSorted region l).Pairwise Region.Before := by
  induction l with
  | nil => exact List.pairwise_singleton _ _
  | cons head tail ih =>
    rw [List.pairwise_cons] at hl
    have hp := hpos head (by simp)
    have ha := happart head (by simp)
    rw [insertSorted]
    split
    · rename_i h
      have htail := ih hl.2 (fun r hr => hpos r (by simp [hr])) fun r hr => happart r (by simp [hr])
      refine List.pairwise_cons.2 ⟨fun s hs => ?_, htail⟩
      rcases mem_insertSorted.1 hs with rfl | hs
      · unfold Region.Before
        unfold Region.stop at ha ⊢
        omega
      · exact hl.1 s hs
    · rename_i h
      have hsorted : ∀ s ∈ head :: tail, region.base ≤ s.base := by
        intro s hs
        rcases List.mem_cons.1 hs with rfl | hs
        · omega
        · have hb := (hl.1 s hs).1
          omega
      refine List.pairwise_cons.2 ⟨fun s hs => ?_, List.pairwise_cons.2 hl⟩
      have hs' := hsorted s hs
      have hsp := hpos s hs
      have hsa := happart s hs
      unfold Region.Before
      omega

theorem not_overlaps {base length : Nat} (hfree : m.overlaps base length = false)
    (hr : r ∈ m.regions) : r.stop ≤ base ∨ min (base + length) (addressBound - 1) ≤ r.base := by
  simp only [overlaps, List.any_eq_false, Bool.and_eq_true, decide_eq_true_eq] at hfree
  have h := hfree r hr
  omega

/-- Mapping a region where none is keeps the invariant. -/
theorem WellFormed.insert (hm : m.WellFormed) (region : Region) (hsound : region.Sound)
    (hfree : m.overlaps region.base region.length = false) (next owned : Nat) :
    ({ m with
      regions := insertSorted region m.regions
      nextAllocation := next
      ownedBytes := owned } : AddressSpace).WellFormed := by
  constructor
  · refine pairwise_insertSorted hm.ordered (fun _ hr => hm.base_lt_stop hr) fun s hs => ?_
    exact not_overlaps hfree hs
  · intro s hs
    rcases mem_insertSorted.1 hs with rfl | hs
    · exact hsound
    · exact hm.sound s hs

/-- Any of the regions may be taken away. -/
theorem WellFormed.sublist (hm : m.WellFormed) {m' : AddressSpace}
    (h : m'.regions.Sublist m.regions) : m'.WellFormed :=
  ⟨hm.ordered.sublist h, fun r hr => hm.sound r (h.subset hr)⟩

/-! ## Operations on regions -/

theorem map_ok {base length : Nat} {permissions : Permissions} {m' : AddressSpace}
    (h : m.map base length permissions = .ok m') :
    0 < length ∧ m.overlaps base length = false ∧ m.hasRoom length = true ∧
      m' = { m with
        regions := insertSorted ⟨base, length, permissions, .owned (.zeroed length)⟩ m.regions
        ownedBytes := m.ownedBytes + length } := by
  unfold map at h
  split at h
  · contradiction
  · rename_i hc
    split at h
    · contradiction
    · rename_i hroom
      rw [not_or] at hc
      refine ⟨by omega, by simpa using hc.2, by simpa using hroom, ?_⟩
      exact (Except.ok.inj h).symm

theorem exists_map_iff {base length : Nat} {permissions : Permissions} :
    (∃ m', m.map base length permissions = .ok m') ↔
      0 < length ∧ m.overlaps base length = false ∧ m.hasRoom length = true := by
  constructor
  · rintro ⟨m', h⟩
    obtain ⟨hlength, hfree, hroom, _⟩ := map_ok h
    exact ⟨hlength, hfree, hroom⟩
  · rintro ⟨hlength, hfree, hroom⟩
    have hallowed : ¬ (length = 0 ∨ m.overlaps base length = true) := by
      simp [hfree, Nat.ne_of_gt hlength]
    unfold map
    rw [if_neg hallowed, hroom]
    exact ⟨_, rfl⟩

/-- An allocation is a mapping at the place for the next one, which moves behind it. -/
theorem allocate_ok {base length : Nat} {permissions : Permissions} {m' : AddressSpace}
    (h : m.allocate length permissions = .ok (base, m')) : base = m.nextAllocation ∧
      ∃ mapped, m.map base length permissions = .ok mapped ∧
        m' = { mapped with nextAllocation := base + roundUpToPage length + pageSize } := by
  unfold AddressSpace.allocate at h
  dsimp only at h
  cases hmap : m.map m.nextAllocation length permissions with
  | error e =>
    rw [hmap] at h
    contradiction
  | ok mapped =>
    rw [hmap] at h
    obtain ⟨rfl, rfl⟩ := Prod.mk.inj (Except.ok.inj h)
    exact ⟨rfl, mapped, hmap, rfl⟩

theorem WellFormed.map (hm : m.WellFormed) {base length : Nat} {permissions : Permissions}
    {m' : AddressSpace} (h : m.map base length permissions = .ok m') : m'.WellFormed := by
  obtain ⟨hl, hfree, _, rfl⟩ := map_ok h
  exact hm.insert ⟨base, length, permissions, .owned (.zeroed length)⟩ ⟨hl, rfl⟩ hfree _ _

theorem mapImage_ok {base : Nat} {image : CodeImage} {m' : AddressSpace}
    (h : m.mapImage base image = .ok m') :
    m.overlaps base (max image.bytes.length 1) = false ∧
      m' = { m with
        regions := insertSorted
          ⟨base, max image.bytes.length 1, .readExecute, .image image⟩ m.regions } := by
  simp only [mapImage] at h
  split at h
  · contradiction
  · split at h
    · contradiction
    · rename_i hfree
      exact ⟨by simpa using hfree, (Except.ok.inj h).symm⟩

theorem WellFormed.mapImage (hm : m.WellFormed) {base : Nat} {image : CodeImage}
    {m' : AddressSpace} (h : m.mapImage base image = .ok m') : m'.WellFormed := by
  obtain ⟨hfree, rfl⟩ := mapImage_ok h
  refine hm.insert ⟨base, _, .readExecute, .image image⟩ ⟨?_, rfl⟩ hfree _ _
  exact Nat.lt_of_lt_of_le Nat.one_pos (Nat.le_max_right _ _)

theorem unmap_ok {base : Nat} {m' : AddressSpace} (h : m.unmap base = .ok m') :
    (∃ r ∈ m.regions, r.base = base) ∧
      m'.regions = m.regions.eraseP (fun r => r.base == base) := by
  unfold unmap at h
  split at h
  · contradiction
  · rename_i r hr
    obtain rfl := (Except.ok.inj h).symm
    refine ⟨⟨r, List.mem_of_find?_eq_some hr, ?_⟩, rfl⟩
    have := List.find?_some hr
    simpa using this

theorem WellFormed.unmap (hm : m.WellFormed) {base : Nat} {m' : AddressSpace}
    (h : m.unmap base = .ok m') : m'.WellFormed := by
  refine hm.sublist ?_
  rw [(unmap_ok h).2]
  exact List.eraseP_sublist

/-- A mapped region can be unmapped, and all others stay. -/
theorem WellFormed.unmap_region (hm : m.WellFormed) (hr : r ∈ m.regions)
    (hb : r.base + 1 < addressBound) :
    ∃ m', m.unmap r.base = .ok m' ∧ ∀ s, s ∈ m'.regions ↔ s ∈ m.regions ∧ s.base ≠ r.base := by
  have hunmap : m.unmap r.base = .ok { m with
      regions := m.regions.eraseP fun t => t.base == r.base
      ownedBytes := m.ownedBytes - r.ownedBytes } := by
    rw [AddressSpace.unmap, hm.regionAt?_base hr hb]
  refine ⟨_, hunmap, fun t => ?_⟩
  change t ∈ m.regions.eraseP (fun t => t.base == r.base) ↔ _
  constructor
  · intro ht
    refine ⟨List.mem_of_mem_eraseP ht, fun hbase => ?_⟩
    -- A second region with that base would have to be the first one again.
    obtain ⟨x, l₁, l₂, hl₁, hx, hregions, hrest⟩ := List.exists_of_eraseP hr
      (p := fun t => t.base == r.base) (beq_self_eq_true _)
    rw [hrest] at ht
    have hx' : x ∈ m.regions := by simp [hregions]
    have htm : t ∈ m.regions := by
      rw [hregions]
      rcases List.mem_append.1 ht with ht | ht <;> simp [ht]
    have hxt : t = x := (hm.base_unique hr htm hb hbase).trans
      (hm.base_unique hr hx' hb (by simpa using hx)).symm
    rcases List.mem_append.1 ht with ht | ht
    · exact absurd (by simpa using hbase) (hl₁ t ht)
    · have hordered := hm.ordered
      rw [hregions, List.pairwise_append] at hordered
      have hbefore := (List.pairwise_cons.1 hordered.2.1).1 t ht
      have hlt := hm.base_lt_stop htm
      rw [hxt] at hbefore hlt hbase
      unfold Region.Before at hbefore
      omega
  · rintro ⟨ht, hbase⟩
    exact (List.mem_eraseP_of_neg (by simpa using hbase)).2 ht

end AddressSpace

end AccessTrace
