import AccessTrace.Proofs.Memory.Operations

/-!
# The accounts of an address space

An operation that succeeds adds a region, takes one away, or puts one in the place of another with
the same range and storage. From this follows what an address space knows about itself: how much
storage its regions own, that they own no more than the limit, and where the next allocation goes,
which is always at a page behind all allocations from before.
-/

namespace AccessTrace

namespace AddressSpace

variable {m m' : AddressSpace} {r region : Region} {base length : Nat}

/-! ## Owned storage -/

/-- How much storage some regions have for themselves. -/
def ownedIn (regions : List Region) : Nat :=
  (regions.map Region.ownedBytes).sum

theorem ownedIn_append (xs ys : List Region) : ownedIn (xs ++ ys) = ownedIn xs + ownedIn ys := by
  simp [ownedIn]

theorem ownedIn_cons (r : Region) (rest : List Region) :
    ownedIn (r :: rest) = r.ownedBytes + ownedIn rest := by
  simp [ownedIn]

theorem ownedIn_insertSorted (region : Region) (regions : List Region) :
    ownedIn (insertSorted region regions) = region.ownedBytes + ownedIn regions := by
  induction regions with
  | nil => exact ownedIn_cons region []
  | cons head tail ih =>
    rw [insertSorted]
    split
    · rw [ownedIn_cons, ih, ownedIn_cons]
      omega
    · exact ownedIn_cons region _

/-- Sound regions own as much storage as they are long, if they have storage of their own. -/
theorem ownedIn_eq_sum {regions : List Region} (h : ∀ r ∈ regions, r.Sound) :
    ownedIn regions = ((regions.filter Region.isOwned).map Region.length).sum := by
  induction regions with
  | nil => rfl
  | cons r rest ih =>
    have hrest := ih fun s hs => h s (List.mem_cons_of_mem _ hs)
    have hr := (h r List.mem_cons_self).2
    rw [ownedIn_cons, hrest, List.filter_cons]
    cases hb : r.backing with
    | owned storage =>
      rw [hb] at hr
      have howned : r.isOwned = true := by simp [Region.isOwned, hb]
      rw [if_pos howned, List.map_cons, List.sum_cons, ← hr]
      simp [Region.ownedBytes, hb]
    | image image =>
      have howned : ¬ r.isOwned = true := by simp [Region.isOwned, hb]
      rw [if_neg howned]
      simp [Region.ownedBytes, hb]

/-! ## What an operation can do -/

/-- Where the next allocation can go after an operation: where it went, or behind an allocation. -/
def Advances (next next' : Nat) : Prop :=
  next' = next ∨ ∃ length, next' = next + roundUpToPage length + pageSize

/-- What an operation that succeeds makes of an address space. -/
inductive Changed (m : AddressSpace) : AddressSpace → Prop where
  | add (region : Region) (next : Nat)
    (hroom : region.ownedBytes = 0 ∨ m.hasRoom region.ownedBytes = true)
    (hnext : Advances m.nextAllocation next) :
    Changed m { m with
      regions := insertSorted region m.regions
      nextAllocation := next
      ownedBytes := m.ownedBytes + region.ownedBytes }
  | remove (front back : List Region) (r : Region) (hregions : m.regions = front ++ r :: back) :
    Changed m { m with regions := front ++ back, ownedBytes := m.ownedBytes - r.ownedBytes }
  | replace (front back : List Region) (r region : Region)
    (hregions : m.regions = front ++ r :: back) (howned : region.ownedBytes = r.ownedBytes) :
    Changed m { m with regions := front ++ region :: back }

theorem changed_map {permissions : Permissions} (h : m.map base length permissions = .ok m') :
    Changed m m' := by
  obtain ⟨_, _, hroom, rfl⟩ := map_ok h
  exact .add ⟨base, length, permissions, .owned (.zeroed length)⟩ _ (Or.inr hroom) (Or.inl rfl)

theorem changed_allocate {permissions : Permissions}
    (h : m.allocate length permissions = .ok (base, m')) : Changed m m' := by
  obtain ⟨rfl, mapped, hmap, rfl⟩ := allocate_ok h
  obtain ⟨_, _, hroom, rfl⟩ := map_ok hmap
  exact .add ⟨m.nextAllocation, length, permissions, .owned (.zeroed length)⟩ _ (Or.inr hroom)
    (Or.inr ⟨length, rfl⟩)

theorem changed_mapImage {image : CodeImage} (h : m.mapImage base image = .ok m') :
    Changed m m' := by
  obtain ⟨_, rfl⟩ := mapImage_ok h
  exact .add ⟨base, max image.bytes.length 1, .readExecute, .image image⟩ _ (Or.inl rfl)
    (Or.inl rfl)

theorem changed_unmap (h : m.unmap base = .ok m') : Changed m m' := by
  unfold unmap at h
  split at h
  · contradiction
  · rename_i r hr
    obtain rfl := (Except.ok.inj h).symm
    obtain ⟨_, hbase, front, back, hregions, hfront⟩ := regionAt?_split hr
    have herased : m.regions.eraseP (fun t => t.base == base) = front ++ back := by
      rw [hregions, List.eraseP_append_right _ (by simpa using hfront),
        List.eraseP_cons_of_pos (by simpa using hbase)]
    rw [herased]
    exact .remove front back r hregions

/-- What replaces the first region with a base is put into its place. -/
theorem changed_replace (hfirst : m.regionAt? base = some r)
    (howned : region.ownedBytes = r.ownedBytes) :
    Changed m { m with regions := replaceAt base region m.regions } := by
  obtain ⟨_, hbase, front, back, hregions, hfront⟩ := regionAt?_split hfirst
  rw [hregions, replaceAt_append hfront hbase]
  exact .replace front back r region hregions howned

theorem changed_protect {permissions : Permissions} (h : m.protect base permissions = .ok m') :
    Changed m m' := by
  unfold protect at h
  split at h
  · contradiction
  · rename_i r hr
    obtain rfl := (Except.ok.inj h).symm
    exact changed_replace hr rfl

theorem WellFormed.changed_change (hm : m.WellFormed) {a n : Nat} {f : Nat → Storage → Storage}
    (hsize : ∀ start storage, (f start storage).size = storage.size)
    (h : m.change a n f = .ok m') : Changed m m' := by
  obtain ⟨r, storage, hr, _, hb, rfl⟩ := change_ok h
  refine changed_replace (hm.regionAt?_of_locate? hr) ?_
  simp only [Region.ownedBytes, hb, hsize]

theorem WellFormed.changed_write (hm : m.WellFormed) {a : Nat} {bytes : List UInt8}
    (h : m.write a bytes = .ok m') : Changed m m' :=
  hm.changed_change (fun _ _ => Storage.size_write _ _ _) h

theorem WellFormed.changed_fill (hm : m.WellFormed) {a n : Nat} {byte : UInt8}
    (h : m.fill a n byte = .ok m') : Changed m m' :=
  hm.changed_change (fun _ _ => Storage.size_fill _ _ _ _) h

/-- Every operation that succeeds adds, takes away or replaces one region. -/
theorem WellFormed.changed_apply (hm : m.WellFormed) {op : MemoryOperation}
    (h : op.apply m = .ok m') : Changed m m' := by
  cases op with
  | map base length permissions => exact changed_map h
  | allocate length permissions =>
    obtain ⟨base, hallocate⟩ := MemoryOperation.apply_allocate h
    exact changed_allocate hallocate
  | mapImage base image => exact changed_mapImage h
  | unmap base => exact changed_unmap h
  | protect base permissions => exact changed_protect h
  | write address bytes => exact hm.changed_write h
  | fill address length byte => exact hm.changed_fill h
  | store address width value => exact hm.changed_write (write_of_store h).2

/-! ## The accounts -/

/-- The storage that the regions own is what is counted and within the limit, and the next
allocation goes to a page. -/
structure Balanced (m : AddressSpace) : Prop where
  owned : m.ownedBytes = ownedIn m.regions
  limited : ∀ most, m.limit = some most → m.ownedBytes ≤ most
  aligned : pageSize ∣ m.nextAllocation

theorem balanced_withLimit (limit : Option Nat) (allocator : Allocator) :
    (withLimit limit allocator).Balanced :=
  ⟨rfl, fun _ _ => Nat.zero_le _, show pageSize ∣ heapBase by decide⟩

theorem Advances.le {next next' : Nat} (h : Advances next next') : next ≤ next' := by
  rcases h with rfl | ⟨length, rfl⟩
  · exact Nat.le_refl _
  · omega

theorem Advances.dvd {next next' : Nat} (h : Advances next next') (haligned : pageSize ∣ next) :
    pageSize ∣ next' := by
  rcases h with rfl | ⟨length, rfl⟩
  · exact haligned
  · exact Nat.dvd_add (Nat.dvd_add haligned (dvd_roundUpToPage length)) (Nat.dvd_refl pageSize)

theorem Changed.limit (h : Changed m m') : m'.limit = m.limit := by
  cases h <;> rfl

theorem Changed.next_le (h : Changed m m') : m.nextAllocation ≤ m'.nextAllocation := by
  cases h with
  | add region next hroom hnext => exact hnext.le
  | remove => exact Nat.le_refl _
  | replace => exact Nat.le_refl _

theorem Balanced.changed (hm : m.Balanced) (h : Changed m m') : m'.Balanced := by
  have howned := hm.owned
  cases h with
  | add region next hroom hnext =>
    refine ⟨?_, fun most hmost => ?_, hnext.dvd hm.aligned⟩
    · rw [ownedIn_insertSorted, howned, Nat.add_comm]
    · rcases hroom with hnothing | hroom
      · rw [hnothing]
        exact hm.limited most hmost
      · unfold hasRoom at hroom
        rw [show m.limit = some most from hmost] at hroom
        simp only [Option.all_some, Bool.and_eq_true, decide_eq_true_eq] at hroom
        exact hroom.1
  | remove front back r hregions =>
    rw [hregions, ownedIn_append, ownedIn_cons] at howned
    refine ⟨?_, fun most hmost => Nat.le_trans (Nat.sub_le _ _) (hm.limited most hmost),
      hm.aligned⟩
    change m.ownedBytes - r.ownedBytes = ownedIn (front ++ back)
    rw [ownedIn_append, howned]
    omega
  | replace front back r region hregions hsame =>
    rw [hregions, ownedIn_append, ownedIn_cons] at howned
    refine ⟨?_, hm.limited, hm.aligned⟩
    rw [ownedIn_append, ownedIn_cons, hsame]
    exact howned

theorem Reachable.balanced (h : m.Reachable) : m.Balanced := by
  induction h with
  | withLimit limit allocator => exact balanced_withLimit limit allocator
  | map _ h hm => exact hm.changed (changed_map h)
  | allocate _ h hm => exact hm.changed (changed_allocate h)
  | mapImage _ h hm => exact hm.changed (changed_mapImage h)
  | unmap _ h hm => exact hm.changed (changed_unmap h)
  | protect _ h hm => exact hm.changed (changed_protect h)
  | write hreach h hm => exact hm.changed (hreach.wellFormed.changed_write h)
  | fill hreach h hm => exact hm.changed (hreach.wellFormed.changed_fill h)

end AddressSpace

end AccessTrace
