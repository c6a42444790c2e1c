import AccessTrace.Proofs.Memory.Runs
import Mathlib.Algebra.BigOperators.Fin
import Mathlib.Tactic.Ring

/-!
# Memory as a byte map

What a program that only reads and writes can tell of an address space: which accesses succeed, and
what a read gives after a write, whatever ranges the two are about. Regions may stand side by side,
so a range can be mapped as a whole and still be refused; it has to lie in one of them.
-/

namespace AccessTrace

namespace Region

/-- The region may be read and has bytes in all of the range. An image that is empty takes an
address, but has no byte there. -/
def Offers (r : Region) (a n : Nat) : Prop :=
  r.permissions.read = true ∧ r.base ≤ a ∧ a + n ≤ r.stop ∧
    ∀ image, r.backing = .image image → a + n ≤ r.base + image.bytes.length

/-- The region holds the range, may be written to and has storage of its own. -/
def Accepts (r : Region) (a n : Nat) : Prop :=
  r.permissions.write = true ∧ r.isOwned = true ∧ r.base ≤ a ∧ a + n ≤ r.stop

instance (r : Region) (a n : Nat) : Decidable (r.Accepts a n) :=
  inferInstanceAs (Decidable (_ ∧ _))

/-- A region has bytes in a range if it has the last one. -/
theorem offers_iff {r : Region} {a n : Nat} (hn : 0 < n) :
    r.Offers a n ↔ r.permissions.read = true ∧ r.base ≤ a ∧ a + n ≤ r.stop ∧
      ∀ i < n, (r.byteAt? (a - r.base + i)).isSome := by
  apply and_congr_right'
  apply and_congr_right
  intro hbase
  apply and_congr_right'
  cases hb : r.backing with
  | owned storage => simp [byteAt?, hb]
  | image image =>
    simp only [Backing.image.injEq, forall_eq', byteAt?, hb, isSome_getElem?]
    constructor
    · intro h i hi
      omega
    · intro h
      have hlast := h (n - 1) (by omega)
      omega

theorem permitted_of_read? {r : Region} {a n : Nat} {bytes : List UInt8}
    (h : r.read? a n = some bytes) : r.permissions.read = true := by
  by_contra hp
  simp [read?, hp] at h

end Region

/-- What was read from `b` on, with `bytes` put over it from `a` on. -/
def overlay (a : Nat) (bytes : List UInt8) (b : Nat) (old : List UInt8) : List UInt8 :=
  old.mapIdx fun i byte => if a ≤ b + i then (bytes[b + i - a]?).getD byte else byte

theorem overlay_nothing (a b : Nat) (old : List UInt8) : overlay a [] b old = old := by
  apply List.ext_getElem?
  intro i
  simp [overlay]

namespace AddressSpace

variable {m m' : AddressSpace} {a b n k : Nat} {bytes old : List UInt8}

/-! ## Which accesses succeed -/

theorem readable_iff (hrange : ∀ r ∈ m.regions, r.stop < addressBound) (hn : 0 < n) :
    m.Readable a n ↔ ∃ r ∈ m.regions, r.Offers a n := by
  apply exists_congr
  intro r
  apply and_congr_right
  intro hr
  have hstop := hrange r hr
  rw [Region.offers_iff hn]
  constructor
  · rintro ⟨⟨hb, hs, _⟩, hp, hbytes⟩
    exact ⟨hp, hb, hs, hbytes⟩
  · rintro ⟨hp, hb, hs, hbytes⟩
    exact ⟨⟨hb, hs, by omega⟩, hp, hbytes⟩

theorem writable_iff (hrange : ∀ r ∈ m.regions, r.stop < addressBound) :
    m.Writable a n ↔ ∃ r ∈ m.regions, r.Accepts a n := by
  apply exists_congr
  intro r
  apply and_congr_right
  intro hr
  have hstop := hrange r hr
  constructor
  · rintro ⟨⟨hb, hs, _⟩, hp, howned⟩
    exact ⟨hp, howned, hb, hs⟩
  · rintro ⟨hp, howned, hb, hs⟩
    exact ⟨⟨hb, hs, by omega⟩, hp, howned⟩

theorem WellFormed.read_succeeds_iff (hm : m.WellFormed) (hn : 0 < n) :
    (∃ bytes, m.read a n = .ok bytes) ↔ m.Readable a n :=
  ⟨fun ⟨_, h⟩ => readable_of_read hn h, fun h => ⟨_, hm.read_of_readable hn h⟩⟩

theorem WellFormed.write_succeeds_iff (hm : m.WellFormed) (hn : 0 < bytes.length) :
    (∃ m', m.write a bytes = .ok m') ↔ m.Writable a bytes.length := by
  constructor
  · rintro ⟨m', h⟩
    exact writable_of_change h
  · intro hw
    obtain ⟨m', h, _⟩ := hm.write_of_writable hn hw
    exact ⟨m', h⟩

theorem WellFormed.fill_succeeds_iff (hm : m.WellFormed) (hn : 0 < n) {byte : UInt8} :
    (∃ m', m.fill a n byte = .ok m') ↔ m.Writable a n := by
  constructor
  · rintro ⟨m', h⟩
    exact writable_of_change h
  · intro hw
    obtain ⟨m', h, _⟩ := hm.fill_of_writable hn hw byte
    exact ⟨m', h⟩

/-! ## Reads in parts -/

/-- A read is made of reads of one byte. -/
theorem WellFormed.read_byte (hm : m.WellFormed) (h : m.read a n = .ok bytes) {i : Nat}
    (hi : i < n) : ∃ byte, m.read (a + i) 1 = .ok [byte] ∧ bytes[i]? = some byte := by
  have hreadable := readable_of_read (by omega) h
  rw [hm.read_of_readable (by omega) hreadable] at h
  obtain rfl := Except.ok.inj h
  refine ⟨(m.byte? (a + i)).getD 0, ?_, by simp [bytesAt, hi]⟩
  exact hm.read_of_readable Nat.one_pos (hreadable.slice (by omega))

/-- What the bytes of a range spell, from what each of them is loaded as. -/
theorem ofLittleEndian_bytesAt (m : AddressSpace) (a n : Nat) :
    ofLittleEndian (m.bytesAt a n) = ∑ i : Fin n, (m.wordAt (a + i) 1).toNat * 256 ^ (i : Nat) := by
  have hbyte (x : Nat) : (m.wordAt x 1).toNat = ((m.byte? x).getD 0).toNat := by
    have hlt := ((m.byte? x).getD 0).toNat_lt
    show (UInt64.ofNat (((m.byte? x).getD 0).toNat + 256 * 0)).toNat = _
    rw [UInt64.toNat_ofNat', Nat.mul_zero, Nat.add_zero, Nat.mod_eq_of_lt (by omega)]
  induction n generalizing a with
  | zero => rfl
  | succ n ih =>
    have hsplit : m.bytesAt a (n + 1) = (m.byte? a).getD 0 :: m.bytesAt (a + 1) n := by
      rw [Nat.add_comm, bytesAt_append]
      rfl
    rw [hsplit, ofLittleEndian, ih, Fin.sum_univ_succ, Finset.mul_sum, ← hbyte a]
    congr 1
    · simp
    · refine Finset.sum_congr rfl fun i _ => ?_
      rw [Fin.val_succ, Nat.pow_succ, show a + 1 + (i : Nat) = a + (i + 1) by omega]
      ring

/-- A load of a full word is the sum of the loads of its bytes, each at its place. -/
theorem WellFormed.load_eight (hm : m.WellFormed) {value : Word} (h : m.load a 8 = .ok value) :
    ∃ bytes : Fin 8 → Word, (∀ i : Fin 8, m.load (a + i) 1 = .ok (bytes i)) ∧
      value.toNat = ∑ i, (bytes i).toNat * 256 ^ (i : Nat) := by
  obtain ⟨_, hreadable, rfl⟩ := hm.load_ok h
  refine ⟨fun i => m.wordAt (a + i) 1, fun i => ?_, ?_⟩
  · exact hm.load_of_readable rfl (hreadable.slice (by omega))
  · have hlt := ofLittleEndian_lt (m.bytesAt a 8)
    rw [length_bytesAt] at hlt
    rw [← ofLittleEndian_bytesAt, wordAt, UInt64.toNat_ofNat', Nat.mod_eq_of_lt (by omega)]

/-! ## Reads after changes -/

theorem Written.bytesAt_overlay (h : Written m a bytes m') (b k : Nat) :
    m'.bytesAt b k = overlay a bytes b (m.bytesAt b k) := by
  apply List.ext_getElem
  · simp [overlay]
  · intro i _ _
    simp only [overlay, bytesAt, List.getElem_mapIdx, List.getElem_map, List.getElem_range,
      h.byte? (b + i)]
    by_cases ha : a ≤ b + i
    · by_cases hn : b + i < a + bytes.length
      · rw [if_pos ⟨ha, hn⟩, if_pos ha, List.getElem?_eq_getElem (by omega)]
        rfl
      · rw [if_neg (by omega), if_pos ha, List.getElem?_eq_none (by omega)]
        rfl
    · rw [if_neg (by omega), if_neg ha]

/-- What is looked for stays where it is, or it is what was replaced. -/
theorem find?_replaced {front back : List Region} {r region s : Region} {p : Region → Bool}
    (h : (front ++ r :: back).find? p = some s) (hp : p region = p r) :
    (front ++ region :: back).find? p = some s ∨
      (s = r ∧ (front ++ region :: back).find? p = some region) := by
  rw [List.find?_append, List.find?_cons] at h ⊢
  cases hfront : front.find? p with
  | some t =>
    rw [hfront] at h
    exact Or.inl h
  | none =>
    rw [hfront, Option.none_or] at h
    rw [Option.none_or, hp]
    cases hr : p r with
    | true =>
      rw [hr] at h
      exact Or.inr ⟨(Option.some.inj h).symm, rfl⟩
    | false =>
      rw [hr] at h
      exact Or.inl h

/-- A read of no bytes finds its region where it was, and only the storage of one region is new. -/
theorem WellFormed.read_nothing_change (hm : m.WellFormed) {f : Nat → Storage → Storage}
    (h : m.change a n f = .ok m') (hread : m.read b 0 = .ok old) :
    old = [] ∧ m'.read b 0 = .ok [] := by
  obtain ⟨r, storage, hr, _, _, rfl⟩ := change_ok h
  obtain ⟨_, _, front, back, hregions, hfront⟩ := regionAt?_split (hm.regionAt?_of_locate? hr)
  let region : Region := { r with backing := .owned (f (a - r.base) storage) }
  have hcovers : region.covers b 0 = r.covers b 0 := rfl
  have hreplaced : replaceAt r.base region m.regions = front ++ region :: back := by
    rw [hregions, replaceAt_append hfront rfl]
  show old = [] ∧ read { m with regions := replaceAt r.base region m.regions } b 0 = .ok []
  rw [hreplaced]
  simp only [read, locate?, hregions] at hread ⊢
  split at hread
  · rename_i found hfound
    obtain ⟨s, hs, hbytes⟩ := Option.bind_eq_some_iff.1 hfound
    obtain ⟨hbound, hs⟩ := Option.ite_none_right_eq_some.1 hs
    obtain rfl := Region.eq_nil_of_read?_nothing hbytes
    refine ⟨(Except.ok.inj hread).symm, ?_⟩
    rw [if_pos hbound]
    rcases find?_replaced hs hcovers with h | ⟨rfl, h⟩
    · rw [h, Option.bind_some, hbytes]
    · have hp : region.permissions.read = true := by
        show s.permissions.read = true
        exact Region.permitted_of_read? hbytes
      rw [h, Option.bind_some, Region.read?_nothing_of_owned hp rfl]
  · contradiction

/-- A read after a change of bytes gives the new ones over the old ones. -/
theorem WellFormed.read_change (hm : m.WellFormed) {f : Nat → Storage → Storage}
    (h : m.change a n f = .ok m') (hwritten : Written m a bytes m')
    (hread : m.read b k = .ok old) : m'.read b k = .ok (overlay a bytes b old) := by
  by_cases hk : 0 < k
  · have hreadable := readable_of_read hk hread
    rw [hm.read_of_readable hk hreadable] at hread
    obtain rfl := Except.ok.inj hread
    rw [← hwritten.bytesAt_overlay]
    apply hwritten.wellFormed.read_of_readable hk
    exact hwritten.readable hm hreadable
  · obtain rfl : k = 0 := by omega
    obtain ⟨rfl, hread'⟩ := hm.read_nothing_change h hread
    exact hread'

theorem WellFormed.read_write (hm : m.WellFormed) (h : m.write a bytes = .ok m')
    (hread : m.read b k = .ok old) : m'.read b k = .ok (overlay a bytes b old) := by
  by_cases hn : 0 < bytes.length
  · exact hm.read_change h (hm.write_ok hn h) hread
  · obtain rfl : bytes = [] := List.length_eq_zero_iff.1 (by omega)
    rw [overlay_nothing, write_nothing hm h]
    exact hread

theorem WellFormed.read_fill (hm : m.WellFormed) {byte : UInt8} (h : m.fill a n byte = .ok m')
    (hread : m.read b k = .ok old) :
    m'.read b k = .ok (overlay a (List.replicate n byte) b old) := by
  by_cases hn : 0 < n
  · exact hm.read_change h (hm.fill_ok hn h) hread
  · obtain rfl : n = 0 := by omega
    rw [List.replicate_zero, overlay_nothing, fill_nothing hm h]
    exact hread

/-- A load of what was just stored gives as many of its low bytes as the width says. -/
theorem WellFormed.load_store (hm : m.WellFormed) {width : Nat} {value : Word}
    (h : m.store a width value = .ok m') (hread : ∃ r ∈ m.regions, r.permissions.read = true ∧
      r.base ≤ a ∧ a + width ≤ r.stop) :
    m'.load a width = .ok (UInt64.ofNat (value.toNat % 2 ^ (8 * width))) := by
  obtain ⟨hwidth, hwritten⟩ := hm.store_ok h
  have hpos := isScalarWidth_pos hwidth
  have hw := hwritten.writable
  have hbytes := hwritten.bytesAt_self
  rw [length_littleEndian] at hw hbytes
  obtain ⟨s, hs, ⟨hsb, hss, hsa⟩, _, howned⟩ := hw
  obtain ⟨r, hr, hp, hb, hstop⟩ := hread
  -- The region that may be read is the one that was written to, so it has storage.
  obtain rfl : r = s :=
    hm.region_unique hr hs (a := a) (by omega) ⟨hb, by omega⟩ ⟨hsb, by omega⟩
  have hreadable : m.Readable a width :=
    ⟨r, hr, ⟨hb, hstop, hsa⟩, hp, fun _ _ => r.isSome_byteAt? howned _⟩
  rw [hwritten.wellFormed.load_of_readable hwidth (hwritten.readable hm hreadable), wordAt, hbytes,
    ofLittleEndian_littleEndian, Nat.pow_mul]

/-! ## The laws of a byte map -/

/-- Which accesses to an address space succeed, and what reads give after changes. -/
structure IsByteMap (m : AddressSpace) : Prop where
  /-- A read has to lie in one region, and in the bytes of its image if it has one. -/
  read_iff : ∀ a n, 0 < n → ((∃ bytes, m.read a n = .ok bytes) ↔ ∃ r ∈ m.regions, r.Offers a n)
  /-- So does a write, in a region with storage of its own. -/
  write_iff : ∀ a bytes, bytes ≠ [] →
    ((∃ m', m.write a bytes = .ok m') ↔ ∃ r ∈ m.regions, r.Accepts a bytes.length)
  fill_iff : ∀ a n byte, 0 < n →
    ((∃ m', m.fill a n byte = .ok m') ↔ ∃ r ∈ m.regions, r.Accepts a n)
  /-- What could be read before a write can be read after it, with the data over it. -/
  read_write : ∀ a bytes m' b k old, m.write a bytes = .ok m' → m.read b k = .ok old →
    m'.read b k = .ok (overlay a bytes b old)
  read_fill : ∀ a n byte m' b k old, m.fill a n byte = .ok m' → m.read b k = .ok old →
    m'.read b k = .ok (overlay a (List.replicate n byte) b old)
  /-- A read gives what reads of single bytes give. -/
  read_byte : ∀ a n bytes, m.read a n = .ok bytes →
    ∀ i < n, ∃ byte, m.read (a + i) 1 = .ok [byte] ∧ bytes[i]? = some byte
  load_store : ∀ a width value m', m.store a width value = .ok m' →
    (∃ r ∈ m.regions, r.permissions.read = true ∧ r.base ≤ a ∧ a + width ≤ r.stop) →
    m'.load a width = .ok (UInt64.ofNat (value.toNat % 2 ^ (8 * width)))
  /-- A word is spelled by its bytes, the lowest first. -/
  load_eight : ∀ a value, m.load a 8 = .ok value →
    ∃ bytes : Fin 8 → Word, (∀ i : Fin 8, m.load (a + i) 1 = .ok (bytes i)) ∧
      value.toNat = ∑ i, (bytes i).toNat * 256 ^ (i : Nat)

/-- Whatever operations built it, an address space is a byte map. -/
theorem Reachable.isByteMap (h : m.Reachable) (hrange : ∀ r ∈ m.regions, r.stop < addressBound) :
    m.IsByteMap := by
  have hm := h.wellFormed
  constructor
  case read_iff =>
    intro a n hn
    rw [hm.read_succeeds_iff hn, readable_iff hrange hn]
  case write_iff =>
    intro a bytes hbytes
    rw [hm.write_succeeds_iff (List.length_pos_of_ne_nil hbytes), writable_iff hrange]
  case fill_iff =>
    intro a n byte hn
    rw [hm.fill_succeeds_iff hn, writable_iff hrange]
  case read_write => exact fun _ _ _ _ _ _ => hm.read_write
  case read_fill => exact fun _ _ _ _ _ _ _ => hm.read_fill
  case read_byte => exact fun _ _ _ hread _ => hm.read_byte hread
  case load_store => exact fun _ _ _ _ => hm.load_store
  case load_eight => exact fun _ _ => hm.load_eight

end AddressSpace

namespace Sample

/-- Two ordinary regions side by side, the second of them read-only in the end, below them an image
of two bytes. -/
def layered : AddressSpace :=
  MemoryOperation.run
    [.map 0x1000 16 .readWrite, .map 0x1010 4 .readWrite, .fill 0x1010 4 7,
      .mapImage 0x800 ⟨pageSize, [0x90, 0xf4], true⟩, .protect 0x1010 ⟨true, false, false⟩]
    (.withLimit none)

/-- A write up to the end of the first region goes through, and shows in reads that it meets. -/
theorem byteMap_layered :
    (layered.Reachable ∧ ∀ r ∈ layered.regions, r.stop < addressBound) ∧ layered.IsByteMap ∧
      ∃ m', layered.write 0x100d [1, 2, 3] = .ok m' ∧
        m'.read 0x100c 3 = .ok [0, 1, 2] ∧ m'.read 0x1010 4 = .ok [7, 7, 7, 7] ∧
        m'.read 0x800 2 = .ok [0x90, 0xf4] := by
  have hreachable : layered.Reachable := MemoryOperation.reachable_run (.withLimit ..) _
  have hrange : ∀ r ∈ layered.regions, r.stop < addressBound := by decide +kernel
  have hmap := hreachable.isByteMap hrange
  have haccepts : ∃ r ∈ layered.regions, r.Accepts 0x100d 3 := by decide +kernel
  obtain ⟨m', hm'⟩ := (hmap.write_iff 0x100d [1, 2, 3] (by decide)).2 haccepts
  have hread (b k : Nat) (old : List UInt8) (h : layered.read b k = .ok old) :=
    hmap.read_write 0x100d [1, 2, 3] m' b k old hm' h
  refine ⟨⟨hreachable, hrange⟩, hmap, m', hm', ?_, ?_, ?_⟩
  · rw [hread 0x100c 3 [0, 0, 0] (by decide +kernel)]
    decide +kernel
  · rw [hread 0x1010 4 [7, 7, 7, 7] (by decide +kernel)]
    decide +kernel
  · rw [hread 0x800 2 [0x90, 0xf4] (by decide +kernel)]
    decide +kernel

end Sample

end AccessTrace
