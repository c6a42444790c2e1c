import AccessTrace.Proofs.Host.Preparation
import AccessTrace.Proofs.Host.Serving

/-!
# Shared images side by side

Images are installed at a fixed distance from each other, whatever their length. One that is longer
than that is in the way of those behind it: its bytes so that they cannot be mapped, its nodes so
that these are not found at their addresses. Both happen exactly if another image starts within
the bytes, or on the way from the first node to one of the others.
-/

namespace AccessTrace

namespace AddressSpace

/-- A range meets none of the regions if it meets neither the new one nor the others. -/
theorem overlaps_insertSorted (m : AddressSpace) (r : Region) (base length : Nat) :
    overlaps { m with regions := insertSorted r m.regions } base length = false ↔
      ¬(base < r.stop ∧ r.base < min (base + length) (addressBound - 1)) ∧
        m.overlaps base length = false := by
  simp only [overlaps, List.any_eq_false, mem_insertSorted, Bool.and_eq_true, decide_eq_true_eq]
  exact ⟨fun h => ⟨h r (Or.inl rfl), fun s hs => h s (Or.inr hs)⟩,
    fun h s hs => hs.elim (fun heq => heq ▸ h.1) (h.2 s)⟩

end AddressSpace

namespace Host

variable {δ ω : Type} {h : Host δ ω}

/-- Hosts as registrations, installations and removals leave them; the addresses are words. -/
inductive Built : Host δ ω → Prop where
  | create (hasCounterTest : Bool) (memoryLimit : Option Nat) (stepLimit : Nat)
    (allocator : Allocator) : Built (create hasCounterTest memoryLimit stepLimit allocator)
  | registerField {h : Host δ ω} (hh : Built h) : Built h.registerField.2
  | registerRoutine {h : Host δ ω} (hh : Built h) (routine : Routine δ ω) :
    Built (h.registerRoutine routine).2
  | install {h h' : Host δ ω} {image : CodeImage} {address : Nat} (hh : Built h)
    (hok : h.install image = .ok (address, h')) (hword : address < addressBound) : Built h'
  | uninstall {h h' : Host δ ω} {address : Nat} (hh : Built h)
    (hok : h.uninstall address = .ok h') : Built h'

theorem Built.spaced (hh : h.Built) : h.Spaced := by
  induction hh with
  | create hasCounterTest memoryLimit stepLimit allocator => exact spaced_create ..
  | registerField hh ih => exact ih.registerField
  | registerRoutine hh routine ih => exact ih.registerRoutine routine
  | install hh hok hword ih => exact ih.install hok
  | uninstall hh hok ih => exact ih.uninstall hok

theorem install_of_decode {image : CodeImage} {is : List Injected}
    (hdecode : Injected.decode image.bytes = .ok is) :
    h.install image = .ok (h.nextSharedAddress, { h with shared := h.shared ++
      [⟨h.nextSharedAddress, image.sealUp,
        ⟨h.nextSharedAddress, (is.map Node.injected).toArray⟩⟩] }) := by
  unfold Host.install
  rw [hdecode]
  rfl

theorem mem_of_uninstall {h' : Host δ ω} {address : Nat} (hok : h.uninstall address = .ok h')
    {s : SharedCode} (hs : s ∈ h'.shared) : s ∈ h.shared := by
  unfold Host.uninstall at hok
  split at hok
  · obtain rfl := (Except.ok.inj hok).symm
    exact List.mem_of_mem_eraseP hs
  · contradiction

/-- Whatever is installed is sealed, and holds the instructions that its bytes encode. -/
theorem Built.installed (hh : h.Built) {s : SharedCode} (hs : s ∈ h.shared) :
    s.image.isSealed = true ∧ s.address < addressBound ∧
      ∃ is, Injected.decode s.image.bytes = .ok is ∧
        s.fragment = ⟨s.address, (is.map Node.injected).toArray⟩ := by
  induction hh with
  | create hasCounterTest memoryLimit stepLimit allocator => contradiction
  | registerField hh ih => exact ih hs
  | registerRoutine hh routine ih => exact ih hs
  | install hh hok hword ih =>
    obtain ⟨is, hdecode, _, rfl⟩ := install_ok hok
    rcases List.mem_append.1 hs with hs | hs
    · exact ih hs
    · obtain rfl := List.mem_singleton.1 hs
      exact ⟨rfl, hword, is, hdecode, rfl⟩
  | uninstall hh hok ih => exact ih (mem_of_uninstall hok hs)

/-! ## Mapping -/

theorem mapImage_of_sealed (M : AddressSpace) {s : SharedCode} (hs : s.image.isSealed = true) :
    M.mapImage s.address s.image =
      if M.overlaps s.address s.region.length then .error (.mapping (.imageOverlap s.address))
      else .ok { M with regions := AddressSpace.insertSorted s.region M.regions } := by
  unfold AddressSpace.mapImage
  rw [hs]
  rfl

/-- Images are mapped one after the other, each beside what is mapped already. -/
theorem exists_mapShared_iff {shared : List SharedCode} {M : AddressSpace}
    (hsealed : ∀ s ∈ shared, s.image.isSealed = true) : (∃ M', mapShared M shared = .ok M') ↔
      (∀ s ∈ shared, M.overlaps s.address s.region.length = false) ∧
        shared.Pairwise fun x y =>
          ¬(y.address < x.region.stop ∧ x.address < min y.region.stop (addressBound - 1)) := by
  induction shared generalizing M with
  | nil => exact ⟨fun _ => ⟨nofun, List.Pairwise.nil⟩, fun _ => ⟨M, rfl⟩⟩
  | cons s shared ih =>
    obtain ⟨hs, hshared⟩ := List.forall_mem_cons.1 hsealed
    rw [List.forall_mem_cons, List.pairwise_cons, mapShared, mapImage_of_sealed M hs]
    cases hfree : M.overlaps s.address s.region.length with
    | true =>
      rw [if_pos rfl]
      constructor
      · rintro ⟨M', h⟩
        contradiction
      · rintro ⟨⟨h, -⟩, -⟩
        contradiction
    | false =>
      rw [if_neg Bool.false_ne_true]
      refine (ih hshared).trans ?_
      simp only [AddressSpace.overlaps_insertSorted, true_and]
      constructor
      · rintro ⟨hbeside, hrest⟩
        exact ⟨fun t ht => (hbeside t ht).2, fun t ht => (hbeside t ht).1, hrest⟩
      · rintro ⟨hbeside, hfirst, hrest⟩
        exact ⟨fun t ht => ⟨hfirst t ht, hbeside t ht⟩, hrest⟩

/-- The installed images can be mapped if and only if each ends where the next ones start. -/
theorem Built.exists_mapShared_iff (hh : h.Built) :
    (∃ memory, mapShared (.withLimit h.memoryLimit h.allocator) h.shared = .ok memory) ↔
      h.shared.Pairwise fun x y => x.region.stop ≤ y.address := by
  rw [Host.exists_mapShared_iff fun s hs => (hh.installed hs).1]
  have hspan : 0 < sharedCodeSpan := by decide
  constructor
  · rintro ⟨-, hmeet⟩
    refine (hmeet.and hh.spaced.spaced).imp_of_mem fun {x y} hx hy ⟨hmeet, hxy⟩ => ?_
    have hword := (hh.installed hy).2.1
    have hstop : y.address ≤ y.region.stop := Nat.le_add_right _ _
    by_contra hlt
    exact hmeet ⟨Nat.lt_of_not_le hlt, Nat.lt_min.2 ⟨by omega, by omega⟩⟩
  · intro hends
    refine ⟨fun _ _ => rfl, hends.imp fun hends hmeet => ?_⟩
    omega

/-! ## Finding nodes -/

/-- A node of an installed image is found if and only if no other starts on the way to it. -/
theorem Spaced.lookup_shared_iff (hh : h.Spaced) {x : SharedCode} (hx : x ∈ h.shared) {index : Nat}
    (hindex : index < max x.fragment.nodes.size 1) :
    h.sharedCache.lookup (x.fragment.addressOf index) = some (x.fragment, index) ↔
      ∀ y ∈ h.shared, y.address ≤ x.address ∨ x.fragment.addressOf index < y.address := by
  rw [CodeCache.lookup_addressOf_iff (CodeCache.falling_sharedCache h)
    ((CodeCache.mem_sharedCache hh _).2 ⟨x, hx, rfl⟩) hindex]
  constructor
  · intro hnearest y hy
    have hy' := hnearest y.fragment ((CodeCache.mem_sharedCache hh _).2 ⟨y, hy, rfl⟩)
    rwa [(hh.above y hy).2, (hh.above x hx).2] at hy'
  · intro hnearest g hg
    obtain ⟨y, hy, rfl⟩ := (CodeCache.mem_sharedCache hh g).1 hg
    rw [(hh.above y hy).2, (hh.above x hx).2]
    exact hnearest y hy

/-- Installed images never share an address. They can be mapped together exactly if the bytes of
none reach beyond the start of a later one, and a node is found at its address exactly if no later
image starts on the way to it. -/
theorem Built.shared_collisions (hh : h.Built) :
    (h.shared.Pairwise fun x y => x.address ≠ y.address) ∧
    ((∃ memory, mapShared (.withLimit h.memoryLimit h.allocator) h.shared = .ok memory) ↔
      h.shared.Pairwise fun x y => x.region.stop ≤ y.address) ∧
    ∀ x ∈ h.shared, ∀ index < max x.fragment.nodes.size 1,
      h.sharedCache.lookup (x.fragment.addressOf index) = some (x.fragment, index) ↔
        ∀ y ∈ h.shared, y.address ≤ x.address ∨ x.fragment.addressOf index < y.address := by
  refine ⟨hh.spaced.spaced.imp fun hxy => ?_, hh.exists_mapShared_iff,
    fun x hx index hindex => hh.spaced.lookup_shared_iff hx hindex⟩
  have hspan : 0 < sharedCodeSpan := by decide
  omega

/-- Images that fit into the distance between two of them never collide. -/
theorem Built.apart_of_fits (hh : h.Built) (hfits : ∀ x ∈ h.shared,
      x.image.bytes.length ≤ sharedCodeSpan ∧ x.fragment.span ≤ sharedCodeSpan) :
    (∃ memory, mapShared (.withLimit h.memoryLimit h.allocator) h.shared = .ok memory) ∧
    ∀ x ∈ h.shared, ∀ index < max x.fragment.nodes.size 1,
      h.sharedCache.lookup (x.fragment.addressOf index) = some (x.fragment, index) := by
  have hspan : 0 < sharedCodeSpan := by decide
  constructor
  · refine hh.exists_mapShared_iff.2 (hh.spaced.spaced.imp_of_mem fun {x y} hx _ hxy => ?_)
    have hbytes := (hfits x hx).1
    change x.address + max x.image.bytes.length 1 ≤ y.address
    omega
  · intro x hx index hindex
    refine (hh.spaced.lookup_shared_iff hx hindex).2 fun y hy => ?_
    have hnode := Fragment.addressOf_lt hindex
    have hbase := (hh.spaced.above x hx).2
    have hsize := (hfits x hx).2
    rcases hh.spaced.apart hx hy with rfl | hxy | hyx
    · exact Or.inl (Nat.le_refl _)
    · exact Or.inr (by omega)
    · exact Or.inl (by omega)

end Host

namespace Sample

open Host (Built mapShared)

/-- An image of `n` instructions of two bytes each. -/
def longImage (n : Nat) : CodeImage :=
  ⟨roundUpToPage (max (2 * n) 1), (List.replicate n [0x03, 0x00]).flatten, false⟩

def longCode (n : Nat) : SharedCode :=
  ⟨sharedCodeBase, (longImage n).sealUp,
    ⟨sharedCodeBase, ((List.replicate n (.saveFlags ⟨0⟩)).map Node.injected).toArray⟩⟩

def jumpCode : SharedCode :=
  ⟨sharedCodeBase + sharedCodeSpan, ⟨pageSize, [0x20, 0x00], true⟩,
    ⟨sharedCodeBase + sharedCodeSpan, #[.injected (.jumpIndirect .rax)]⟩⟩

/-- The long image with a short one behind it. -/
def adjoining (n : Nat) : Host Unit Unit :=
  ⟨false, #[], [longCode n, jumpCode], 0, none, 0, .generous⟩

theorem length_longImage (n : Nat) : (longImage n).bytes.length = 2 * n := by
  simp [longImage, Nat.mul_comm]

theorem size_longCode (n : Nat) : (longCode n).fragment.nodes.size = n := by
  simp [longCode]

theorem written_longImage {n : Nat} (hn : roundUpToPage (max (2 * n) 1) < storageBound) :
    (CodeImage.withCapacity (2 * n) >>= fun image =>
      image.write (List.replicate n [0x03, 0x00]).flatten) = .ok (longImage n) := by
  have hlength : (List.replicate n [(0x03 : UInt8), 0x00]).flatten.length = 2 * n :=
    length_longImage n
  have hroom := le_roundUpToPage (max (2 * n) 1)
  simp only [CodeImage.withCapacity, if_pos hn]
  change (⟨_, [], false⟩ : CodeImage).write _ = _
  rw [CodeImage.write, if_neg Bool.false_ne_true]
  simp only [List.length_nil, Nat.zero_add, hlength]
  rw [if_neg (by omega)]
  rfl

theorem encodeAll_saveFlags (n : Nat) : Injected.encodeAll (List.replicate n (.saveFlags ⟨0⟩)) =
    .ok (List.replicate n [0x03, 0x00]).flatten := by
  induction n with
  | zero => rfl
  | succ n ih =>
    rw [List.replicate_succ, Injected.encodeAll_cons, ih]
    rfl

theorem built_adjoining (n : Nat) : (adjoining n).Built := by
  have hdecode : Injected.decode (longImage n).bytes = .ok (List.replicate n (.saveFlags ⟨0⟩)) :=
    Injected.decode_eq_ok_iff.2 (encodeAll_saveFlags n)
  have hlong : Host.install (.create false none 0) (longImage n) =
      .ok (sharedCodeBase, (⟨false, #[], [longCode n], 0, none, 0, .generous⟩ : Host Unit Unit)) :=
    Host.install_of_decode hdecode
  have hjump : Host.install ⟨false, #[], [longCode n], 0, none, 0, .generous⟩
      ⟨pageSize, [0x20, 0x00], false⟩ = .ok (jumpCode.address, adjoining n) := rfl
  exact ((Built.create false none 0 .generous).install hlong (by decide)).install hjump (by decide)

theorem lookup_adjoining (n : Nat) :
    (adjoining n).sharedCache.lookup ((longCode n).fragment.addressOf 4096) =
      some (jumpCode.fragment, 0) := by
  have haddress : (longCode n).fragment.addressOf 4096 = jumpCode.fragment.addressOf 0 :=
    show sharedCodeBase + 4096 * nodeStride = sharedCodeBase + sharedCodeSpan + 0 * nodeStride by
      decide
  have hjump : jumpCode ∈ (adjoining n).shared := List.mem_cons_of_mem _ List.mem_cons_self
  rw [haddress, (built_adjoining n).spaced.lookup_shared_iff hjump (by decide)]
  intro y hy
  rcases List.mem_cons.1 hy with rfl | hy
  · exact Or.inl (show sharedCodeBase ≤ sharedCodeBase + sharedCodeSpan by decide)
  · rw [List.mem_singleton.1 hy]
    exact Or.inl (Nat.le_refl _)

theorem fits_of_mapShared {n : Nat} {memory : AddressSpace}
    (hok : mapShared (.withLimit (adjoining n).memoryLimit) (adjoining n).shared = .ok memory) :
    2 * n ≤ sharedCodeSpan := by
  have hends := (built_adjoining n).exists_mapShared_iff.1 ⟨memory, hok⟩
  have hstop : sharedCodeBase + max (longImage n).bytes.length 1 ≤
      sharedCodeBase + sharedCodeSpan :=
    (List.pairwise_cons.1 hends).1 jumpCode List.mem_cons_self
  rw [length_longImage] at hstop
  omega

/-- An image that can be written and installed is too long in both ways: a node of it is taken for
the start of the next image, and that image cannot be mapped. -/
theorem images_collide :
    (CodeImage.withCapacity (2 * 32769) >>= fun image =>
      image.write (List.replicate 32769 [0x03, 0x00]).flatten) = .ok (longImage 32769) ∧
    (adjoining 32769).Built ∧ (longCode 32769).fragment.nodes.size = 32769 ∧
    (adjoining 32769).sharedCache.lookup ((longCode 32769).fragment.addressOf 4096) =
      some (jumpCode.fragment, 0) ∧
    ∀ memory, mapShared (.withLimit (adjoining 32769).memoryLimit) (adjoining 32769).shared ≠
      .ok memory := by
  refine ⟨written_longImage (n := 32769) (by decide), built_adjoining _, size_longCode _,
    lookup_adjoining _, fun memory hok => ?_⟩
  exact absurd (fits_of_mapShared hok) (by decide)

/-- Images with room to spare are mapped side by side. -/
theorem images_side_by_side : (adjoining 3).Built ∧
    ∃ memory, mapShared (.withLimit (adjoining 3).memoryLimit) (adjoining 3).shared = .ok memory := by
  refine ⟨built_adjoining 3, (built_adjoining 3).shared_collisions.2.1.2 (List.pairwise_pair.2 ?_)⟩
  change sharedCodeBase + max (longImage 3).bytes.length 1 ≤ sharedCodeBase + sharedCodeSpan
  rw [length_longImage]
  decide

end Sample

end AccessTrace
