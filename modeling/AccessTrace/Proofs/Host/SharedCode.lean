import AccessTrace.Host.FlushRoutine
import AccessTrace.Proofs.Code.Encoding

/-!
# Hosts

Shared code stands in its own area, each piece at a distance from the next, whatever has been
installed and taken away. The flush routine that is built for a registered routine is a host call
and a jump back.
-/

namespace AccessTrace

namespace Host

variable {δ ω : Type} {h h' : Host δ ω}

/-- Each piece of shared code has a place of its own in the area for it. -/
structure Spaced (h : Host δ ω) : Prop where
  above : ∀ code ∈ h.shared, sharedCodeBase ≤ code.address ∧ code.fragment.base = code.address
  spaced : h.shared.Pairwise fun x y => x.address + sharedCodeSpan ≤ y.address

theorem spaced_create (hasCounterTest : Bool) (memoryLimit : Option Nat) (stepLimit : Nat)
    (allocator : Allocator) :
    (create hasCounterTest memoryLimit stepLimit allocator : Host δ ω).Spaced :=
  ⟨nofun, List.Pairwise.nil⟩

theorem Spaced.registerField (hh : h.Spaced) : h.registerField.2.Spaced :=
  ⟨hh.above, hh.spaced⟩

theorem Spaced.registerRoutine (hh : h.Spaced) (routine : Routine δ ω) :
    (h.registerRoutine routine).2.Spaced :=
  ⟨hh.above, hh.spaced⟩

/-- The next piece of shared code stands behind all that are installed. -/
theorem Spaced.le_nextSharedAddress (hh : h.Spaced) : sharedCodeBase ≤ h.nextSharedAddress ∧
    ∀ code ∈ h.shared, code.address + sharedCodeSpan ≤ h.nextSharedAddress := by
  unfold nextSharedAddress
  cases hlast : h.shared.getLast? with
  | none =>
    rw [List.getLast?_eq_none_iff] at hlast
    exact ⟨Nat.le_refl _, by simp [hlast]⟩
  | some last =>
    obtain ⟨before, hsplit⟩ := List.getLast?_eq_some_iff.1 hlast
    have hbase := (hh.above last (by simp [hsplit])).1
    have hspaced := hh.spaced
    rw [hsplit, List.pairwise_append] at hspaced
    change sharedCodeBase ≤ last.address + sharedCodeSpan ∧
      ∀ code ∈ h.shared, code.address + sharedCodeSpan ≤ last.address + sharedCodeSpan
    refine ⟨by omega, fun code hcode => ?_⟩
    rw [hsplit] at hcode
    rcases List.mem_append.1 hcode with hcode | hcode
    · have hle := hspaced.2.2 code hcode last (by simp)
      omega
    · obtain rfl := List.mem_singleton.1 hcode
      exact Nat.le_refl _

theorem install_ok {image : CodeImage} {address : Nat} (hok : h.install image = .ok (address, h')) :
    ∃ is, Injected.decode image.bytes = .ok is ∧ address = h.nextSharedAddress ∧
      h' = { h with shared := h.shared ++
        [⟨address, image.sealUp, ⟨address, (is.map Node.injected).toArray⟩⟩] } := by
  unfold install at hok
  cases hdecode : Injected.decode image.bytes with
  | error e =>
    rw [hdecode] at hok
    contradiction
  | ok is =>
    rw [hdecode] at hok
    injection hok with hok
    injection hok with haddress hhost
    exact ⟨is, rfl, haddress.symm, by rw [← hhost, haddress]⟩

/-- Code at the next address keeps its distance. -/
theorem Spaced.append (hh : h.Spaced) {code : SharedCode}
    (haddress : code.address = h.nextSharedAddress) (hbase : code.fragment.base = code.address) :
    ({ h with shared := h.shared ++ [code] } : Host δ ω).Spaced := by
  obtain ⟨harea, hbehind⟩ := hh.le_nextSharedAddress
  constructor
  · intro x hx
    rcases List.mem_append.1 hx with hx | hx
    · exact hh.above x hx
    · rw [List.mem_singleton.1 hx, haddress]
      exact ⟨harea, hbase.trans haddress⟩
  · refine List.pairwise_append.2 ⟨hh.spaced, List.pairwise_singleton _ _, fun x hx y hy => ?_⟩
    rw [List.mem_singleton.1 hy, haddress]
    exact hbehind x hx

theorem Spaced.install (hh : h.Spaced) {image : CodeImage} {address : Nat}
    (hok : h.install image = .ok (address, h')) : h'.Spaced := by
  obtain ⟨is, _, haddress, rfl⟩ := install_ok hok
  exact hh.append haddress rfl

theorem Spaced.uninstall (hh : h.Spaced) {address : Nat} (hok : h.uninstall address = .ok h') :
    h'.Spaced := by
  unfold Host.uninstall at hok
  split at hok
  · injection hok with hok
    subst hok
    exact ⟨fun code hcode => hh.above code (List.mem_of_mem_eraseP hcode),
      hh.spaced.sublist List.eraseP_sublist⟩
  · contradiction

/-- Two pieces of shared code are one, or apart. -/
theorem Spaced.apart (hh : h.Spaced) {x y : SharedCode} (hx : x ∈ h.shared) (hy : y ∈ h.shared) :
    x = y ∨ x.address + sharedCodeSpan ≤ y.address ∨ y.address + sharedCodeSpan ≤ x.address :=
  List.Pairwise.forall_of_forall_of_flip (R := fun x y : SharedCode => x = y ∨
      x.address + sharedCodeSpan ≤ y.address ∨ y.address + sharedCodeSpan ≤ x.address)
    (fun _ _ => Or.inl rfl) (hh.spaced.imp fun h => Or.inr (Or.inl h))
    (hh.spaced.imp fun h => Or.inr (Or.inr h)) hx hy

/-- A spaced host that has a number left for one more routine, and an address for its code. -/
structure Sound (h : Host δ ω) : Prop extends Spaced h where
  number : h.routines.size < 2 ^ 32
  address : h.nextSharedAddress < addressBound

theorem sound_create (hasCounterTest : Bool) (memoryLimit : Option Nat) (stepLimit : Nat)
    (allocator : Allocator) :
    (create hasCounterTest memoryLimit stepLimit allocator : Host δ ω).Sound :=
  ⟨spaced_create hasCounterTest memoryLimit stepLimit allocator, show 0 < 2 ^ 32 by decide,
    show sharedCodeBase < addressBound by decide⟩

end Host

namespace FlushRoutine

variable {δ ω : Type} {h h' : Host δ ω} {flush : RoutineId} {routine : FlushRoutine}

/-- The image has room for the routine. -/
theorem buildImage_ok (flush : RoutineId) :
    ∃ image, buildImage flush = .ok image ∧ Injected.encodeAll (body flush) = .ok image.bytes ∧
      image.bytes.length = 7 := by
  let bytes := 0x10 :: (littleEndian 4 flush.number.toNat ++
    [0x20, UInt8.ofNat resumeRegister.index])
  have hencode : Injected.encodeAll (body flush) = .ok bytes := rfl
  have hcapacity : CodeImage.withCapacity imageCapacity = .ok ⟨4096, [], false⟩ := rfl
  have hwrite : (⟨4096, [], false⟩ : CodeImage).write bytes = .ok ⟨4096, bytes, false⟩ := by
    simp [CodeImage.write, bytes]
  refine ⟨⟨4096, bytes, false⟩, ?_, hencode, by simp [bytes]⟩
  unfold buildImage
  rw [hencode, hcapacity]
  exact hwrite

/-- The installed routine is the last piece of shared code. -/
theorem install_ok (hok : install h flush = .ok (routine, h')) :
    ∃ image : CodeImage, routine = ⟨h.nextSharedAddress, max image.bytes.length 1⟩ ∧
      h' = { h with shared := h.shared ++ [⟨routine.address, image,
        ⟨routine.address, ((body flush).map Node.injected).toArray⟩⟩] } := by
  obtain ⟨image, hbuild, hencode, hlength⟩ := buildImage_ok flush
  unfold install at hok
  rw [hbuild] at hok
  change (h.install image >>= fun placed =>
    pure ((⟨placed.1, image.bytes.length⟩ : FlushRoutine), placed.2)) = _ at hok
  cases hinstall : h.install image with
  | error e =>
    rw [hinstall] at hok
    contradiction
  | ok placed =>
    obtain ⟨address, h₁⟩ := placed
    obtain ⟨is, hdecode, haddress, hhost⟩ := Host.install_ok hinstall
    rw [Injected.decode_eq_ok_iff.2 hencode] at hdecode
    injection hdecode with his
    rw [hinstall] at hok
    injection hok with hok
    injection hok with hroutine hh
    refine ⟨image.sealUp, ?_, ?_⟩
    · rw [← hroutine, haddress]
      change _ = (⟨h.nextSharedAddress, max image.bytes.length 1⟩ : FlushRoutine)
      rw [hlength]
      rfl
    · rw [← hh, hhost, ← hroutine, ← his]

end FlushRoutine

end AccessTrace
