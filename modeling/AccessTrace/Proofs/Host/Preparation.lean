import AccessTrace.Host.Run
import AccessTrace.Proofs.Host.SharedCode
import AccessTrace.Proofs.Memory.Embedding

/-!
# Prepared threads

The memory of a thread that is ready to start has the images of the shared code and the zeroed
regions of the program, and nothing else. So the memory that a program gets from one host is
embedded in the memory that it gets from another with more shared code.
-/

namespace AccessTrace

open AddressSpace (Embeds)

/-- The region of a mapped image. -/
def SharedCode.region (s : SharedCode) : Region :=
  ⟨s.address, max s.image.bytes.length 1, .readExecute, .image s.image⟩

/-- The region of a program as it is at the start. -/
def Program.zeroed (d : Word × Nat) : Region :=
  ⟨d.1.toNat, d.2, .readWrite, .owned (.zeroed d.2)⟩

namespace Host

variable {δ ω : Type} {h : Host δ ω} {M M' : AddressSpace} {id : ThreadId} {p : Program}
  {t : Thread δ}

/-- What mapping some regions adds to a memory. -/
structure Mapped (M : AddressSpace) (new : List Region) (M' : AddressSpace) : Prop where
  wellFormed : M'.WellFormed
  nextAllocation : M'.nextAllocation = M.nextAllocation
  regions : ∀ r, r ∈ M'.regions ↔ r ∈ new ∨ r ∈ M.regions

theorem Mapped.trans {M'' : AddressSpace} {new new' : List Region} (h : Mapped M new M')
    (h' : Mapped M' new' M'') : Mapped M (new ++ new') M'' := by
  refine ⟨h'.wellFormed, h'.nextAllocation.trans h.nextAllocation, fun r => ?_⟩
  rw [h'.regions, h.regions, List.mem_append, or_assoc, or_left_comm]

theorem mapShared_ok {shared : List SharedCode} (hM : M.WellFormed)
    (h : mapShared M shared = .ok M') : Mapped M (shared.map (·.region)) M' := by
  induction shared generalizing M with
  | nil =>
    cases h
    exact ⟨hM, rfl, by simp⟩
  | cons s shared ih =>
    rw [mapShared] at h
    cases hmap : M.mapImage s.address s.image with
    | error e =>
      rw [hmap] at h
      contradiction
    | ok M₁ =>
      rw [hmap] at h
      obtain ⟨_, hM₁⟩ := AddressSpace.mapImage_ok hmap
      have hfirst : Mapped M [s.region] M₁ := by
        refine ⟨hM.mapImage hmap, by rw [hM₁], fun r => ?_⟩
        rw [hM₁, List.mem_singleton]
        exact AddressSpace.mem_insertSorted
      exact hfirst.trans (ih (hM.mapImage hmap) h)

theorem mapRegions_ok {regions : List (Word × Nat)} (hM : M.WellFormed)
    (h : mapRegions M regions = .ok M') : Mapped M (regions.map Program.zeroed) M' := by
  induction regions generalizing M with
  | nil =>
    cases h
    exact ⟨hM, rfl, by simp⟩
  | cons d regions ih =>
    obtain ⟨base, length⟩ := d
    rw [mapRegions] at h
    cases hmap : M.map base.toNat length .readWrite with
    | error e =>
      rw [hmap] at h
      contradiction
    | ok M₁ =>
      rw [hmap] at h
      obtain ⟨_, _, _, hM₁⟩ := AddressSpace.map_ok hmap
      have hfirst : Mapped M [Program.zeroed (base, length)] M₁ := by
        refine ⟨hM.map hmap, by rw [hM₁], fun r => ?_⟩
        rw [hM₁, List.mem_singleton]
        exact AddressSpace.mem_insertSorted
      exact hfirst.trans (ih (hM.map hmap) h)

/-- The registers at the start. -/
def startMachine (p : Program) : MachineState :=
  p.registers.foldl (fun m r => m.set r.1 r.2) .initial

theorem foldl_setRegister (registers : List (Register × Word)) (t : Thread δ) :
    registers.foldl (fun t r => t.setRegister r.1 r.2) t =
      { t with guest := ⟨registers.foldl (fun m r => m.set r.1 r.2) t.guest.machine,
        t.guest.memory⟩ } := by
  induction registers generalizing t with
  | nil => rfl
  | cons r registers ih =>
    rw [List.foldl_cons, ih]
    rfl

theorem prepare_ok (hok : h.prepare id p = .ok t) :
    t.id = id ∧ t.fields = #[] ∧ t.guest.machine = startMachine p ∧
      t.guest.memory.WellFormed ∧ t.guest.memory.nextAllocation = heapBase ∧
      ∀ r, r ∈ t.guest.memory.regions ↔
        (∃ s ∈ h.shared, r = s.region) ∨ ∃ d ∈ p.regions, r = Program.zeroed d := by
  unfold prepare at hok
  cases hshared : mapShared (.withLimit h.memoryLimit h.allocator) h.shared with
  | error e =>
    rw [hshared] at hok
    contradiction
  | ok M₁ =>
    rw [hshared] at hok
    change (mapRegions M₁ p.regions >>= fun memory => pure (p.registers.foldl
      (fun t r => t.setRegister r.1 r.2) (Thread.create id memory : Thread δ))) = _ at hok
    cases hregions : mapRegions M₁ p.regions with
    | error e =>
      rw [hregions] at hok
      contradiction
    | ok M₂ =>
      rw [hregions] at hok
      obtain rfl := (Except.ok.inj hok).symm
      have h₁ := mapShared_ok (AddressSpace.wellFormed_withLimit ..) hshared
      have h₂ := h₁.trans (mapRegions_ok h₁.wellFormed hregions)
      rw [foldl_setRegister]
      refine ⟨rfl, rfl, rfl, h₂.wellFormed, h₂.nextAllocation, fun r => ?_⟩
      refine (h₂.regions r).trans ?_
      simp only [List.mem_append, List.mem_map, AddressSpace.withLimit, List.not_mem_nil, or_false,
        eq_comm]

theorem exists_bind_iff {ε α β : Type} {x : Except ε α} {f : α → Except ε β} :
    (∃ b, (x >>= f) = .ok b) ↔ ∃ a, x = .ok a ∧ ∃ b, f a = .ok b := by
  cases x with
  | ok a => exact ⟨fun hb => ⟨a, rfl, hb⟩, fun ⟨_, ha, hb⟩ => Except.ok.inj ha ▸ hb⟩
  | error e => exact ⟨fun ⟨_, hb⟩ => by contradiction, fun ⟨_, ha, _⟩ => by contradiction⟩

theorem mapRegions_singleton (M : AddressSpace) (base : Word) (length : Nat) :
    mapRegions M [(base, length)] = M.map base.toNat length .readWrite := by
  rw [mapRegions]
  cases M.map base.toNat length .readWrite <;> rfl

/-- When there is memory for a program with one region. -/
theorem exists_prepare_iff {base : Word} {length : Nat} (hregions : p.regions = [(base, length)]) :
    (∃ t, h.prepare id p = .ok t) ↔
      ∃ M, mapShared (.withLimit h.memoryLimit h.allocator) h.shared = .ok M ∧
        0 < length ∧ M.overlaps base.toNat length = false ∧ M.hasRoom length = true := by
  unfold prepare
  rw [exists_bind_iff, hregions]
  refine exists_congr fun M => and_congr_right fun _ => ?_
  rw [exists_bind_iff, mapRegions_singleton, ← AddressSpace.exists_map_iff]
  exact exists_congr fun M' => and_iff_left ⟨_, rfl⟩

/-- Everything below the shared code is ordinary memory. -/
theorem shape_of_prepared (hh : h.Spaced) (hok : h.prepare id p = .ok t)
    {shape : Nat × Nat × Permissions × Bool} (hshape : shape ∈ t.guest.memory.layout)
    (hbelow : shape.1 ≤ heapBase + 2 * pageSize) : shape.2.2 = (.readWrite, true) := by
  obtain ⟨_, _, _, _, _, hregions⟩ := prepare_ok hok
  obtain ⟨r, hr, rfl⟩ := List.mem_map.1 hshape
  rcases (hregions r).1 hr with ⟨s, hs, rfl⟩ | ⟨d, _, rfl⟩
  · have habove : sharedCodeBase ≤ s.address := (hh.above s hs).1
    have hheap : heapBase + 2 * pageSize < sharedCodeBase := by decide
    change s.address ≤ _ at hbelow
    omega
  · rfl

/-- More shared code leaves the rest of the memory as it is. -/
theorem prepare_embeds {δ' ω' : Type} {h' : Host δ' ω'} {t' : Thread δ'}
    (hshared : h.shared ⊆ h'.shared) (hok : h.prepare id p = .ok t)
    (hok' : h'.prepare id p = .ok t') : Embeds t.guest.memory t'.guest.memory := by
  obtain ⟨_, _, _, hwellFormed, _, hregions⟩ := prepare_ok hok
  obtain ⟨_, _, _, hwellFormed', _, hregions'⟩ := prepare_ok hok'
  refine .of_subset hwellFormed hwellFormed' fun r hr => (hregions' r).2 ?_
  rcases (hregions r).1 hr with ⟨s, hs, hr⟩ | hdata
  · exact Or.inl ⟨s, hshared hs, hr⟩
  · exact Or.inr hdata

end Host

end AccessTrace
