import AccessTrace.Proofs.Memory.InPlace

/-!
# Runs of operations

What holds of an address space after any operations in place, whatever they were and whether they
succeeded: its regions are sorted, not empty and apart, what they own is counted and within the limit,
and what was allocated stands on pages of its own, with a page free behind it. The next operation
gives what it gives as a whole, so that one that fails leaves everything as it was.
-/

namespace AccessTrace

open AddressSpace (step)

/-! ## Single operations -/

namespace MemoryOperation

variable {m : AddressSpace}

theorem reachable_perform (h : m.Reachable) (op : MemoryOperation) : (op.perform m).Reachable := by
  unfold perform
  cases happly : op.apply m with
  | error e => exact h
  | ok m' =>
    change m'.Reachable
    cases op with
    | map base length permissions => exact .map h happly
    | allocate length permissions =>
      obtain ⟨base, hallocate⟩ := apply_allocate happly
      exact .allocate h hallocate
    | mapImage base image => exact .mapImage h happly
    | unmap base => exact .unmap h happly
    | protect base permissions => exact .protect h happly
    | write address bytes => exact .write h happly
    | fill address length byte => exact .fill h happly
    | store address width value => exact .write h (AddressSpace.write_of_store happly).2

theorem limit_perform (hm : m.WellFormed) (op : MemoryOperation) : (op.perform m).limit = m.limit := by
  unfold perform
  cases happly : op.apply m with
  | error e => rfl
  | ok m' => exact (hm.changed_apply happly).limit

theorem next_le_perform (hm : m.WellFormed) (op : MemoryOperation) :
    m.nextAllocation ≤ (op.perform m).nextAllocation := by
  unfold perform
  cases happly : op.apply m with
  | error e => exact Nat.le_refl _
  | ok m' => exact (hm.changed_apply happly).next_le

/-- In place or as a whole, an operation has the same outcome. -/
theorem final_inPlace (hm : m.WellFormed) (op : MemoryOperation) :
    Step.final op.inPlace m = op.perform m := by
  have happly := inPlace_apply hm op
  unfold perform
  rw [AddressSpace.step_apply] at happly
  cases h : op.apply m with
  | error e =>
    rw [h] at happly
    exact Step.final_of_error happly
  | ok m' =>
    rw [h] at happly
    exact Step.final_of_ok happly

theorem inPlace_error (hm : m.WellFormed) {op : MemoryOperation} {e : MachineError}
    {m' : AddressSpace} (h : op.inPlace m = .error e m') : m' = m := by
  rw [inPlace_apply hm, AddressSpace.step_apply] at h
  cases happly : op.apply m with
  | error e' =>
    rw [happly] at h
    injection h with _ hm'
    exact hm'.symm
  | ok m'' =>
    rw [happly] at h
    contradiction

/-- Base and length of what an operation allocates. -/
def allocated? (m : AddressSpace) : MemoryOperation → Option (Nat × Nat)
  | allocate length permissions =>
    match AddressSpace.allocateInPlace length permissions m with
    | .ok base _ => some (base, length)
    | .error _ _ => none
  | _ => none

/-- What is allocated starts where the next allocation goes, which goes a page behind it after that. -/
theorem of_allocated? (hm : m.WellFormed) {op : MemoryOperation} {base length : Nat}
    (h : op.allocated? m = some (base, length)) : base = m.nextAllocation ∧
      base + length + pageSize ≤ (op.perform m).nextAllocation := by
  cases op with
  | allocate length' permissions =>
    dsimp only [allocated?] at h
    rw [hm.allocateInPlace_apply, AddressSpace.allocateM_apply] at h
    cases hallocate : m.allocate length' permissions with
    | error e =>
      rw [hallocate] at h
      contradiction
    | ok allocated =>
      rw [hallocate] at h
      obtain ⟨rfl, rfl⟩ := Prod.mk.inj (Option.some.inj h)
      obtain ⟨hbase, mapped, _, hm'⟩ := AddressSpace.allocate_ok hallocate
      have hperform : (allocate length' permissions).perform m = allocated.2 := by
        change ((m.allocate length' permissions).map Prod.snd).toOption.getD m = _
        rw [hallocate]
        rfl
      have hlength := le_roundUpToPage length'
      rw [hperform, hm']
      refine ⟨hbase, ?_⟩
      dsimp only
      omega
  | _ => contradiction

/-! ## Any operations -/

/-- The address space after some operations in place, whether they succeed or fail. -/
def run (ops : List MemoryOperation) (m : AddressSpace) : AddressSpace :=
  ops.foldl (fun m op => Step.final op.inPlace m) m

/-- What some operations allocate, in their order. -/
def allocations : List MemoryOperation → AddressSpace → List (Nat × Nat)
  | [], _ => []
  | op :: rest, m => (op.allocated? m).toList ++ allocations rest (Step.final op.inPlace m)

theorem reachable_run (h : m.Reachable) (ops : List MemoryOperation) : (run ops m).Reachable := by
  induction ops generalizing m with
  | nil => exact h
  | cons op rest ih =>
    change (run rest (Step.final op.inPlace m)).Reachable
    rw [final_inPlace h.wellFormed]
    exact ih (reachable_perform h op)

theorem limit_run (h : m.Reachable) (ops : List MemoryOperation) : (run ops m).limit = m.limit := by
  induction ops generalizing m with
  | nil => rfl
  | cons op rest ih =>
    change (run rest (Step.final op.inPlace m)).limit = m.limit
    rw [final_inPlace h.wellFormed, ih (reachable_perform h op), limit_perform h.wellFormed]

/-- Allocations follow each other, from the place for the next one on and on pages. -/
theorem allocations_spaced (h : m.Reachable) (ops : List MemoryOperation) :
    (∀ p ∈ allocations ops m, m.nextAllocation ≤ p.1 ∧ pageSize ∣ p.1) ∧
      (allocations ops m).Pairwise fun p q => p.1 + p.2 + pageSize ≤ q.1 := by
  induction ops generalizing m with
  | nil => exact ⟨by simp [allocations], List.Pairwise.nil⟩
  | cons op rest ih =>
    obtain ⟨hstart, hspaced⟩ := ih (reachable_perform h op)
    have hle := next_le_perform h.wellFormed op
    unfold allocations
    rw [final_inPlace h.wellFormed]
    cases hallocated : op.allocated? m with
    | none =>
      refine ⟨fun p hp => ?_, hspaced⟩
      have hp := hstart p hp
      exact ⟨by omega, hp.2⟩
    | some first =>
      obtain ⟨hbase, hnext⟩ := of_allocated? h.wellFormed hallocated
      refine ⟨fun p hp => ?_, List.pairwise_cons.2 ⟨fun p hp => ?_, hspaced⟩⟩
      · rcases List.mem_cons.1 hp with rfl | hp
        · exact ⟨by omega, hbase ▸ h.balanced.aligned⟩
        · have hp := hstart p hp
          exact ⟨by omega, hp.2⟩
      · have hp := (hstart p hp).1
        omega

end MemoryOperation

/-! ## The invariant -/

namespace AddressSpace

/-- What an address space with this limit keeps to. -/
structure Orderly (limit : Option Nat) (m : AddressSpace) : Prop where
  sorted : m.regions.Pairwise fun r s => r.base < s.base ∧ r.stop ≤ s.base
  nonempty : ∀ r ∈ m.regions, 0 < r.length
  owned : m.ownedBytes = ((m.regions.filter Region.isOwned).map Region.length).sum
  limited : ∀ most, limit = some most → m.ownedBytes ≤ most

/-- Regions below the last address are apart in full. -/
theorem WellFormed.apart {m : AddressSpace} (hm : m.WellFormed)
    (hrange : ∀ r ∈ m.regions, r.stop < addressBound) :
    m.regions.Pairwise fun r s => r.base < s.base ∧ r.stop ≤ s.base := by
  refine hm.ordered.imp_of_mem fun {r s} hr hs h => ?_
  have hr := hm.base_lt_stop hr
  have hs' := hm.base_lt_stop hs
  have hrange := hrange s hs
  unfold Region.Before at h
  omega

end AddressSpace

namespace MemoryOperation

/-- After any operations, the address space is in order, what was allocated stands apart and on
pages, and the next operation has its whole effect or none at all. -/
theorem run_orderly (limit : Option Nat) (allocator : Allocator) (ops : List MemoryOperation)
    (hrange : ∀ r ∈ (run ops (.withLimit limit allocator)).regions, r.stop < addressBound) :
    (run ops (.withLimit limit allocator)).Orderly limit ∧
      (∀ p ∈ allocations ops (.withLimit limit allocator), pageSize ∣ p.1) ∧
      (allocations ops (.withLimit limit allocator)).Pairwise
        (fun p q => p.1 + p.2 + pageSize ≤ q.1) ∧
      ∀ op : MemoryOperation,
        op.inPlace (run ops (.withLimit limit allocator)) =
          step (MemoryOperation.apply · op) (run ops (.withLimit limit allocator)) ∧
        ∀ e m', op.inPlace (run ops (.withLimit limit allocator)) = .error e m' →
          m' = run ops (.withLimit limit allocator) := by
  have hstart := AddressSpace.Reachable.withLimit limit allocator
  have hrun := reachable_run hstart ops
  obtain ⟨haligned, hspaced⟩ := allocations_spaced hstart ops
  refine ⟨⟨hrun.wellFormed.apart hrange, fun r hr => (hrun.wellFormed.sound r hr).1, ?_, ?_⟩,
    fun p hp => (haligned p hp).2, hspaced,
    fun op => ⟨inPlace_apply hrun.wellFormed op, fun e m' => inPlace_error hrun.wellFormed⟩⟩
  · rw [hrun.balanced.owned, AddressSpace.ownedIn_eq_sum hrun.wellFormed.sound]
  · intro most hmost
    exact hrun.balanced.limited most ((limit_run hstart ops).trans hmost)

end MemoryOperation

namespace Sample

/-- Operations of each kind, some of which fail: at an overlap, without a length or a seal, over the
limit, and at a region that is gone, read-only or an image. -/
def operations : List MemoryOperation :=
  [.map 0x1000 16 .readWrite, .map 0x1008 4 .readWrite, .allocate 100 .readWrite,
    .allocate 0 .readWrite, .mapImage 0x800 ⟨pageSize, [0x90, 0x90], true⟩,
    .mapImage 0x900 ⟨pageSize, [], false⟩, .write 0x1004 [1, 2, 3], .write 0x800 [0],
    .fill heapBase 100 7, .protect heapBase ⟨true, false, false⟩, .store heapBase 8 1,
    .allocate 5000 .readWrite, .allocate 8000 .readWrite, .unmap 0x1000, .unmap 0x1000,
    .fill 0x1000 1 0]

theorem orderly_operations :
    (∀ r ∈ (MemoryOperation.run operations (.withLimit (some 8192))).regions,
      r.stop < addressBound) ∧
    (MemoryOperation.run operations (.withLimit (some 8192))).Orderly (some 8192) ∧
    MemoryOperation.allocations operations (.withLimit (some 8192)) =
      [(heapBase, 100), (heapBase + 2 * pageSize, 5000)] ∧
    (MemoryOperation.allocations operations (.withLimit (some 8192))).Pairwise
      fun p q => p.1 + p.2 + pageSize ≤ q.1 := by
  have hrange : ∀ r ∈ (MemoryOperation.run operations (.withLimit (some 8192))).regions,
      r.stop < addressBound := by
    decide +kernel
  obtain ⟨horderly, _, hspaced, _⟩ :=
    MemoryOperation.run_orderly (some 8192) .generous operations hrange
  exact ⟨hrange, horderly, by decide +kernel, hspaced⟩

end Sample

end AccessTrace
