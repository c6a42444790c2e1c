import AccessTrace.Proofs.Machine.Steps
import AccessTrace.Proofs.Memory.Accounting
import AccessTrace.Record.Buffer

/-!
# Operations in place

The operations of an address space as a sequence of updates, each of which is there when the next
one starts, and which a failure does not take back. None of them fails after its first update, so
that an operation in place gives what the operation gives as a whole, and one that fails leaves
everything as it was. What is mapped is put into its place by halving, which finds that place
because the regions are sorted.
-/

namespace AccessTrace

/-! ## Search by halving -/

section Bisect

variable {α : Type}

/-- How many elements come before the first one without `p`, if there is no `p` behind it. -/
def bisect (p : α → Bool) (xs : List α) (low high : Nat) : Nat :=
  if low < high then
    let middle := (low + high) / 2
    if xs[middle]?.any p then bisect p xs (middle + 1) high else bisect p xs low middle
  else low
termination_by high - low
decreasing_by all_goals omega

theorem bisect_append {p : α → Bool} {front back : List α} (hfront : ∀ x ∈ front, p x = true)
    (hback : ∀ x ∈ back, p x = false) {low high : Nat} (hlow : low ≤ front.length)
    (hhigh : front.length ≤ high) (hlength : high ≤ (front ++ back).length) :
    bisect p (front ++ back) low high = front.length := by
  fun_induction bisect p (front ++ back) low high with
  | case1 low high hlt middle hp ih =>
    refine ih ?_ hhigh hlength
    by_contra hbeyond
    rw [List.getElem?_append_right (by omega)] at hp
    obtain ⟨x, hx, hpx⟩ := Option.any_eq_true _ _ |>.1 hp
    rw [hback x (List.mem_of_getElem? hx)] at hpx
    contradiction
  | case2 low high hlt middle hp ih =>
    refine ih hlow ?_ (by omega)
    by_contra hbefore
    have hmiddle : middle < front.length := by omega
    rw [List.getElem?_append_left hmiddle, List.getElem?_eq_getElem hmiddle, Option.any_some,
      hfront _ (List.getElem_mem hmiddle)] at hp
    contradiction
  | case3 low high hle => omega

end Bisect

namespace AddressSpace

variable {m m' : AddressSpace} {base length : Nat}

/-! ## Steps on memory -/

theorem step_apply (operation : AddressSpace → Except MachineError AddressSpace)
    (m : AddressSpace) : step operation m = match operation m with
      | .ok m' => .ok () m'
      | .error e => .error e m := by
  change (match operation m with
    | .ok memory => (set memory : MemoryM PUnit)
    | .error e => throw e) m = _
  cases operation m <;> rfl

theorem step_of_ok {operation : AddressSpace → Except MachineError AddressSpace}
    (h : operation m = .ok m') : step operation m = .ok () m' := by
  rw [step_apply, h]

theorem step_eq_ok {operation : AddressSpace → Except MachineError AddressSpace}
    (h : step operation m = .ok () m') : operation m = .ok m' := by
  rw [step_apply] at h
  cases hoperation : operation m with
  | ok memory =>
    rw [hoperation] at h
    injection h with _ hm
    rw [hm]
  | error e =>
    rw [hoperation] at h
    contradiction

theorem look_apply {α : Type} (operation : AddressSpace → Except MachineError α)
    (m : AddressSpace) : look operation m = match operation m with
      | .ok a => .ok a m
      | .error e => .error e m := by
  change (match operation m with
    | .ok a => (return a : MemoryM α)
    | .error e => throw e) m = _
  cases operation m <;> rfl

theorem allocateM_apply (length : Nat) (permissions : Permissions) (m : AddressSpace) :
    allocateM length permissions m = match m.allocate length permissions with
      | .ok (base, m') => .ok base m'
      | .error e => .error e m := by
  change (look (·.allocate length permissions) >>= fun allocated => do
    set allocated.2
    return allocated.1) m = _
  rw [Step.bind_apply, look_apply]
  cases m.allocate length permissions <;> rfl

theorem allocateM_eq_ok {permissions : Permissions}
    (h : allocateM length permissions m = .ok base m') :
    m.allocate length permissions = .ok (base, m') := by
  rw [allocateM_apply] at h
  cases hallocate : m.allocate length permissions with
  | ok allocated =>
    rw [hallocate] at h
    injection h with hbase hm
    rw [← hbase, ← hm]
  | error e =>
    rw [hallocate] at h
    contradiction

/-! ## The operations -/

/-- Storage, if there is room for it. -/
def reserve (length : Nat) : MemoryM Storage := do
  if (← get).hasRoom length then return .zeroed length
  else throw (.outOfMemory length)

/-- Puts a region before the first one that does not start below it. -/
def insertInPlace (region : Region) : MemoryM Unit :=
  modify fun m =>
    let place := bisect (fun r => r.base < region.base) m.regions 0 m.regions.length
    { m with regions := m.regions.take place ++ region :: m.regions.drop place }

def mapInPlace (base length : Nat) (permissions : Permissions) : MemoryM Unit := do
  if length = 0 ∨ (← get).overlaps base length then throw (.mapping (.rangeRefused length base))
  let storage ← reserve length
  modify fun m => { m with ownedBytes := m.ownedBytes + length }
  insertInPlace ⟨base, length, permissions, .owned storage⟩

def allocateInPlace (length : Nat) (permissions : Permissions) : MemoryM Nat := do
  let base := (← get).nextAllocation
  mapInPlace base length permissions
  modify fun m => { m with nextAllocation := base + roundUpToPage length + pageSize }
  return base

def mapImageInPlace (base : Nat) (image : CodeImage) : MemoryM Unit := do
  let length := max image.bytes.length 1
  if !image.isSealed then throw (.mapping .imageNotSealed)
  if (← get).overlaps base length then throw (.mapping (.imageOverlap base))
  insertInPlace ⟨base, length, .readExecute, .image image⟩

def unmapInPlace (base : Nat) : MemoryM Unit := do
  match (← get).regionAt? base with
  | none => throw (.noRegionAt base)
  | some r =>
    modify fun m => { m with regions := m.regions.eraseP fun r => r.base == base }
    match r.backing with
    | .owned storage => modify fun m => { m with ownedBytes := m.ownedBytes - storage.size }
    | .image _ => return ()

def protectInPlace (base : Nat) (permissions : Permissions) : MemoryM Unit := do
  match (← get).regionAt? base with
  | none => throw (.noRegionAt base)
  | some r =>
    modify fun m => { m with regions := replaceAt base { r with permissions } m.regions }

/-- Looks for the region of the range to see if it may be written to, and then once more, by its
base, for the storage to change. -/
def changeInPlace (address length : Nat) (change : Nat → Storage → Storage) : MemoryM Unit := do
  let fault := MachineError.fault address length .write
  let m ← get
  match m.locate? address length with
  | none => throw fault
  | some located =>
    if !located.permissions.write then throw fault
    match m.regionAt? located.base with
    | none => throw fault
    | some r =>
      match r.backing with
      | .owned storage =>
        let changed := { r with backing := .owned (change (address - located.base) storage) }
        set { m with regions := replaceAt located.base changed m.regions }
      | .image _ => throw fault

def writeInPlace (address : Nat) (bytes : List UInt8) : MemoryM Unit :=
  changeInPlace address bytes.length fun start storage => storage.write start bytes

def fillInPlace (address length : Nat) (byte : UInt8) : MemoryM Unit :=
  changeInPlace address length fun start storage => storage.fill start length byte

def storeInPlace (address width : Nat) (value : Word) : MemoryM Unit :=
  if isScalarWidth width then writeInPlace address (littleEndian width value.toNat)
  else throw (.badOperand .scalarStore)

/-! ## The operations as a whole -/

/-- The place of a region among sorted ones: behind those that start below it. -/
theorem insertSorted_split {regions : List Region}
    (h : regions.Pairwise fun r s => r.base ≤ s.base) (region : Region) :
    ∃ front back, regions = front ++ back ∧
      insertSorted region regions = front ++ region :: back ∧
      (∀ r ∈ front, r.base < region.base) ∧ ∀ r ∈ back, region.base ≤ r.base := by
  induction regions with
  | nil => exact ⟨[], [], rfl, rfl, by simp, by simp⟩
  | cons head rest ih =>
    obtain ⟨hhead, hrest⟩ := List.pairwise_cons.1 h
    rw [insertSorted]
    split
    · rename_i hbelow
      obtain ⟨front, back, hregions, hinserted, hfront, hback⟩ := ih hrest
      refine ⟨head :: front, back, by rw [hregions, List.cons_append],
        by rw [hinserted, List.cons_append], fun r hr => ?_, hback⟩
      rcases List.mem_cons.1 hr with rfl | hr
      · exact hbelow
      · exact hfront r hr
    · refine ⟨[], head :: rest, rfl, rfl, by simp, fun r hr => ?_⟩
      rcases List.mem_cons.1 hr with rfl | hr
      · omega
      · have hle := hhead r hr
        omega

theorem insertInPlace_apply (h : m.regions.Pairwise fun r s => r.base ≤ s.base) (region : Region) :
    insertInPlace region m = .ok () { m with regions := insertSorted region m.regions } := by
  obtain ⟨front, back, hregions, hinserted, hfront, hback⟩ := insertSorted_split h region
  have hplace : bisect (fun r : Region => decide (r.base < region.base)) m.regions 0
      m.regions.length = front.length := by
    rw [hregions]
    exact bisect_append (by simpa using hfront) (by simpa using hback) (Nat.zero_le _)
      (by simp) (Nat.le_refl _)
  unfold insertInPlace
  rw [Step.modify_apply]
  dsimp only
  rw [hplace, hinserted, hregions, List.take_left, List.drop_left]

theorem WellFormed.sorted (hm : m.WellFormed) : m.regions.Pairwise fun r s => r.base ≤ s.base :=
  hm.ordered.imp And.left

theorem reserve_apply (length : Nat) (m : AddressSpace) :
    reserve length m = if m.hasRoom length then .ok (.zeroed length) m
      else .error (.outOfMemory length) m := by
  unfold reserve
  rw [Step.bind_apply, Step.get_apply]
  dsimp only
  split <;> rfl

theorem WellFormed.mapInPlace_apply (hm : m.WellFormed) (base length : Nat)
    (permissions : Permissions) :
    mapInPlace base length permissions m = step (·.map base length permissions) m := by
  rw [step_apply]
  unfold mapInPlace AddressSpace.map
  rw [Step.bind_apply, Step.get_apply]
  dsimp only
  split
  · rfl
  · rw [Step.bind_apply, reserve_apply]
    cases m.hasRoom length with
    | true =>
      exact insertInPlace_apply (m := { m with ownedBytes := m.ownedBytes + length }) hm.sorted _
    | false => rfl

theorem WellFormed.allocateInPlace_apply (hm : m.WellFormed) (length : Nat)
    (permissions : Permissions) :
    allocateInPlace length permissions m = allocateM length permissions m := by
  rw [allocateM_apply]
  unfold allocateInPlace AddressSpace.allocate
  rw [Step.bind_apply, Step.get_apply]
  dsimp only
  rw [Step.bind_apply, hm.mapInPlace_apply, step_apply]
  cases m.map m.nextAllocation length permissions <;> rfl

theorem WellFormed.mapImageInPlace_apply (hm : m.WellFormed) (base : Nat) (image : CodeImage) :
    mapImageInPlace base image m = step (·.mapImage base image) m := by
  rw [step_apply]
  unfold mapImageInPlace AddressSpace.mapImage
  dsimp only
  split
  · rfl
  · rw [Step.bind_apply, Step.get_apply]
    dsimp only
    split
    · rfl
    · exact insertInPlace_apply hm.sorted _

theorem unmapInPlace_apply (base : Nat) (m : AddressSpace) :
    unmapInPlace base m = step (·.unmap base) m := by
  rw [step_apply]
  unfold unmapInPlace AddressSpace.unmap
  rw [Step.bind_apply, Step.get_apply]
  dsimp only
  cases m.regionAt? base with
  | none => rfl
  | some r =>
    dsimp only
    rw [Step.bind_apply, Step.modify_apply]
    unfold Region.ownedBytes
    cases r.backing <;> rfl

theorem protectInPlace_apply (base : Nat) (permissions : Permissions) (m : AddressSpace) :
    protectInPlace base permissions m = step (·.protect base permissions) m := by
  rw [step_apply]
  unfold protectInPlace AddressSpace.protect
  rw [Step.bind_apply, Step.get_apply]
  dsimp only
  cases m.regionAt? base <;> rfl

theorem WellFormed.changeInPlace_apply (hm : m.WellFormed) (address length : Nat)
    (change : Nat → Storage → Storage) :
    changeInPlace address length change m = step (·.change address length change) m := by
  rw [step_apply]
  unfold changeInPlace AddressSpace.change
  rw [Step.bind_apply, Step.get_apply]
  dsimp only
  cases hlocated : m.locate? address length with
  | none => rfl
  | some r =>
    dsimp only
    rw [Option.bind_some, hm.regionAt?_of_locate? hlocated]
    unfold Region.change?
    dsimp only
    cases r.permissions.write <;> cases r.backing <;> rfl

theorem WellFormed.writeInPlace_apply (hm : m.WellFormed) (address : Nat) (bytes : List UInt8) :
    writeInPlace address bytes m = step (·.write address bytes) m :=
  hm.changeInPlace_apply address bytes.length fun start storage => storage.write start bytes

theorem WellFormed.fillInPlace_apply (hm : m.WellFormed) (address length : Nat) (byte : UInt8) :
    fillInPlace address length byte m = step (·.fill address length byte) m :=
  hm.changeInPlace_apply address length fun start storage => storage.fill start length byte

theorem WellFormed.storeInPlace_apply (hm : m.WellFormed) (address width : Nat) (value : Word) :
    storeInPlace address width value m = step (·.store address width value) m := by
  rw [step_apply]
  unfold storeInPlace store
  split
  · rw [hm.writeInPlace_apply, step_apply]
  · rfl

end AddressSpace

namespace MemoryOperation

open AddressSpace (step)

variable {m : AddressSpace}

/-- An operation as its updates, one after the other. -/
def inPlace : MemoryOperation → MemoryM Unit
  | map base length permissions => AddressSpace.mapInPlace base length permissions
  | allocate length permissions => discard (AddressSpace.allocateInPlace length permissions)
  | mapImage base image => AddressSpace.mapImageInPlace base image
  | unmap base => AddressSpace.unmapInPlace base
  | protect base permissions => AddressSpace.protectInPlace base permissions
  | write address bytes => AddressSpace.writeInPlace address bytes
  | fill address length byte => AddressSpace.fillInPlace address length byte
  | store address width value => AddressSpace.storeInPlace address width value

theorem inPlace_apply (hm : m.WellFormed) (op : MemoryOperation) :
    op.inPlace m = step (MemoryOperation.apply · op) m := by
  cases op with
  | map base length permissions => exact hm.mapInPlace_apply base length permissions
  | allocate length permissions =>
    change (discard (AddressSpace.allocateInPlace length permissions) : MemoryM PUnit) m = _
    have hallocate := hm.allocateInPlace_apply length permissions
    rw [AddressSpace.allocateM_apply] at hallocate
    change _ = step (fun m => (m.allocate length permissions).map Prod.snd) m
    rw [AddressSpace.step_apply]
    cases h : m.allocate length permissions with
    | error e =>
      rw [h] at hallocate
      exact Step.discard_of_error hallocate
    | ok allocated =>
      rw [h] at hallocate
      exact Step.discard_of_ok hallocate
  | mapImage base image => exact hm.mapImageInPlace_apply base image
  | unmap base => exact AddressSpace.unmapInPlace_apply base m
  | protect base permissions => exact AddressSpace.protectInPlace_apply base permissions m
  | write address bytes => exact hm.writeInPlace_apply address bytes
  | fill address length byte => exact hm.fillInPlace_apply address length byte
  | store address width value => exact hm.storeInPlace_apply address width value

end MemoryOperation

end AccessTrace
