import AccessTrace.Proofs.Code.Cache
import AccessTrace.Proofs.Code.Injected
import AccessTrace.Proofs.FastPath.Emission
import AccessTrace.Proofs.Record.Slot

/-!
# The way through a fast path

A fast path puts one record into the buffer, calls a host routine if the buffer is full then, and
leaves the application's machine as it found it, whatever the routine does to it. In between it uses
two scratch registers and, with one of the tests, the flags; the parts of the path are followed one
after the other, up to the restores.
-/

namespace AccessTrace

/-- The same counts of application instructions and host calls. -/
structure Counts.Alike (counts counts' : Counts) : Prop where
  app : counts'.app = counts.app
  hostCalls : counts'.hostCalls = counts.hostCalls

theorem Counts.Alike.trans {counts counts' counts'' : Counts} (h : counts.Alike counts')
    (h' : counts'.Alike counts'') : counts.Alike counts'' :=
  ⟨h'.app.trans h.app, h'.hostCalls.trans h.hostCalls⟩

/-- Injected code that calls no host routine counts as neither. -/
theorem Counts.alike_injected (counts : Counts) {is : List Injected}
    (h : ∀ i ∈ is, ∀ routine, i ≠ .hostCall routine) :
    counts.Alike ((is.map Node.injected).foldl Counts.step counts) := by
  induction is generalizing counts with
  | nil => exact ⟨rfl, rfl⟩
  | cons i rest ih =>
    have hfirst : counts.Alike (counts.step (.injected i)) := by
      cases i with
      | hostCall routine => exact absurd rfl (h _ List.mem_cons_self routine)
      | _ => exact ⟨rfl, rfl⟩
    exact hfirst.trans (ih _ fun i hi => h i (List.mem_cons_of_mem _ hi))

namespace MachineState

variable {machine machine' machine'' : MachineState}

/-- The same registers, apart from the two that fast paths use. -/
def Scratched (machine machine' : MachineState) : Prop :=
  ∀ r, r ≠ .rcx → r ≠ .rbx → machine'.get r = machine.get r

theorem Scratched.refl (machine : MachineState) : machine.Scratched machine := fun _ _ _ => rfl

theorem Scratched.trans (h : machine.Scratched machine') (h' : machine'.Scratched machine'') :
    machine.Scratched machine'' := fun r hc hb => (h' r hc hb).trans (h r hc hb)

theorem Scratched.set_rcx (h : machine.Scratched machine') (value : Word) :
    machine.Scratched (machine'.set .rcx value) := fun r hc hb => by
  rw [get_set_other _ (Ne.symm hc), h r hc hb]

theorem Scratched.set_rbx (h : machine.Scratched machine') (value : Word) :
    machine.Scratched (machine'.set .rbx value) := fun r hc hb => by
  rw [get_set_other _ (Ne.symm hb), h r hc hb]

end MachineState

/-- A displaced address, where nothing wraps around. -/
theorem toNat_displaced {x k : Nat} {disp : Int32} (hdisp : disp.toInt64.toUInt64 = UInt64.ofNat k)
    (h : x + k < addressBound) : (UInt64.ofNat x + disp.toInt64.toUInt64).toNat = x + k := by
  rw [hdisp, ← UInt64.ofNat_add, UInt64.toNat_ofNat_of_lt']
  exact h

namespace Injector

open MachineState (Scratched)

variable {δ ω : Type} {cpu : Cpu δ ω} {f : Fragment} {j : Injector} {b : TraceBuffer} {k : Nat}
  {r : Record} {s : Running δ ω} {machine : MachineState} {M M₁ : AddressSpace}
  {spill : Vector Word spillSlotCount}

/-- The record is stored in the next slot, and the cursor stands in the counter. -/
theorem flows_record (cpu : Cpu δ ω) (f : Fragment) (spill : Vector Word spillSlotCount)
    (hword : s.thread.fieldWord j.field = .ok (UInt64.ofNat b.headerAddress))
    (hready : b.Ready k M) (pc : Word) (access : Access) :
    ∃ machine' M', cpu.Flows f ((j.recordCode pc access).map .injected) (s.at machine M spill)
        (s.at machine' M' spill) ∧
      machine'.get .rcx = UInt64.ofNat (b.slotAt k) ∧ machine.Scratched machine' ∧
      machine'.flags = machine.flags ∧ b.Filled k (access.record pc machine) M M' := by
  let isWrite : Word := if access.direction.isWrite then 1 else 0
  let address := machine.effectiveAddress access.mem
  obtain ⟨_, hfits, hbound, hheader⟩ := hready.bounds
  have hlength : Record.length = 32 := rfl
  obtain ⟨M₁, M₂, M₃, M₄, hstore₁, hstore₂, hstore₃, hstore₄, hfilled⟩ :=
    hready.fill isWrite address (.ofNat access.size) pc
  let machine₁ := machine.set .rbx address
  let machine₂ := machine₁.set .rcx (UInt64.ofNat b.headerAddress)
  let machine₃ := machine₂.set .rcx (UInt64.ofNat (b.slotAt k))
  have hcursor : machine₃.get .rcx = UInt64.ofNat (b.slotAt k) := MachineState.get_set_self _ _ _
  have hplace {disp : Int32} {n : Nat} (hdisp : disp.toInt64.toUInt64 = UInt64.ofNat n)
      (hn : n < Record.length) :
      (machine₃.get .rcx + disp.toInt64.toUInt64).toNat = b.slotAt k + n := by
    rw [hcursor]
    exact toNat_displaced hdisp (by omega)
  have haddress : machine₃.get .rbx = address := by
    rw [MachineState.get_set_other _ (by decide), MachineState.get_set_other _ (by decide),
      MachineState.get_set_self]
  have hload : M.load (machine₂.get .rcx +
      (Int32.ofNat BufferHeader.cursorOffset).toInt64.toUInt64).toNat 8 =
      .ok (UInt64.ofNat (b.slotAt k)) := by
    rw [MachineState.get_set_self, toNat_displaced (k := BufferHeader.cursorOffset) rfl (by
      simp only [BufferHeader.cursorOffset]; omega)]
    exact hready.cursor
  refine ⟨machine₃, M₄, ?_, hcursor, ?_, rfl, ?_⟩
  · refine .cons (cpu.executeNode_loadAddress f s machine M spill .rbx access.mem) ?_
    refine .cons (cpu.executeNode_readField f s machine₁ M spill .rcx hword) ?_
    refine .cons (cpu.executeNode_load f s machine₂ M spill .rcx .rcx hload) ?_
    refine .cons (cpu.executeNode_storeImmediate f s machine₃ M spill .rcx (n := M₁) ?_) ?_
    · rw [hplace (n := Record.isWriteOffset) rfl (by decide)]
      exact hstore₁
    refine .cons (cpu.executeNode_store f s machine₃ M₁ spill .rcx .rbx (n := M₂) ?_) ?_
    · rw [hplace (n := Record.addressOffset) rfl (by decide), haddress]
      exact hstore₂
    refine .cons (cpu.executeNode_storeImmediate f s machine₃ M₂ spill .rcx (n := M₃) ?_) ?_
    · rw [hplace (n := Record.sizeOffset) rfl (by decide)]
      exact hstore₃
    refine .cons (cpu.executeNode_storeImmediate f s machine₃ M₃ spill .rcx (n := M₄) ?_)
      (.nil _)
    rw [hplace (n := Record.originOffset) rfl (by decide)]
    exact hstore₄
  · exact (((Scratched.refl machine).set_rbx _).set_rcx _).set_rcx _
  · have hdirection : UInt32.ofNat (isWrite.toNat % 2 ^ 32) =
        if access.direction.isWrite then 1 else 0 := by
      change UInt32.ofNat ((if access.direction.isWrite then (1 : Word) else 0).toNat % 2 ^ 32) = _
      cases access.direction.isWrite <;> decide
    rw [hdirection] at hfilled
    exact hfilled

/-- The cursor is moved behind the stored record, and the negated end is there for the test. -/
theorem flows_advance (cpu : Cpu δ ω) (f : Fragment) (spill : Vector Word spillSlotCount)
    (hword : s.thread.fieldWord j.field = .ok (UInt64.ofNat b.headerAddress))
    (hready : b.Ready k M) (hfilled : b.Filled k r M M₁)
    (hcursor : machine.get .rcx = UInt64.ofNat (b.slotAt k)) :
    ∃ machine' M', cpu.Flows f (j.advanceCode.map .injected) (s.at machine M₁ spill)
        (s.at machine' M' spill) ∧
      machine'.get .rcx = UInt64.ofNat (b.slotAt (k + 1)) ∧
      machine'.get .rbx = 0 - UInt64.ofNat b.stop ∧ machine.Scratched machine' ∧
      machine'.flags = machine.flags ∧ b.Appended k r M M' := by
  obtain ⟨_, _, _, hheader⟩ := hready.bounds
  have hheaderLength : BufferHeader.length = 24 := rfl
  obtain ⟨M', hstore, happended⟩ := hfilled.advance hready
  let machine₁ := machine.set .rcx (machine.get .rcx +
    (Int32.ofNat Record.length).toInt64.toUInt64 + 0)
  let machine₂ := machine₁.set .rbx (UInt64.ofNat b.headerAddress)
  let machine₃ := machine₂.set .rbx (0 - UInt64.ofNat b.stop)
  have hcursor₂ : machine₂.get .rcx = UInt64.ofNat (b.slotAt (k + 1)) := by
    rw [MachineState.get_set_other _ (by decide), MachineState.get_set_self, hcursor,
      TraceBuffer.slotAt_succ, UInt64.ofNat_add, UInt64.add_zero]
    rfl
  have hbase : machine₂.get .rbx = UInt64.ofNat b.headerAddress := MachineState.get_set_self _ _ _
  refine ⟨machine₃, M', ?_, ?_, MachineState.get_set_self _ _ _, ?_, rfl, happended⟩
  · refine .cons (cpu.executeNode_sum f s machine M₁ spill .rcx .rcx none _) ?_
    refine .cons (cpu.executeNode_readField f s machine₁ M₁ spill .rbx hword) ?_
    refine .cons (cpu.executeNode_store f s machine₂ M₁ spill .rbx .rcx (n := M') ?_) ?_
    · rw [hbase, toNat_displaced (k := BufferHeader.cursorOffset) rfl (by
        simp only [BufferHeader.cursorOffset]; omega), hcursor₂]
      exact hstore
    refine .cons (cpu.executeNode_load f s machine₂ M' spill .rbx .rbx ?_) (.nil _)
    rw [hbase, toNat_displaced (k := BufferHeader.negatedEndOffset) rfl (by
      simp only [BufferHeader.negatedEndOffset]; omega)]
    exact happended.negatedEnd hready
  · rw [MachineState.get_set_other _ (by decide), hcursor₂]
  · exact (((Scratched.refl machine).set_rcx _).set_rbx _).set_rbx _

/-! ## Setting up and putting back -/

/-- How many spill slots fast paths use; they are the first ones. -/
def slotsUsed : Nat := 3

/-- The code that keeps the scratch registers aside, and the code that restores them. -/
structure Frame (cpu : Cpu δ ω) (f : Fragment) (machine : MachineState)
    (keepsFlags : Bool) (enter leave : List Injected) (spill spill' : Vector Word spillSlotCount) :
    Prop where
  entering : ∀ (s : Running δ ω) (M : AddressSpace),
    cpu.Flows f (enter.map .injected) (s.at machine M spill) (s.at machine M spill')
  leaving : ∀ (s : Running δ ω) (M : AddressSpace) (machine' : MachineState),
    machine.Scratched machine' → (keepsFlags = true → machine'.flags = machine.flags) →
    cpu.Flows f (leave.map .injected) (s.at machine' M spill') (s.at machine M spill')
  countsEnter : ∀ counts : Counts, counts.Alike ((enter.map .injected).foldl Counts.step counts)
  countsLeave : ∀ counts : Counts, counts.Alike ((leave.map .injected).foldl Counts.step counts)
  unlabelled : ∀ i ∈ leave, ∀ l, (Node.injected i).marks l = false
  slots : ∀ i, slotsUsed ≤ i → spill'[i]? = spill[i]?

/-- Restoring the scratch registers gives the machine back. -/
theorem restore_scratched {machine machine' : MachineState} (h : machine.Scratched machine')
    (hflags : machine'.flags = machine.flags) :
    (machine'.set .rbx (machine.get .rbx)).set .rcx (machine.get .rcx) = machine := by
  refine MachineState.ext_get (fun r => ?_) hflags
  by_cases hc : r = .rcx
  · rw [hc, MachineState.get_set_self]
  · rw [MachineState.get_set_other _ (Ne.symm hc)]
    by_cases hb : r = .rbx
    · rw [hb, MachineState.get_set_self]
    · rw [MachineState.get_set_other _ (Ne.symm hb), h r hc hb]

theorem frame_counter (cpu : Cpu δ ω) (f : Fragment)
    (machine : MachineState) (spill : Vector Word spillSlotCount) :
    Frame cpu f machine true [.spill .rcx ⟨0⟩, .spill .rbx ⟨1⟩]
      [.restore .rbx ⟨1⟩, .restore .rcx ⟨0⟩] spill
      ((spill.setIfInBounds 0 (machine.get .rcx)).setIfInBounds 1 (machine.get .rbx)) := by
  refine ⟨fun s M => ?_, fun s M machine' hscratched hflags => ?_, fun _ => ⟨rfl, rfl⟩,
    fun _ => ⟨rfl, rfl⟩, by simp [Node.marks], fun i hi => ?_⟩
  · exact .cons (cpu.executeNode_spill f s machine M spill .rcx ⟨0⟩ (by decide)) <|
      .cons (cpu.executeNode_spill f s machine M _ .rbx ⟨1⟩ (by decide)) (.nil _)
  · have hrestored := restore_scratched hscratched (hflags rfl)
    refine .cons (cpu.executeNode_restore f s machine' M _ .rbx ⟨1⟩ (machine.get .rbx) ?_) ?_
    · exact Vector.getElem?_setIfInBounds_self_of_lt (by decide)
    refine .cons (cpu.executeNode_restore f s _ M _ .rcx ⟨0⟩ (machine.get .rcx) ?_) ?_
    · rw [Vector.getElem?_setIfInBounds_ne (by decide)]
      exact Vector.getElem?_setIfInBounds_self_of_lt (by decide)
    rw [hrestored]
    exact .nil _
  · change 3 ≤ i at hi
    rw [Vector.getElem?_setIfInBounds_ne (by omega), Vector.getElem?_setIfInBounds_ne (by omega)]

theorem frame_flags (cpu : Cpu δ ω) (f : Fragment)
    (machine : MachineState) (spill : Vector Word spillSlotCount) :
    Frame cpu f machine false [.saveFlags ⟨0⟩, .spill .rcx ⟨1⟩, .spill .rbx ⟨2⟩]
      [.restore .rbx ⟨2⟩, .restore .rcx ⟨1⟩, .restoreFlags ⟨0⟩] spill
      (((spill.setIfInBounds 0 machine.flags.toWord).setIfInBounds 1
        (machine.get .rcx)).setIfInBounds 2 (machine.get .rbx)) := by
  refine ⟨fun s M => ?_, fun s M machine' hscratched _ => ?_, fun _ => ⟨rfl, rfl⟩,
    fun _ => ⟨rfl, rfl⟩, by simp [Node.marks], fun i hi => ?_⟩
  · exact .cons (cpu.executeNode_saveFlags f s machine M spill ⟨0⟩ (by decide)) <|
      .cons (cpu.executeNode_spill f s machine M _ .rcx ⟨1⟩ (by decide)) <|
        .cons (cpu.executeNode_spill f s machine M _ .rbx ⟨2⟩ (by decide)) (.nil _)
  · -- The flags do not matter up to their own restore, which comes last.
    have hrestored : ({ (machine'.set .rbx (machine.get .rbx)).set .rcx (machine.get .rcx) with
        flags := .ofWord machine.flags.toWord } : MachineState) = machine := by
      rw [ArithmeticFlags.ofWord_toWord]
      exact @restore_scratched machine { machine' with flags := machine.flags } hscratched rfl
    refine .cons (cpu.executeNode_restore f s machine' M _ .rbx ⟨2⟩ (machine.get .rbx) ?_) ?_
    · exact Vector.getElem?_setIfInBounds_self_of_lt (by decide)
    refine .cons (cpu.executeNode_restore f s _ M _ .rcx ⟨1⟩ (machine.get .rcx) ?_) ?_
    · rw [Vector.getElem?_setIfInBounds_ne (by decide)]
      exact Vector.getElem?_setIfInBounds_self_of_lt (by decide)
    refine .cons (cpu.executeNode_restoreFlags f s _ M _ ⟨0⟩ machine.flags.toWord ?_) ?_
    · rw [Vector.getElem?_setIfInBounds_ne (by decide),
        Vector.getElem?_setIfInBounds_ne (by decide)]
      exact Vector.getElem?_setIfInBounds_self_of_lt (by decide)
    rw [hrestored]
    exact .nil _
  · change 3 ≤ i at hi
    rw [Vector.getElem?_setIfInBounds_ne (by omega), Vector.getElem?_setIfInBounds_ne (by omega),
      Vector.getElem?_setIfInBounds_ne (by omega)]

/-! ## Branching -/

/-- From the start of the test the run comes to the divert label if cursor and negated end add up
to zero, and to the resume label otherwise. -/
structure Branches (cpu : Cpu δ ω) (f : Fragment) (keepsFlags : Bool)
    (test : List Injected) (divert resume : Nat) : Prop where
  run : ∀ (index : Nat) (counts : Counts) (s : Running δ ω)
    (machine : MachineState) (M : AddressSpace) (spill : Vector Word spillSlotCount),
    f.Has index (test.map .injected) →
    ∃ n counts' machine', n ≤ test.length ∧
      cpu.Reaches n ⟨f, index, counts, s.at machine M spill⟩
        ⟨f, if machine.get .rcx + machine.get .rbx = 0 then divert else resume, counts',
          s.at machine' M spill⟩ ∧
      machine.Scratched machine' ∧ (keepsFlags = true → machine'.flags = machine.flags) ∧
      counts.Alike counts'

/-- Both tests begin with the sum. -/
theorem executeNode_overflowSum (cpu : Cpu δ ω) (f : Fragment)
    (s : Running δ ω) (machine : MachineState) (M : AddressSpace)
    (spill : Vector Word spillSlotCount) :
    cpu.executeNode f (.injected (.sum .rcx .rbx (some .rcx) 0)) (s.at machine M spill) =
      .ok .next (s.at (machine.set .rcx (machine.get .rcx + machine.get .rbx)) M spill) := by
  rw [cpu.executeNode_sum]
  have hvalue : machine.get .rbx + (0 : Int32).toInt64.toUInt64 +
      ((some Register.rcx).map machine.get).getD 0 = machine.get .rcx + machine.get .rbx := by
    rw [UInt64.add_comm (machine.get .rcx)]
    exact congrArg (· + machine.get .rcx) (UInt64.add_zero _)
  rw [hvalue]

variable {divert resume : Label} {divertIndex resumeIndex : Nat}

theorem branches_counter (cpu : Cpu δ ω)
    (hdivert : f.labelIndex divert = .ok divertIndex)
    (hresume : f.labelIndex resume = .ok resumeIndex) :
    Branches cpu f true (counterTestCode divert resume) divertIndex resumeIndex := by
  refine ⟨fun index counts s machine M spill hhas => ?_⟩
  let machine₁ := machine.set .rcx (machine.get .rcx + machine.get .rbx)
  have hsum := executeNode_overflowSum cpu f s machine M spill
  have hget : machine₁.get .rcx = machine.get .rcx + machine.get .rbx :=
    MachineState.get_set_self _ _ _
  have hfirst := Cpu.reaches_next counts hhas.head hsum
  have hjump := cpu.executeNode_jumpIfCounterZero f s machine₁ M spill hdivert
  rw [hget] at hjump
  by_cases hfull : machine.get .rcx + machine.get .rbx = 0
  · rw [if_pos hfull] at hjump ⊢
    exact ⟨2, _, machine₁, show 2 ≤ 3 by decide,
      hfirst.trans (Cpu.reaches_goto hhas.tail.head hjump),
      (Scratched.refl _).set_rcx _, fun _ => rfl, rfl, rfl⟩
  · rw [if_neg hfull] at hjump ⊢
    have hlast := cpu.executeNode_jump f (s.at machine₁ M spill) hresume
    exact ⟨3, _, machine₁, Nat.le_refl 3,
      (hfirst.trans (Cpu.reaches_next _ hhas.tail.head hjump)).trans
        (Cpu.reaches_goto hhas.tail.tail.head hlast),
      (Scratched.refl _).set_rcx _, fun _ => rfl, rfl, rfl⟩

theorem branches_flags (cpu : Cpu δ ω)
    (hdivert : f.labelIndex divert = .ok divertIndex)
    (hresume : f.labelIndex resume = .ok resumeIndex) :
    Branches cpu f false (flagsTestCode divert resume) divertIndex resumeIndex := by
  refine ⟨fun index counts s machine M spill hhas => ?_⟩
  let machine₁ := machine.set .rcx (machine.get .rcx + machine.get .rbx)
  have hsum := executeNode_overflowSum cpu f s machine M spill
  have hget : machine₁.get .rcx = machine.get .rcx + machine.get .rbx :=
    MachineState.get_set_self _ _ _
  let machine₂ : MachineState := { machine₁ with
    flags := ⟨machine₁.get .rcx == 0, machine₁.get .rcx >>> 63 != 0, false⟩ }
  have htest := cpu.executeNode_testZero f s machine₁ M spill .rcx
  have hfirst := (Cpu.reaches_next counts hhas.head hsum).trans
    (Cpu.reaches_next _ hhas.tail.head htest)
  have hjump := cpu.executeNode_jumpIfZero f s machine₂ M spill hdivert
  have hzero : machine₂.flags.zero = decide (machine.get .rcx + machine.get .rbx = 0) := by
    change (machine₁.get .rcx == 0) = _
    rw [hget]
    rfl
  rw [hzero] at hjump
  by_cases hfull : machine.get .rcx + machine.get .rbx = 0
  · rw [if_pos (decide_eq_true hfull)] at hjump
    rw [if_pos hfull]
    exact ⟨3, _, machine₂, show 3 ≤ 4 by decide,
      hfirst.trans (Cpu.reaches_goto hhas.tail.tail.head hjump),
      (Scratched.refl _).set_rcx _, nofun, rfl, rfl⟩
  · rw [if_neg (fun h => hfull (of_decide_eq_true h))] at hjump
    rw [if_neg hfull]
    have hlast := cpu.executeNode_jump f (s.at machine₂ M spill) hresume
    exact ⟨4, _, machine₂, Nat.le_refl 4,
      (hfirst.trans (Cpu.reaches_next _ hhas.tail.tail.head hjump)).trans
        (Cpu.reaches_goto hhas.tail.tail.tail.head hlast),
      (Scratched.refl _).set_rcx _, nofun, rfl, rfl⟩

/-! ## The way to the routine and back -/

/-- Fast paths of a fragment find the code that calls a routine where they expect it, and it finds
back to them. -/
structure Diverts (cpu : Cpu δ ω) (j : Injector) (routine : Routine δ ω) (f : Fragment) :
    Prop where
  there : ∃ g id, cpu.cache.lookup j.flushAddress.toNat = some (g, 0) ∧
    g.Has 0 [.injected (.hostCall id), .injected (.jumpIndirect resumeRegister)] ∧
    cpu.routines[id.number.toNat]? = some routine
  back : ∀ index < f.nodes.size, f.addressOf index < addressBound ∧
    cpu.cache.lookup (f.addressOf index) = some (f, index)

variable {routine : Routine δ ω} {index : Nat} {counts : Counts}

/-- A run that diverts comes back at the resume label, after one call of the routine. -/
theorem reaches_resume (counts : Counts) (hdiverts : Diverts cpu j routine f)
    (hhas : f.Has index ((j.divertCode divert resume).map .injected))
    (hresume : f.labelIndex resume = .ok (index + 3))
    (hroutine : ∀ machine', ∃ t, routine (s.at machine' M spill) = .ok () t ∧
      t.thread.spill = spill) :
    ∃ counts' machine' t, routine (s.at machine' M spill) = .ok () t ∧
      cpu.Reaches 5 ⟨f, index, counts, s.at machine M spill⟩
        ⟨f, index + 3, counts', t.at machine' t.thread.guest.memory spill⟩ ∧
      machine.Scratched machine' ∧ machine'.flags = machine.flags ∧
      counts'.app = counts.app ∧ counts'.hostCalls = counts.hostCalls + 1 := by
  obtain ⟨g, id, hlookup, hg, hid⟩ := hdiverts.there
  have hsize : index + 3 < f.nodes.size := (Array.getElem?_eq_some_iff.1 hhas.tail.tail.tail.head).1
  obtain ⟨hbound, hback⟩ := hdiverts.back (index + 3) hsize
  let address : Word := UInt64.ofNat (f.addressOf (index + 3))
  let machine' := machine.set resumeRegister address
  have haddress : address.toNat = f.addressOf (index + 3) := UInt64.toNat_ofNat_of_lt' hbound
  obtain ⟨t, ht, hspill⟩ := hroutine machine'
  have hcall := cpu.executeNode_hostCall g (s.at machine' M spill) hid ht
  rw [hspill] at hcall
  let s₁ := t.at machine' t.thread.guest.memory spill
  have hfound : cpu.cache.lookup (s₁.thread.guest.machine.get resumeRegister).toNat =
      some (f, index + 3) := by
    have hget : s₁.thread.guest.machine.get resumeRegister = address :=
      MachineState.get_set_self _ _ _
    rw [hget, haddress]
    exact hback
  have hrun : cpu.Reaches 5 ⟨f, index, counts, s.at machine M spill⟩ ⟨f, index + 3, _, s₁⟩ :=
    (Cpu.reaches_next _ hhas.head (cpu.executeNode_label f _ divert)).trans <|
    (Cpu.reaches_next _ hhas.tail.head
      (cpu.executeNode_labelAddress f s machine M spill resumeRegister hresume)).trans <|
    (Cpu.reaches_transfer hhas.tail.tail.head (cpu.executeNode_jumpTo f _ _) hlookup).trans <|
    (Cpu.reaches_next _ hg.head hcall).trans <|
    Cpu.reaches_transfer hg.tail.head (cpu.executeNode_jumpIndirect g s₁ _) hfound
  exact ⟨_, machine', t, ht, hrun, (Scratched.refl machine).set_rcx _, rfl, rfl, rfl⟩

/-! ## A whole path -/

/-- Behind the resume label everything is restored. -/
theorem reaches_left {keepsFlags : Bool} {enter leave : List Injected}
    {spill' : Vector Word spillSlotCount} {machine' : MachineState} (counts : Counts)
    (s : Running δ ω) (M : AddressSpace)
    (hframe : Frame cpu f machine keepsFlags enter leave spill spill')
    (hhas : f.Has index (.injected (.label resume) :: leave.map .injected))
    (hscratched : machine.Scratched machine')
    (hflags : keepsFlags = true → machine'.flags = machine.flags) :
    ∃ counts', cpu.Reaches (leave.length + 1) ⟨f, index, counts, s.at machine' M spill'⟩
        ⟨f, index + (leave.length + 1), counts', s.at machine M spill'⟩ ∧
      counts.Alike counts' := by
  have hflows : cpu.Flows f (.injected (.label resume) :: leave.map .injected)
      (s.at machine' M spill') (s.at machine M spill') :=
    .cons (cpu.executeNode_label f _ resume) (hframe.leaving s M machine' hscratched hflags)
  have hreaches := hflows.reaches counts hhas
  rw [List.length_cons, List.length_map] at hreaches
  have halike := hframe.countsLeave (counts.step (.injected (.label resume)))
  exact ⟨_, hreaches, halike.app, halike.hostCalls⟩

/-- Up to the branch a path appends its record, and branches if that was the last there is room
for. -/
theorem reaches_branched {keepsFlags : Bool} {enter test leave : List Injected} {rest : List Node}
    {spill' : Vector Word spillSlotCount} {pc : Word} {access : Access} {d e : Nat}
    (counts : Counts)
    (hframe : Frame cpu f machine keepsFlags enter leave spill spill')
    (htest : Branches cpu f keepsFlags test d e)
    (hhas : f.Has index ((enter ++ (j.recordCode pc access ++ j.advanceCode)).map .injected ++
      (test.map .injected ++ rest)))
    (hword : s.thread.fieldWord j.field = .ok (UInt64.ofNat b.headerAddress))
    (hready : b.Ready k M) :
    ∃ n counts' machine' M', n ≤ enter.length + 11 + test.length ∧
      cpu.Reaches n ⟨f, index, counts, s.at machine M spill⟩
        ⟨f, if k + 1 = b.capacity then d else e, counts', s.at machine' M' spill'⟩ ∧
      machine.Scratched machine' ∧ (keepsFlags = true → machine'.flags = machine.flags) ∧
      b.Appended k (access.record pc machine) M M' ∧ counts.Alike counts' := by
  obtain ⟨machine₁, M₁, hrecord, hcursor₁, hscratched₁, hflags₁, hfilled⟩ :=
    flows_record cpu f spill' hword hready pc access
  obtain ⟨machine₂, M₂, hadvance, hcursor₂, hnegated₂, hscratched₂, hflags₂, happended⟩ :=
    flows_advance cpu f spill' hword hready hfilled hcursor₁
  let straight := (enter ++ (j.recordCode pc access ++ j.advanceCode)).map Node.injected
  have hflows : cpu.Flows f straight (s.at machine M spill) (s.at machine₂ M₂ spill') := by
    simp only [straight, List.map_append]
    exact (hframe.entering s M).append (hrecord.append hadvance)
  have hlength : straight.length = enter.length + 11 := by
    simp [straight, recordCode, advanceCode]
  have halike₁ : counts.Alike (straight.foldl Counts.step counts) := by
    have hcalls : ∀ i ∈ j.recordCode pc access ++ j.advanceCode, ∀ routine,
        i ≠ .hostCall routine := by
      simp [recordCode, advanceCode]
    rw [show straight = enter.map .injected ++
        (j.recordCode pc access ++ j.advanceCode).map .injected from List.map_append,
      List.foldl_append]
    exact (hframe.countsEnter counts).trans (Counts.alike_injected _ hcalls)
  obtain ⟨n, counts', machine₃, hn, hbranched, hscratched₃, hflags₃, halike₂⟩ :=
    htest.run _ (straight.foldl Counts.step counts) s machine₂ M₂ spill' hhas.right.left
  have hfull : machine₂.get .rcx + machine₂.get .rbx = 0 ↔ k + 1 = b.capacity := by
    rw [hcursor₂, hnegated₂]
    exact TraceBuffer.slotAt_full_iff hready.bounds.2.2.1 hready.room
  rw [if_congr hfull rfl rfl] at hbranched
  refine ⟨straight.length + n, counts', machine₃, M₂, by omega,
    (hflows.reaches counts hhas.left).trans hbranched, ?_, fun h => ?_, happended,
    halike₁.trans halike₂⟩
  · exact (hscratched₁.trans hscratched₂).trans hscratched₃
  · rw [hflags₃ h, hflags₂, hflags₁]

/-- Both labels stand where the path has them, if they stand nowhere behind it. -/
theorem labelIndex_divertCode {leave : List Node} {d : Nat} (hne : resume ≠ divert)
    (hhas : f.Has d ((j.divertCode divert resume).map .injected ++ leave))
    (hleave : ∀ l, ∀ node ∈ leave, node.marks l = false)
    (hbehind : ∀ i, d + 4 + leave.length ≤ i → ∀ node, f.nodes[i]? = some node →
      node.marks divert = false ∧ node.marks resume = false) :
    f.labelIndex divert = .ok d ∧ f.labelIndex resume = .ok (d + 3) := by
  have hnodes : f.Has d (.injected (.label divert) ::
      .injected (.labelAddress resumeRegister resume) :: .injected (.jumpTo j.flushAddress) ::
      .injected (.label resume) :: leave) := hhas
  constructor
  · refine Fragment.labelIndex_of_has hnodes ?_ fun i hi node hnode => ?_
    · intro node hnode
      simp only [List.mem_cons] at hnode
      rcases hnode with rfl | rfl | rfl | hnode
      · rfl
      · rfl
      · exact beq_false_of_ne hne
      · exact hleave divert node hnode
    · simp only [List.length_cons] at hi
      exact (hbehind i (by omega) node hnode).1
  · refine Fragment.labelIndex_of_has hnodes.tail.tail.tail (hleave resume) ?_
    exact fun i hi node hnode => (hbehind i (by omega) node hnode).2

/-- From `s` to `s'` one record was put behind `k` others. If the buffer was full then, `routine`
was called once and found the record there; otherwise there was no call. The machine is as before,
and so are the spill slots that fast paths do not use. -/
structure Passed (b : TraceBuffer) (k : Nat) (r : Record) (routine : Routine δ ω)
    (counts counts' : Counts) (s s' : Running δ ω) : Prop where
  outcome : ∃ machine' M' spill', b.Appended k r s.thread.guest.memory M' ∧
    (∀ i, slotsUsed ≤ i → spill'[i]? = s.thread.spill[i]?) ∧
    if k + 1 = b.capacity then
      ∃ t, routine (s.at machine' M' spill') = .ok () t ∧
        s' = t.at s.thread.guest.machine t.thread.guest.memory spill'
    else s' = s.at s.thread.guest.machine M' spill'
  app : counts'.app = counts.app
  hostCalls : counts'.hostCalls = counts.hostCalls + if k + 1 = b.capacity then 1 else 0

theorem Passed.machine_eq {counts counts' : Counts} {s' : Running δ ω}
    (h : Passed b k r routine counts counts' s s') :
    s'.thread.guest.machine = s.thread.guest.machine := by
  obtain ⟨_, _, _, _, _, houtcome⟩ := h.outcome
  split at houtcome
  · obtain ⟨_, _, rfl⟩ := houtcome
    rfl
  · rw [houtcome]
    rfl

/-- From the branch on, a path has the routine called if the buffer is full, and then restores
everything. -/
theorem reaches_behind {keepsFlags : Bool} {enter leave : List Injected} {d : Nat}
    {spill' : Vector Word spillSlotCount} {machine₁ : MachineState} {counts₁ : Counts}
    (hdiverts : Diverts cpu j routine f)
    (hframe : Frame cpu f machine keepsFlags enter leave spill spill')
    (hhas : f.Has d ((j.divertCode divert resume).map .injected ++ leave.map .injected))
    (hresume : f.labelIndex resume = .ok (d + 3))
    (hscratched : machine.Scratched machine₁)
    (hflags : keepsFlags = true → machine₁.flags = machine.flags)
    (happended : b.Appended k r M M₁) (halike : counts.Alike counts₁)
    (hroutine : ∀ machine', k + 1 = b.capacity →
      ∃ t, routine (s.at machine' M₁ spill') = .ok () t ∧ t.thread.spill = spill') :
    ∃ n counts' s', n ≤ leave.length + 6 ∧
      cpu.Reaches n ⟨f, if k + 1 = b.capacity then d else d + 3, counts₁, s.at machine₁ M₁ spill'⟩
        ⟨f, d + 3 + (leave.length + 1), counts', s'⟩ ∧
      Passed b k r routine counts counts' (s.at machine M spill) s' := by
  have hleaveHas : f.Has (d + 3) (.injected (.label resume) :: leave.map .injected) :=
    hhas.tail.tail.tail
  by_cases hfull : k + 1 = b.capacity
  · obtain ⟨counts₂, machine₂, t, ht, hresumed, hscratched₂, hflags₂, happ₂, hcalls₂⟩ :=
      reaches_resume counts₁ hdiverts hhas.left hresume fun machine' => hroutine machine' hfull
    obtain ⟨counts₃, hleft, halike₃⟩ := reaches_left counts₂ t t.thread.guest.memory hframe
      hleaveHas (hscratched.trans hscratched₂) (fun h => hflags₂.trans (hflags h))
    rw [if_pos hfull]
    refine ⟨5 + (leave.length + 1), counts₃, _, by omega, hresumed.trans hleft,
      ⟨machine₂, M₁, spill', happended, hframe.slots, ?_⟩, ?_, ?_⟩
    · rw [if_pos hfull]
      exact ⟨t, ht, rfl⟩
    · rw [halike₃.app, happ₂, halike.app]
    · rw [halike₃.hostCalls, hcalls₂, halike.hostCalls, if_pos hfull]
  · obtain ⟨counts₂, hleft, halike₂⟩ := reaches_left counts₁ s M₁ hframe hleaveHas hscratched hflags
    rw [if_neg hfull]
    refine ⟨leave.length + 1, counts₂, _, by omega, hleft,
      ⟨machine₁, M₁, spill', happended, hframe.slots, ?_⟩, ?_, ?_⟩
    · rw [if_neg hfull]
      rfl
    · rw [halike₂.app, halike.app]
    · rw [halike₂.hostCalls, halike.hostCalls, if_neg hfull, Nat.add_zero]

/-- The parts together, however the path branches and whatever it keeps aside. -/
theorem reaches_framed {keepsFlags : Bool} {enter test leave code : List Injected}
    {spill' : Vector Word spillSlotCount} {pc : Word} {access : Access} (counts : Counts)
    (hcode : code = (enter ++ (j.recordCode pc access ++ j.advanceCode)) ++
      (test ++ (j.divertCode divert resume ++ leave)))
    (hdiverts : Diverts cpu j routine f)
    (hframe : Frame cpu f machine keepsFlags enter leave spill spill')
    (htest : ∀ divertIndex resumeIndex, f.labelIndex divert = .ok divertIndex →
      f.labelIndex resume = .ok resumeIndex →
      Branches cpu f keepsFlags test divertIndex resumeIndex)
    (hne : resume ≠ divert) (hhas : f.Has index (code.map .injected))
    (hbehind : ∀ i, index + code.length ≤ i → ∀ node, f.nodes[i]? = some node →
      node.marks divert = false ∧ node.marks resume = false)
    (hword : s.thread.fieldWord j.field = .ok (UInt64.ofNat b.headerAddress))
    (hready : b.Ready k M)
    (hroutine : ∀ machine' M' spill', b.Appended k (access.record pc machine) M M' →
      k + 1 = b.capacity →
      ∃ t, routine (s.at machine' M' spill') = .ok () t ∧ t.thread.spill = spill') :
    ∃ n counts' s', n ≤ code.length + 2 ∧
      cpu.Reaches n ⟨f, index, counts, s.at machine M spill⟩
        ⟨f, index + code.length, counts', s'⟩ ∧
      Passed b k (access.record pc machine) routine counts counts' (s.at machine M spill) s' := by
  subst hcode
  have hlength : (enter ++ (j.recordCode pc access ++ j.advanceCode) ++
      (test ++ (j.divertCode divert resume ++ leave))).length =
      enter.length + 11 + test.length + 4 + leave.length := by
    simp [recordCode, advanceCode, divertCode]
    omega
  rw [hlength] at hbehind ⊢
  have hhas₁ : f.Has index ((enter ++ (j.recordCode pc access ++ j.advanceCode)).map .injected ++
      (test.map .injected ++ ((j.divertCode divert resume).map .injected ++
        leave.map .injected))) := by
    simpa only [List.map_append, List.append_assoc] using hhas
  let d := index + (enter.length + 11) + test.length
  have hdivertHas : f.Has d ((j.divertCode divert resume).map .injected ++
      leave.map .injected) := by
    have h := hhas₁.right.right
    simp only [List.length_map, List.length_append] at h
    exact h
  obtain ⟨hdivert, hresume⟩ := labelIndex_divertCode hne hdivertHas
    (fun l node hnode => by
      obtain ⟨i, hi, rfl⟩ := List.mem_map.1 hnode
      exact hframe.unlabelled i hi l)
    (fun i hi node hnode => by
      rw [List.length_map] at hi
      exact hbehind i (by omega) node hnode)
  obtain ⟨n₁, counts₁, machine₁, M₁, hn₁, hbranched, hscratched, hflags, happended, halike⟩ :=
    reaches_branched counts hframe (htest d (d + 3) hdivert hresume) hhas₁ hword hready
  obtain ⟨n₂, counts₂, s', hn₂, hclosed, hpassed⟩ := reaches_behind hdiverts hframe hdivertHas
    hresume hscratched hflags happended halike
    fun machine' => hroutine machine' M₁ spill' happended
  have hend : index + (enter.length + 11 + test.length + 4 + leave.length) =
      d + 3 + (leave.length + 1) := by omega
  rw [hend]
  exact ⟨n₁ + n₂, counts₂, s', by omega, hbranched.trans hclosed, hpassed⟩

/-- A path appends the record of its access, and has the routine called for a full buffer. -/
theorem reaches_passed {usesCounter : Bool} {pc : Word} {access : Access} (counts : Counts)
    (hdiverts : Diverts cpu j routine f) (hne : resume ≠ divert)
    (hhas : f.Has index ((j.path usesCounter pc access divert resume).map .injected))
    (hbehind : ∀ i, index + (j.path usesCounter pc access divert resume).length ≤ i →
      ∀ node, f.nodes[i]? = some node → node.marks divert = false ∧ node.marks resume = false)
    (hword : s.thread.fieldWord j.field = .ok (UInt64.ofNat b.headerAddress))
    (hready : b.Ready k s.thread.guest.memory)
    (hroutine : ∀ machine' M' spill',
      b.Appended k (access.record pc s.thread.guest.machine) s.thread.guest.memory M' →
      k + 1 = b.capacity →
      ∃ t, routine (s.at machine' M' spill') = .ok () t ∧ t.thread.spill = spill') :
    ∃ n counts' s', n ≤ (j.path usesCounter pc access divert resume).length + 2 ∧
      cpu.Reaches n ⟨f, index, counts, s⟩
        ⟨f, index + (j.path usesCounter pc access divert resume).length, counts', s'⟩ ∧
      Passed b k (access.record pc s.thread.guest.machine) routine counts counts' s s' := by
  let machine := s.thread.guest.machine
  let spill := s.thread.spill
  cases usesCounter with
  | true =>
    exact reaches_framed counts rfl hdiverts (frame_counter cpu f machine spill)
      (fun _ _ => branches_counter cpu) hne hhas hbehind hword hready hroutine
  | false =>
    exact reaches_framed counts rfl hdiverts (frame_flags cpu f machine spill)
      (fun _ _ => branches_flags cpu) hne hhas hbehind hword hready hroutine

end Injector

end AccessTrace
