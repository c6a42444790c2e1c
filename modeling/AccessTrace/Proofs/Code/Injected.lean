import AccessTrace.Proofs.Code.Run

/-!
# Injected instructions, one by one

What each injected instruction that fast paths use does to the machine, the memory and the spill
slots of a thread. Everything else about the thread, and the world around it, stays as it is. Two
machines are the same if their registers and flags are.
-/

namespace AccessTrace

namespace MachineState

variable {machine machine' : MachineState}

theorem ext_get (h : ∀ r, machine.get r = machine'.get r)
    (hflags : machine.flags = machine'.flags) : machine = machine' := by
  have hindex : ∀ i : Fin 16, ∃ r ∈ Register.all, r.index = i := by decide
  obtain ⟨registers, flags⟩ := machine
  obtain ⟨registers', flags'⟩ := machine'
  obtain rfl : flags = flags' := hflags
  congr 1
  apply Vector.ext
  intro i hi
  obtain ⟨r, _, hr⟩ := hindex ⟨i, hi⟩
  have hget := h r
  simp only [get, hr] at hget
  exact hget

theorem get_set_self (machine : MachineState) (r : Register) (value : Word) :
    (machine.set r value).get r = value := by
  rw [get_set, if_pos rfl]

theorem get_set_other (machine : MachineState) {r t : Register} (h : r ≠ t) (value : Word) :
    (machine.set r value).get t = machine.get t := by
  rw [get_set, if_neg h]

end MachineState

/-- The state with another machine, memory, and contents of the spill slots. -/
def Running.at {δ ω : Type} (s : Running δ ω) (machine : MachineState) (memory : AddressSpace)
    (spill : Vector Word spillSlotCount) : Running δ ω :=
  { s with thread := { s.thread with guest := ⟨machine, memory⟩, spill } }

namespace Cpu

section Lifting

variable {δ ω α : Type} {s : Running δ ω} {a : α}

theorem lift_of_ok {answer : Except MachineError α} (h : answer = .ok a) :
    (lift answer : RunM δ ω α) s = .ok a s := by
  rw [h]
  rfl

theorem lift_of_error {answer : Except MachineError α} {e : MachineError}
    (h : answer = .error e) : (lift answer : RunM δ ω α) s = .error e s := by
  rw [h]
  rfl

theorem onGuest_of_ok {step : GuestM α} {g : Guest} (h : step s.thread.guest = .ok a g) :
    onGuest step s = .ok a { s with thread := { s.thread with guest := g } } := by
  unfold onGuest
  rw [h]

theorem onGuest_of_error {step : GuestM α} {e : MachineError} {g : Guest}
    (h : step s.thread.guest = .error e g) :
    onGuest step s = .error e { s with thread := { s.thread with guest := g } } := by
  unfold onGuest
  rw [h]

end Lifting

variable {δ ω : Type} (cpu : Cpu δ ω) (f : Fragment) (s : Running δ ω) (machine : MachineState)
  (m : AddressSpace) (spill : Vector Word spillSlotCount)

theorem spill_at {slot : SpillSlot} (hslot : slot.number.toNat < spillSlotCount) (value : Word) :
    Cpu.spill slot value (s.at machine m spill) =
      .ok () (s.at machine m (spill.setIfInBounds slot.number.toNat value)) := by
  have hset : (s.at machine m spill).thread.setSpilled slot value =
      .ok (s.at machine m (spill.setIfInBounds slot.number.toNat value)).thread := by
    rw [Thread.setSpilled, if_pos hslot]
    rfl
  unfold Cpu.spill
  rw [Step.bind_apply, Step.get_apply]
  exact Step.bind_of_ok (lift_of_ok hset)

theorem spilled_at {slot : SpillSlot} {value : Word}
    (hvalue : spill[slot.number.toNat]? = some value) :
    Cpu.spilled slot (s.at machine m spill) = .ok value (s.at machine m spill) := by
  have hspilled : (s.at machine m spill).thread.spilled slot = .ok value := by
    unfold Thread.spilled
    simp only [Running.at, hvalue]
  unfold Cpu.spilled
  rw [Step.bind_apply, Step.get_apply]
  exact lift_of_ok hspilled

theorem executeNode_spill (r : Register) (slot : SpillSlot)
    (hslot : slot.number.toNat < spillSlotCount) :
    cpu.executeNode f (.injected (.spill r slot)) (s.at machine m spill) =
      .ok .next (s.at machine m (spill.setIfInBounds slot.number.toNat (machine.get r))) :=
  Step.bind_of_ok (spill_at s machine m spill hslot (machine.get r))

theorem executeNode_saveFlags (slot : SpillSlot) (hslot : slot.number.toNat < spillSlotCount) :
    cpu.executeNode f (.injected (.saveFlags slot)) (s.at machine m spill) =
      .ok .next (s.at machine m
        (spill.setIfInBounds slot.number.toNat machine.flags.toWord)) :=
  Step.bind_of_ok (spill_at s machine m spill hslot machine.flags.toWord)

theorem executeNode_restore (r : Register) (slot : SpillSlot) (value : Word)
    (hvalue : spill[slot.number.toNat]? = some value) :
    cpu.executeNode f (.injected (.restore r slot)) (s.at machine m spill) =
      .ok .next (s.at (machine.set r value) m spill) :=
  Step.bind_of_ok (spilled_at s machine m spill hvalue)

theorem executeNode_restoreFlags (slot : SpillSlot) (value : Word)
    (hvalue : spill[slot.number.toNat]? = some value) :
    cpu.executeNode f (.injected (.restoreFlags slot)) (s.at machine m spill) =
      .ok .next (s.at { machine with flags := .ofWord value } m spill) :=
  Step.bind_of_ok (spilled_at s machine m spill hvalue)

theorem executeNode_loadAddress (dst : Register) (mem : MemoryOperand) :
    cpu.executeNode f (.injected (.loadAddress dst mem)) (s.at machine m spill) =
      .ok .next (s.at (machine.set dst (machine.effectiveAddress mem)) m spill) := rfl

theorem executeNode_readField (dst : Register) {field : FieldIndex} {word : Word}
    (hword : s.thread.fieldWord field = .ok word) :
    cpu.executeNode f (.injected (.readField dst field)) (s.at machine m spill) =
      .ok .next (s.at (machine.set dst word) m spill) := by
  have hfield : (s.at machine m spill).thread.fieldWord field = .ok word := hword
  exact Step.bind_of_ok (lift_of_ok hfield)

theorem executeNode_load (dst base : Register) {disp : Int32} {value : Word}
    (hload : m.load (machine.get base + disp.toInt64.toUInt64).toNat 8 = .ok value) :
    cpu.executeNode f (.injected (.load dst base disp)) (s.at machine m spill) =
      .ok .next (s.at (machine.set dst value) m spill) := by
  have hguest : (do Guest.setRegister dst (← Guest.load
      (machine.get base + disp.toInt64.toUInt64) 8) : GuestM Unit)
      (s.at machine m spill).thread.guest = .ok () ⟨machine.set dst value, m⟩ :=
    Step.bind_of_ok (Guest.load_of_ok ⟨machine, m⟩ hload)
  exact Step.bind_of_ok (onGuest_of_ok hguest)

theorem executeNode_store (base src : Register) {disp : Int32} {n : AddressSpace}
    (hstore : m.store (machine.get base + disp.toInt64.toUInt64).toNat 8 (machine.get src) =
      .ok n) :
    cpu.executeNode f (.injected (.store base disp src)) (s.at machine m spill) =
      .ok .next (s.at machine n spill) := by
  have hguest : (Guest.register src >>= fun value =>
      Guest.store (machine.get base + disp.toInt64.toUInt64) 8 value)
      (s.at machine m spill).thread.guest = .ok () ⟨machine, n⟩ :=
    (Step.bind_of_ok (Guest.register_apply ⟨machine, m⟩ src)).trans
      (Guest.store_of_ok ⟨machine, m⟩ hstore)
  exact Step.bind_of_ok (onGuest_of_ok hguest)

theorem executeNode_storeImmediate (base : Register) {disp : Int32} {value : Word}
    {width : StoreWidth} {n : AddressSpace}
    (hstore : m.store (machine.get base + disp.toInt64.toUInt64).toNat width.bytes value =
      .ok n) :
    cpu.executeNode f (.injected (.storeImmediate base disp value width)) (s.at machine m spill) =
      .ok .next (s.at machine n spill) := by
  have hguest : Guest.store (machine.get base + disp.toInt64.toUInt64) width.bytes value
      (s.at machine m spill).thread.guest = .ok () ⟨machine, n⟩ :=
    Guest.store_of_ok ⟨machine, m⟩ hstore
  exact Step.bind_of_ok (onGuest_of_ok hguest)

/-! ### Failures -/

theorem displaced_at (base : Register) (disp : Int32) :
    displaced base disp (s.at machine m spill) =
      .ok (machine.get base + disp.toInt64.toUInt64) (s.at machine m spill) := rfl

theorem executeNode_readField_error (dst : Register) {field : FieldIndex} {e : MachineError}
    (hword : s.thread.fieldWord field = .error e) :
    cpu.executeNode f (.injected (.readField dst field)) (s.at machine m spill) =
      .error e (s.at machine m spill) := by
  have hfield : (s.at machine m spill).thread.fieldWord field = .error e := hword
  exact (Step.bind_of_ok (Step.get_apply _)).trans (Step.bind_of_error (lift_of_error hfield))

theorem executeNode_load_error (dst base : Register) {disp : Int32} {e : MachineError}
    (hload : m.load (machine.get base + disp.toInt64.toUInt64).toNat 8 = .error e) :
    cpu.executeNode f (.injected (.load dst base disp)) (s.at machine m spill) =
      .error e (s.at machine m spill) := by
  have hguest : Guest.load (machine.get base + disp.toInt64.toUInt64) 8 ⟨machine, m⟩ =
      .error e ⟨machine, m⟩ := by
    rw [Guest.load_apply, hload]
  exact (Step.bind_of_ok (displaced_at s machine m spill base disp)).trans
    (Step.bind_of_error (onGuest_of_error (s := s.at machine m spill) (Step.bind_of_error hguest)))

theorem executeNode_store_error (base src : Register) {disp : Int32} {e : MachineError}
    (hstore : m.store (machine.get base + disp.toInt64.toUInt64).toNat 8 (machine.get src) =
      .error e) :
    cpu.executeNode f (.injected (.store base disp src)) (s.at machine m spill) =
      .error e (s.at machine m spill) := by
  have hguest : Guest.store (machine.get base + disp.toInt64.toUInt64) 8 (machine.get src)
      ⟨machine, m⟩ = .error e ⟨machine, m⟩ := by
    rw [Guest.store_apply, hstore]
  exact (Step.bind_of_ok (displaced_at s machine m spill base disp)).trans
    (Step.bind_of_error (onGuest_of_error (s := s.at machine m spill)
      ((Step.bind_of_ok (Guest.register_apply ⟨machine, m⟩ src)).trans hguest)))

theorem executeNode_storeImmediate_error (base : Register) {disp : Int32} {value : Word}
    {width : StoreWidth} {e : MachineError}
    (hstore : m.store (machine.get base + disp.toInt64.toUInt64).toNat width.bytes value =
      .error e) :
    cpu.executeNode f (.injected (.storeImmediate base disp value width)) (s.at machine m spill) =
      .error e (s.at machine m spill) := by
  have hguest : Guest.store (machine.get base + disp.toInt64.toUInt64) width.bytes value
      ⟨machine, m⟩ = .error e ⟨machine, m⟩ := by
    rw [Guest.store_apply, hstore]
  exact (Step.bind_of_ok (displaced_at s machine m spill base disp)).trans
    (Step.bind_of_error (onGuest_of_error (s := s.at machine m spill) hguest))

/-! ### The rest -/

theorem executeNode_sum (dst base : Register) (index : Option Register) (disp : Int32) :
    cpu.executeNode f (.injected (.sum dst base index disp)) (s.at machine m spill) =
      .ok .next (s.at (machine.set dst (machine.get base + disp.toInt64.toUInt64 +
        (index.map machine.get).getD 0)) m spill) := rfl

theorem executeNode_testZero (r : Register) :
    cpu.executeNode f (.injected (.testZero r)) (s.at machine m spill) =
      .ok .next (s.at { machine with
        flags := ⟨machine.get r == 0, machine.get r >>> 63 != 0, false⟩ } m spill) := rfl

theorem executeNode_label (l : Label) :
    cpu.executeNode f (.injected (.label l)) s = .ok .next s := rfl

theorem executeNode_jumpIfCounterZero {target : Label} {index : Nat}
    (hlabel : f.labelIndex target = .ok index) :
    cpu.executeNode f (.injected (.jumpIfCounterZero target)) (s.at machine m spill) =
      .ok (if machine.get .rcx = 0 then .goto index else .next) (s.at machine m spill) := by
  change (if machine.get .rcx = 0 then
    (do return .goto (← lift (f.labelIndex target)) : RunM δ ω Flow) else pure .next)
      (s.at machine m spill) = _
  split
  · exact Step.bind_of_ok (lift_of_ok hlabel)
  · rfl

theorem executeNode_jumpIfZero {target : Label} {index : Nat}
    (hlabel : f.labelIndex target = .ok index) :
    cpu.executeNode f (.injected (.jumpIfZero target)) (s.at machine m spill) =
      .ok (if machine.flags.zero then .goto index else .next) (s.at machine m spill) := by
  change (if machine.flags.zero then
    (do return .goto (← lift (f.labelIndex target)) : RunM δ ω Flow) else pure .next)
      (s.at machine m spill) = _
  split
  · exact Step.bind_of_ok (lift_of_ok hlabel)
  · rfl

theorem executeNode_jump {target : Label} {index : Nat}
    (hlabel : f.labelIndex target = .ok index) :
    cpu.executeNode f (.injected (.jump target)) s = .ok (.goto index) s :=
  Step.bind_of_ok (lift_of_ok hlabel)

theorem executeNode_labelAddress (dst : Register) {l : Label} {index : Nat}
    (hlabel : f.labelIndex l = .ok index) :
    cpu.executeNode f (.injected (.labelAddress dst l)) (s.at machine m spill) =
      .ok .next (s.at (machine.set dst (UInt64.ofNat (f.addressOf index))) m spill) :=
  Step.bind_of_ok (lift_of_ok hlabel)

theorem executeNode_jumpTo (target : Word) :
    cpu.executeNode f (.injected (.jumpTo target)) s = .ok (.transfer target) s := rfl

theorem executeNode_jumpIndirect (r : Register) :
    cpu.executeNode f (.injected (.jumpIndirect r)) s =
      .ok (.transfer (s.thread.guest.machine.get r)) s := rfl

/-- A host call keeps the machine as it is, whatever the routine does to the rest. -/
theorem executeNode_hostCall {id : RoutineId} {routine : Routine δ ω} {t : Running δ ω}
    (hroutine : cpu.routines[id.number.toNat]? = some routine) (h : routine s = .ok () t) :
    cpu.executeNode f (.injected (.hostCall id)) s =
      .ok .next (t.at s.thread.guest.machine t.thread.guest.memory t.thread.spill) := by
  have hcall : call cpu.routines id s =
      .ok () (t.at s.thread.guest.machine t.thread.guest.memory t.thread.spill) := by
    have hmachine : (machine : RunM δ ω MachineState) s = .ok s.thread.guest.machine s := rfl
    unfold call
    rw [Step.bind_of_ok hmachine]
    simp only [hroutine]
    exact Step.bind_of_ok h
  exact Step.bind_of_ok hcall

/-- An application instruction that succeeds. -/
theorem executeNode_app {i : Instruction} {machine' : MachineState} {m' : AddressSpace}
    (h : i.execute ⟨machine, m⟩ = .ok () ⟨machine', m'⟩) :
    cpu.executeNode f (.app i) (s.at machine m spill) = .ok .next (s.at machine' m' spill) := by
  have hguest : i.execute (s.at machine m spill).thread.guest = .ok () ⟨machine', m'⟩ := h
  exact Step.bind_of_ok (onGuest_of_ok hguest)

theorem executeNode_app_error {i : Instruction} {e : MachineError} {machine' : MachineState}
    {m' : AddressSpace} (h : i.execute ⟨machine, m⟩ = .error e ⟨machine', m'⟩) :
    cpu.executeNode f (.app i) (s.at machine m spill) = .error e (s.at machine' m' spill) := by
  have hguest : i.execute (s.at machine m spill).thread.guest = .error e ⟨machine', m'⟩ := h
  exact Step.bind_of_error (onGuest_of_error hguest)

end Cpu

end AccessTrace
