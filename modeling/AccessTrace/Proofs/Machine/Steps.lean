import AccessTrace.Machine.Execute
import AccessTrace.Proofs.LittleEndian

/-!
# Steps of application code

Each step that an instruction is made of, as what it gives on a guest. A step of several parts
succeeds exactly if its parts do, one after the other.
-/

namespace AccessTrace

/-! ## Steps in sequence -/

section Sequence

variable {ε σ α β : Type} {x : EStateM ε σ α} {f : α → EStateM ε σ β} {s t u : σ} {a : α} {b : β}

theorem Step.bind_apply (x : EStateM ε σ α) (f : α → EStateM ε σ β) (s : σ) :
    (x >>= f) s = match x s with
      | .ok a s => f a s
      | .error e s => .error e s := rfl

theorem Step.bind_of_ok (h : x s = .ok a t) : (x >>= f) s = f a t := by
  rw [bind_apply, h]

theorem Step.discard_of_ok (h : x s = .ok a t) : (discard x : EStateM ε σ PUnit) s = .ok ⟨⟩ t := by
  change (x >>= fun _ => pure PUnit.unit) s = _
  rw [bind_of_ok h]
  rfl

theorem Step.bind_of_error {e : ε} (h : x s = .error e t) : (x >>= f) s = .error e t := by
  rw [bind_apply, h]

theorem Step.discard_of_error {e : ε} (h : x s = .error e t) :
    (discard x : EStateM ε σ PUnit) s = .error e t := by
  change (x >>= fun _ => pure PUnit.unit) s = _
  rw [bind_of_error h]

theorem Step.bind_eq_ok (h : (x >>= f) s = .ok b u) :
    ∃ a t, x s = .ok a t ∧ f a t = .ok b u := by
  rw [bind_apply] at h
  cases hx : x s with
  | ok a t =>
    rw [hx] at h
    exact ⟨a, t, rfl, h⟩
  | error e t =>
    rw [hx] at h
    contradiction

/-- A sequence fails in its first part, or in what follows a success of it. -/
theorem Step.bind_eq_error {e : ε} (h : (x >>= f) s = .error e u) :
    x s = .error e u ∨ ∃ a t, x s = .ok a t ∧ f a t = .error e u := by
  rw [bind_apply] at h
  cases hx : x s with
  | ok a t =>
    rw [hx] at h
    exact Or.inr ⟨a, t, rfl, h⟩
  | error e' t =>
    rw [hx] at h
    injection h with he ht
    exact Or.inl (by rw [he, ht])

/-- The state after a step, whether it succeeds or fails. -/
def Step.final (x : EStateM ε σ α) (s : σ) : σ :=
  match x s with
  | .ok _ s => s
  | .error _ s => s

theorem Step.final_of_ok (h : x s = .ok a t) : final x s = t := by
  unfold final
  rw [h]

theorem Step.final_of_error {e : ε} (h : x s = .error e t) : final x s = t := by
  unfold final
  rw [h]

/-- To answer otherwise does not change the state of a step. -/
theorem Step.final_map (x : EStateM ε σ α) (g : α → β) (s : σ) :
    final (x >>= fun a => pure (g a)) s = final x s := by
  cases hx : x s with
  | ok a t =>
    have hmap : (x >>= fun a => pure (g a)) s = .ok (g a) t := bind_of_ok hx
    rw [final_of_ok hx, final_of_ok hmap]
  | error e t => rw [final_of_error hx, final_of_error (bind_of_error hx)]

theorem Step.final_discard (x : EStateM ε σ α) (s : σ) :
    final (discard x : EStateM ε σ PUnit) s = final x s :=
  final_map x (fun _ => PUnit.unit) s

@[simp] theorem Step.pure_apply (a : α) (s : σ) : (pure a : EStateM ε σ α) s = .ok a s := rfl

@[simp] theorem Step.throw_apply (e : ε) (s : σ) : (throw e : EStateM ε σ α) s = .error e s := rfl

@[simp] theorem Step.get_apply (s : σ) : (get : EStateM ε σ σ) s = .ok s s := rfl

@[simp] theorem Step.set_apply (s t : σ) : (set t : EStateM ε σ PUnit) s = .ok ⟨⟩ t := rfl

@[simp] theorem Step.modify_apply (g : σ → σ) (s : σ) :
    (modify g : EStateM ε σ PUnit) s = .ok ⟨⟩ (g s) := rfl

end Sequence

/-! ## Steps on a guest -/

namespace Guest

variable (g : Guest)

@[simp] theorem register_apply (r : Register) : register r g = .ok (g.machine.get r) g := rfl

@[simp] theorem setRegister_apply (r : Register) (value : Word) :
    setRegister r value g = .ok () { g with machine := g.machine.set r value } := rfl

@[simp] theorem setFlags_apply (flags : ArithmeticFlags) :
    setFlags flags g = .ok () { g with machine := { g.machine with flags } } := rfl

@[simp] theorem setMemory_apply (memory : AddressSpace) :
    setMemory memory g = .ok () { g with memory } := rfl

theorem load_apply (address : Word) (width : Nat) :
    load address width g = match g.memory.load address.toNat width with
      | .ok value => .ok value g
      | .error e => .error e g := by
  change lift (g.memory.load address.toNat width) g = _
  cases g.memory.load address.toNat width <;> rfl

theorem store_apply (address : Word) (width : Nat) (value : Word) :
    store address width value g = match g.memory.store address.toNat width value with
      | .ok memory => .ok () { g with memory }
      | .error e => .error e g := by
  change (lift (g.memory.store address.toNat width value) >>= setMemory) g = _
  cases g.memory.store address.toNat width value <;> rfl

/-- Replaces the memory by an all-or-nothing answer. -/
def replaceMemory (answer : Except MachineError AddressSpace) : GuestM Unit := do
  setMemory (← lift answer)

@[simp] theorem replaceMemory_ok (memory : AddressSpace) :
    replaceMemory (.ok memory) g = .ok () { g with memory } := rfl

@[simp] theorem replaceMemory_error (e : MachineError) :
    replaceMemory (.error e) g = .error e g := rfl

theorem load_of_ok {address : Word} {width : Nat} {value : Word}
    (h : g.memory.load address.toNat width = .ok value) : load address width g = .ok value g := by
  rw [load_apply, h]

theorem store_of_ok {address : Word} {width : Nat} {value : Word} {memory : AddressSpace}
    (h : g.memory.store address.toNat width value = .ok memory) :
    store address width value g = .ok () { g with memory } := by
  rw [store_apply, h]

end Guest

/-! ## The stack -/

theorem popWord_apply (g : Guest) :
    popWord g = match g.memory.load (g.machine.get .rsp).toNat pointerSize with
      | .ok value =>
        .ok value { g with machine := g.machine.set .rsp (g.machine.get .rsp + 8) }
      | .error e => .error e g := by
  change (Guest.load (g.machine.get .rsp) pointerSize >>= fun value =>
    (do Guest.setRegister .rsp (g.machine.get .rsp + 8); return value)) g = _
  rw [Step.bind_apply, Guest.load_apply]
  cases g.memory.load (g.machine.get .rsp).toNat pointerSize <;> rfl

/-! ## Operands -/

namespace Operand

open Guest

theorem value_memory (mem : MemoryOperand) (g : Guest) :
    (memory mem).value g =
      if AddressSpace.isScalarWidth mem.size.bytes then
        load (g.machine.effectiveAddress mem) mem.size.bytes g
      else .error (.badOperand .regionAsScalar) g := by
  change (mem.scalarWidth >>= fun width => load (g.machine.effectiveAddress mem) width) g = _
  unfold MemoryOperand.scalarWidth
  split <;> rfl

theorem assign_immediate (v : Int64) (value : Word) (g : Guest) :
    (immediate v).assign value g = .error (.badOperand .immediateDestination) g := rfl

theorem assign_memory (mem : MemoryOperand) (value : Word) (g : Guest) :
    (memory mem).assign value g =
      if AddressSpace.isScalarWidth mem.size.bytes then
        store (g.machine.effectiveAddress mem) mem.size.bytes value g
      else .error (.badOperand .regionAsScalar) g := by
  change (mem.scalarWidth >>= fun width =>
    store (g.machine.effectiveAddress mem) width value) g = _
  unfold MemoryOperand.scalarWidth
  split <;> rfl

end Operand

/-! ## Constructed instructions -/

namespace Instruction

/-- The instructions that the constructors give, at an application address or without one. -/
inductive Constructed : Instruction → Prop where
  | nop (address : Option Word) : Constructed { nop 0 with address }
  | mov (address : Option Word) (dst src : Operand) : Constructed { mov 0 dst src with address }
  | ternary (op : Opcode) (address : Option Word) (dst a b : Operand) (h : op = .add ∨ op = .sub) :
    Constructed { ternary op 0 dst a b with address }
  | cmp (address : Option Word) (a b : Operand) : Constructed { cmp 0 a b with address }
  | setz (address : Option Word) (dst : Register) : Constructed { setz 0 dst with address }
  | push (address : Option Word) (src : Operand) : Constructed { push 0 src with address }
  | pop (address : Option Word) (dst : Operand) : Constructed { pop 0 dst with address }
  | enter (address : Option Word) (frame : UInt16) (nesting : UInt8) :
    Constructed { enter 0 frame nesting with address }
  | leave (address : Option Word) : Constructed { leave 0 with address }
  | movs (address : Option Word) (size : OperandSize) : Constructed { movs 0 size with address }
  | cmps (address : Option Word) (size : OperandSize) : Constructed { cmps 0 size with address }
  | fxsave (address : Option Word) (dst : MemoryOperand) : Constructed { fxsave 0 dst with address }

/-- Instructions with two operands are among them. -/
theorem constructed_add (pc : Word) (dst src : Operand) : (add pc dst src).Constructed :=
  .ternary .add (some pc) dst dst src (Or.inl rfl)

theorem constructed_sub (pc : Word) (dst src : Operand) : (sub pc dst src).Constructed :=
  .ternary .sub (some pc) dst dst src (Or.inr rfl)

/-- The register image is shorter than the region that is cleared for it. -/
theorem length_registerImage (m : MachineState) : (registerImage m fxsaveLength).length = 128 := by
  simp [registerImage, fxsaveLength, Register.all]

theorem execute_fxsave {i : Instruction} (h : i.opcode = .fxsave) :
    i.execute = i.executeFxsave := by
  rw [execute, h]

/-- The region is cleared as a whole before the registers are stored at its start. -/
theorem executeFxsave_apply {i : Instruction} {mem : MemoryOperand} (length : Nat)
    (hi : i.destinations = [.memory mem]) (hlength : mem.size.bytes = length)
    (machine : MachineState) (himage : (registerImage machine length).isEmpty = false)
    (m : AddressSpace) :
    i.executeFxsave ⟨machine, m⟩ = Guest.replaceMemory
      ((m.fill (machine.effectiveAddress mem).toNat length 0).bind
        (·.write (machine.effectiveAddress mem).toNat (registerImage machine length)))
      ⟨machine, m⟩ := by
  have hoperand : operandAt i.destinations 0 "fxsave" = pure (.memory mem) := by
    rw [hi]
    rfl
  rw [executeFxsave, hoperand]
  change (Guest.lift (m.fill (machine.effectiveAddress mem).toNat mem.size.bytes 0) >>=
    fun cleared =>
      if (registerImage machine mem.size.bytes).isEmpty then Guest.setMemory cleared
      else Guest.replaceMemory (cleared.write (machine.effectiveAddress mem).toNat
        (registerImage machine mem.size.bytes))) ⟨machine, m⟩ = _
  rw [hlength, himage, Step.bind_apply]
  cases m.fill (machine.effectiveAddress mem).toNat length 0 <;> rfl

end Instruction

end AccessTrace
