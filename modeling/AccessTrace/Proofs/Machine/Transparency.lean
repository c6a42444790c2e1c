import AccessTrace.Proofs.Machine.Steps
import AccessTrace.Proofs.Memory.Embedding

/-!
# Instructions in a larger memory

An application instruction does the same in a memory as in one that is embedded in it: the
registers and flags come out alike, so do the bytes of the inner memory, and the bytes beside it
stay. It also fails alike, unless the failure is a fault in a region of the outer memory alone.
The property is proved once for each basic step and carried through sequences.
-/

namespace AccessTrace

open AddressSpace (Embeds Beside ForeignFault)

/-- The outcome in the inner memory is the outcome in the outer one. -/
structure Transparent {α : Type} (step : GuestM α) : Prop where
  outcome (machine : MachineState) (m M : AddressSpace) : Embeds m M →
    match step ⟨machine, m⟩ with
    | .ok a g => g.memory.layout = m.layout ∧ ∃ M', step ⟨machine, M⟩ = .ok a ⟨g.machine, M'⟩ ∧
        Embeds g.memory M' ∧ Beside m M M'
    | .error e g => ForeignFault m M e ∨
        g.memory.layout = m.layout ∧ ∃ M', step ⟨machine, M⟩ = .error e ⟨g.machine, M'⟩ ∧
          Embeds g.memory M' ∧ Beside m M M'

namespace Transparent

variable {α β : Type} {step : GuestM α} {next : α → GuestM β}

/-- A step that looks at the machine only, or changes it. -/
theorem of_machine (h : ∀ machine, ∃ a machine', ∀ m, step ⟨machine, m⟩ = .ok a ⟨machine', m⟩) :
    Transparent step := by
  refine ⟨fun machine m M hembeds => ?_⟩
  obtain ⟨a, machine', hstep⟩ := h machine
  rw [hstep m]
  exact ⟨rfl, M, hstep M, hembeds, .refl m M⟩

theorem pure (a : α) : Transparent (Pure.pure a : GuestM α) :=
  of_machine fun machine => ⟨a, machine, fun _ => rfl⟩

theorem throw (e : MachineError) : Transparent (MonadExcept.throw e : GuestM α) := by
  refine ⟨fun machine m M hembeds => ?_⟩
  exact Or.inr ⟨rfl, M, rfl, hembeds, .refl m M⟩

theorem bind (hstep : Transparent step) (hnext : ∀ a, Transparent (next a)) :
    Transparent (step >>= next) := by
  refine ⟨fun machine m M hembeds => ?_⟩
  have hfirst := hstep.outcome machine m M hembeds
  rw [Step.bind_apply]
  cases hok : step ⟨machine, m⟩ with
  | error e g =>
    rw [hok] at hfirst
    rcases hfirst with hforeign | ⟨hlayout, M', houter, hrest⟩
    · exact Or.inl hforeign
    · exact Or.inr ⟨hlayout, M', Step.bind_of_error houter, hrest⟩
  | ok a g =>
    rw [hok] at hfirst
    obtain ⟨hlayout, M₁, houter, hembeds₁, hbeside⟩ := hfirst
    have hsecond := (hnext a).outcome g.machine g.memory M₁ hembeds₁
    change match next a g with | .ok _ _ => _ | .error _ _ => _
    have hbind : (step >>= next) ⟨machine, M⟩ = next a ⟨g.machine, M₁⟩ := Step.bind_of_ok houter
    cases hlast : next a g with
    | ok b t =>
      rw [hlast] at hsecond
      obtain ⟨hlayout₂, M₂, houter₂, hembeds₂, hbeside₂⟩ := hsecond
      exact ⟨hlayout₂.trans hlayout, M₂, hbind.trans houter₂, hembeds₂,
        hbeside.trans hlayout hbeside₂⟩
    | error e t =>
      rw [hlast] at hsecond
      rcases hsecond with hforeign | ⟨hlayout₂, M₂, houter₂, hembeds₂, hbeside₂⟩
      · exact Or.inl (hforeign.of_layout hlayout.symm hbeside.layout.symm)
      · exact Or.inr ⟨hlayout₂.trans hlayout, M₂, hbind.trans houter₂, hembeds₂,
          hbeside.trans hlayout hbeside₂⟩

/-- A step may be written another way, depending on the machine it starts from. -/
theorem congr (h : ∀ machine, ∃ step' : GuestM α, Transparent step' ∧
    ∀ m, step ⟨machine, m⟩ = step' ⟨machine, m⟩) : Transparent step := by
  refine ⟨fun machine m M hembeds => ?_⟩
  obtain ⟨step', hstep', heq⟩ := h machine
  rw [heq m, heq M]
  exact hstep'.outcome machine m M hembeds

theorem register (r : Register) : Transparent (Guest.register r) :=
  of_machine fun machine => ⟨machine.get r, machine, fun _ => rfl⟩

theorem setRegister (r : Register) (value : Word) : Transparent (Guest.setRegister r value) :=
  of_machine fun machine => ⟨(), machine.set r value, fun _ => rfl⟩

theorem setFlags (flags : ArithmeticFlags) : Transparent (Guest.setFlags flags) :=
  of_machine fun machine => ⟨(), { machine with flags }, fun _ => rfl⟩

theorem load (address : Word) (width : Nat) : Transparent (Guest.load address width) := by
  refine ⟨fun machine m M hembeds => ?_⟩
  rw [Guest.load_apply, Guest.load_apply]
  cases hload : m.load address.toNat width with
  | ok value =>
    exact ⟨rfl, M, by rw [hembeds.load hload], hembeds, .refl m M⟩
  | error e =>
    rcases hembeds.load_error hload with houter | hforeign
    · exact Or.inr ⟨rfl, M, by rw [houter], hembeds, .refl m M⟩
    · exact Or.inl hforeign

theorem store (address : Word) (width : Nat) (value : Word) :
    Transparent (Guest.store address width value) := by
  refine ⟨fun machine m M hembeds => ?_⟩
  rw [Guest.store_apply, Guest.store_apply]
  cases hstore : m.store address.toNat width value with
  | ok m' =>
    obtain ⟨M', houter, hembeds', hlayout, hbeside⟩ := hembeds.store hstore
    exact ⟨hlayout, M', by rw [houter], hembeds', hbeside⟩
  | error e =>
    rcases hembeds.store_error hstore with houter | hforeign
    · exact Or.inr ⟨rfl, M, by rw [houter], hembeds, .refl m M⟩
    · exact Or.inl hforeign

end Transparent

/-! ## Parts of instructions -/

theorem Operand.transparent_value (op : Operand) : Transparent op.value := by
  cases op with
  | register r => exact .register r
  | immediate v => exact .pure v.toUInt64
  | memory mem =>
    refine .congr fun machine => ?_
    by_cases hwidth : AddressSpace.isScalarWidth mem.size.bytes = true
    · refine ⟨_, .load (machine.effectiveAddress mem) mem.size.bytes, fun m => ?_⟩
      rw [value_memory, if_pos hwidth]
    · refine ⟨_, .throw (.badOperand .regionAsScalar), fun m => ?_⟩
      rw [value_memory, if_neg hwidth]
      rfl

theorem Operand.transparent_assign (op : Operand) (value : Word) :
    Transparent (op.assign value) := by
  cases op with
  | register r => exact .setRegister r value
  | immediate v => exact .throw (.badOperand .immediateDestination)
  | memory mem =>
    refine .congr fun machine => ?_
    by_cases hwidth : AddressSpace.isScalarWidth mem.size.bytes = true
    · refine ⟨_, .store (machine.effectiveAddress mem) mem.size.bytes value, fun m => ?_⟩
      rw [assign_memory, if_pos hwidth]
    · refine ⟨_, .throw (.badOperand .regionAsScalar), fun m => ?_⟩
      rw [assign_memory, if_neg hwidth]
      rfl

theorem transparent_operandAt (ops : List Operand) (i : Nat) (instruction : String) :
    Transparent (operandAt ops i instruction) := by
  unfold operandAt
  split
  · exact .pure _
  · exact .throw _

theorem transparent_pushWord (value : Word) : Transparent (pushWord value) :=
  (Transparent.register .rsp).bind fun top =>
    (Transparent.store (top - 8) pointerSize value).bind fun _ => .setRegister .rsp (top - 8)

theorem transparent_popWord : Transparent popWord :=
  (Transparent.register .rsp).bind fun top =>
    (Transparent.load top pointerSize).bind fun value =>
      (Transparent.setRegister .rsp (top + 8)).bind fun _ => .pure value

theorem transparent_pushFrames (count : Nat) (frame : Word) :
    Transparent (pushFrames count frame) := by
  induction count generalizing frame with
  | zero => exact .pure ()
  | succ count ih =>
    exact (Transparent.load (frame - 8) pointerSize).bind fun value =>
      (transparent_pushWord value).bind fun _ => ih (frame - 8)

/-! ## Instructions -/

namespace Instruction

theorem transparent_advance (r : Register) (length : Nat) : Transparent (advance r length) :=
  (Transparent.register r).bind fun value => .setRegister r (value + UInt64.ofNat length)

theorem transparent_executeMov (i : Instruction) : Transparent i.executeMov :=
  (transparent_operandAt i.sources 0 "mov").bind fun src =>
    src.transparent_value.bind fun value =>
      (transparent_operandAt i.destinations 0 "mov").bind fun dst => dst.transparent_assign value

theorem transparent_executeArithmetic (i : Instruction) (op : ArithmeticOp) (keepsResult : Bool) :
    Transparent (i.executeArithmetic op keepsResult) := by
  refine (transparent_operandAt i.sources 0 "arith").bind fun first =>
    first.transparent_value.bind fun a => (transparent_operandAt i.sources 1 "arith").bind
      fun second => second.transparent_value.bind fun b => ?_
  cases keepsResult with
  | true =>
    exact (transparent_operandAt i.destinations 0 "arith").bind fun dst =>
      (dst.transparent_assign _).bind fun _ => .setFlags _
  | false => exact .setFlags _

theorem transparent_executeSetz (i : Instruction) : Transparent i.executeSetz := by
  refine .congr fun machine => ⟨do
    (← operandAt i.destinations 0 "setz").assign (if machine.flags.zero then 1 else 0), ?_,
      fun m => rfl⟩
  exact (transparent_operandAt i.destinations 0 "setz").bind fun dst => dst.transparent_assign _

theorem transparent_executePush (i : Instruction) : Transparent i.executePush :=
  (transparent_operandAt i.sources 0 "push").bind fun src =>
    src.transparent_value.bind fun value => transparent_pushWord value

theorem transparent_executePop (i : Instruction) : Transparent i.executePop :=
  transparent_popWord.bind fun value =>
    (transparent_operandAt i.destinations 0 "pop").bind fun dst => dst.transparent_assign value

theorem transparent_executeEnter (i : Instruction) : Transparent i.executeEnter := by
  refine (transparent_operandAt i.sources 0 "enter").bind fun size =>
    size.transparent_value.bind fun frame => (transparent_operandAt i.sources 1 "enter").bind
      fun count => count.transparent_value.bind fun nesting =>
        (Transparent.register .rbp).bind fun outer => (transparent_pushWord outer).bind fun _ =>
          (Transparent.register .rsp).bind fun inner => ?_
  have hframe : Transparent (do
      Guest.setRegister .rbp inner
      Guest.setRegister .rsp ((← Guest.register .rsp) - frame)) :=
    (Transparent.setRegister .rbp inner).bind fun _ => (Transparent.register .rsp).bind fun top =>
      .setRegister .rsp (top - frame)
  split
  · exact (transparent_pushFrames _ outer).bind fun _ =>
      (transparent_pushWord inner).bind fun _ => hframe
  · exact hframe

theorem transparent_executeLeave : Transparent executeLeave :=
  (Transparent.register .rbp).bind fun frame => (Transparent.setRegister .rsp frame).bind fun _ =>
    transparent_popWord.bind fun value => .setRegister .rbp value

theorem transparent_executeMovs (i : Instruction) : Transparent i.executeMovs :=
  (transparent_operandAt i.sources 0 "string op").bind fun source =>
    source.transparent_value.bind fun value =>
      (transparent_operandAt i.destinations 0 "movs").bind fun dst =>
        (dst.transparent_assign value).bind fun _ =>
          (transparent_advance .rsi _).bind fun _ => transparent_advance .rdi _

theorem transparent_executeCmps (i : Instruction) : Transparent i.executeCmps :=
  (transparent_operandAt i.sources 0 "string op").bind fun source =>
    source.transparent_value.bind fun _ => (transparent_operandAt i.sources 1 "cmps").bind
      fun second => second.transparent_value.bind fun _ =>
        (Transparent.setFlags _).bind fun _ =>
          (transparent_advance .rsi _).bind fun _ => transparent_advance .rdi _

theorem transparent_executeFxsave (i : Instruction) (mem : MemoryOperand)
    (hi : i.destinations = [.memory mem]) (hsize : mem.size.bytes = fxsaveLength) :
    Transparent i.executeFxsave := by
  refine ⟨fun machine m M hembeds => ?_⟩
  have himage := length_registerImage machine
  have hnonempty : (registerImage machine fxsaveLength).isEmpty = false := by
    rw [List.isEmpty_eq_false_iff, ← List.length_pos_iff, himage]
    omega
  have hfits : (registerImage machine fxsaveLength).length ≤ fxsaveLength := by
    rw [himage, fxsaveLength]
    omega
  rw [executeFxsave_apply fxsaveLength hi hsize machine hnonempty,
    executeFxsave_apply fxsaveLength hi hsize machine hnonempty]
  cases hclear : (m.fill (machine.effectiveAddress mem).toNat fxsaveLength 0).bind
    (·.write (machine.effectiveAddress mem).toNat (registerImage machine fxsaveLength)) with
  | ok m' =>
    obtain ⟨M', houter, hembeds', hlayout, hbeside⟩ := hembeds.clear (by omega) hfits hclear
    exact ⟨hlayout, M', by rw [houter]; rfl, hembeds', hbeside⟩
  | error e =>
    rcases hembeds.clear_error (by omega) hfits hclear with houter | hforeign
    · exact Or.inr ⟨rfl, M, by rw [houter]; rfl, hembeds, .refl m M⟩
    · exact Or.inl hforeign

theorem Constructed.transparent {i : Instruction} (hi : i.Constructed) : Transparent i.execute := by
  cases hi with
  | nop => exact .pure ()
  | mov => exact transparent_executeMov _
  | ternary op address dst a b hop =>
    rcases hop with rfl | rfl
    · exact transparent_executeArithmetic _ .add true
    · exact transparent_executeArithmetic _ .subtract true
  | cmp => exact transparent_executeArithmetic _ .subtract false
  | setz => exact transparent_executeSetz _
  | push => exact transparent_executePush _
  | pop => exact transparent_executePop _
  | enter => exact transparent_executeEnter _
  | leave => exact transparent_executeLeave
  | movs => exact transparent_executeMovs _
  | cmps => exact transparent_executeCmps _
  | fxsave address dst =>
    let mem : MemoryOperand := { dst with size := .region fxsaveLength }
    exact transparent_executeFxsave _ mem rfl rfl

end Instruction

end AccessTrace
