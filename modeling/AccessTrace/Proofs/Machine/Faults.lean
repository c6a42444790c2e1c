import AccessTrace.Proofs.Machine.StackAccesses

/-!
# What a fault leaves

An instruction reads, computes, and then has its effects. If all that can fail comes before the
first effect, a failure leaves the guest as it was. This is so for every instruction with one effect
that can fail and others after it that cannot: the flags after the destination, the pointers of a
string after the element, the stack pointer after the word. Three instructions have an effect first
and can still fail then. `leave` moves the stack pointer to the frame before it pops, `pop` moves it
before the destination is written, and `enter` pushes its words one by one.
-/

namespace AccessTrace

open Guest

variable {α β : Type} {step : GuestM α} {next : α → GuestM β} {g g' : Guest}

/-! ## Steps that can fail -/

/-- Whether it succeeds or fails, the step changes nothing. -/
def Inert (step : GuestM α) : Prop :=
  ∀ g, Step.final step g = g

/-- The step does not fail. -/
def Sure (step : GuestM α) : Prop :=
  ∀ g, ∃ a g', step g = .ok a g'

/-- If the step fails, it has changed nothing. -/
def Precise (step : GuestM α) : Prop :=
  ∀ ⦃g g' : Guest⦄ ⦃e : MachineError⦄, step g = .error e g' → g' = g

namespace Inert

theorem ok (h : Inert step) {a : α} (hok : step g = .ok a g') : g' = g := by
  rw [← h g, Step.final_of_ok hok]

theorem precise (h : Inert step) : Precise step := by
  intro g g' e herror
  rw [← h g, Step.final_of_error herror]

/-- What is done after a step that changes nothing starts from the same guest. -/
theorem then_precise (h : Inert step) (hnext : ∀ a, Precise (next a)) :
    Precise (step >>= next) := by
  intro g g' e herror
  rcases Step.bind_eq_error herror with hfirst | ⟨a, t, hok, hrest⟩
  · exact h.precise hfirst
  · obtain rfl := h.ok hok
    exact hnext a hrest

theorem bind (h : Inert step) (hnext : ∀ a, Inert (next a)) : Inert (step >>= next) := by
  intro g
  cases hboth : (step >>= next) g with
  | ok b u =>
    obtain ⟨a, t, hok, hrest⟩ := Step.bind_eq_ok hboth
    obtain rfl := h.ok hok
    exact (Step.final_of_ok hboth).trans ((hnext a).ok hrest)
  | error e u =>
    exact (Step.final_of_error hboth).trans
      (h.then_precise (fun a => (hnext a).precise) hboth)

theorem pure (a : α) : Inert (Pure.pure a : GuestM α) := fun _ => rfl

theorem throw (e : MachineError) : Inert (MonadExcept.throw e : GuestM α) := fun _ => rfl

theorem get : Inert (MonadState.get : GuestM Guest) := fun _ => rfl

theorem lift (answer : Except MachineError α) : Inert (Guest.lift answer) := by
  cases answer with
  | ok a => exact pure a
  | error e => exact throw e

theorem register (r : Register) : Inert (Guest.register r) := fun _ => rfl

theorem load (address : Word) (width : Nat) : Inert (Guest.load address width) :=
  get.bind fun _ => lift _

end Inert

namespace Sure

theorem precise (h : Sure step) : Precise step := by
  intro g g' e herror
  obtain ⟨a, t, hok⟩ := h g
  rw [hok] at herror
  contradiction

theorem bind (h : Sure step) (hnext : ∀ a, Sure (next a)) : Sure (step >>= next) := by
  intro g
  obtain ⟨a, t, hok⟩ := h g
  obtain ⟨b, u, hrest⟩ := hnext a t
  exact ⟨b, u, (Step.bind_of_ok hok).trans hrest⟩

theorem pure (a : α) : Sure (Pure.pure a : GuestM α) := fun g => ⟨a, g, rfl⟩

theorem register (r : Register) : Sure (Guest.register r) := fun _ => ⟨_, _, rfl⟩

theorem setRegister (r : Register) (value : Word) : Sure (Guest.setRegister r value) :=
  fun _ => ⟨_, _, rfl⟩

theorem setFlags (flags : ArithmeticFlags) : Sure (Guest.setFlags flags) := fun _ => ⟨_, _, rfl⟩

theorem setMemory (memory : AddressSpace) : Sure (Guest.setMemory memory) := fun _ => ⟨_, _, rfl⟩

end Sure

namespace Precise

/-- What does not fail may change anything. -/
theorem then_sure (h : Precise step) (hnext : ∀ a, Sure (next a)) : Precise (step >>= next) := by
  intro g g' e herror
  rcases Step.bind_eq_error herror with hfirst | ⟨a, t, _, hrest⟩
  · exact h hfirst
  · obtain ⟨b, u, hok⟩ := hnext a t
    rw [hok] at hrest
    contradiction

theorem store (address : Word) (width : Nat) (value : Word) :
    Precise (Guest.store address width value) :=
  Inert.get.then_precise fun _ => (Inert.lift _).then_precise fun memory =>
    (Sure.setMemory memory).precise

end Precise

/-! ## Parts of instructions -/

theorem MemoryOperand.inert_scalarWidth (mem : MemoryOperand) : Inert mem.scalarWidth := by
  unfold scalarWidth
  split
  · exact .pure _
  · exact .throw _

theorem Operand.inert_value (op : Operand) : Inert op.value := by
  cases op with
  | register r => exact .register r
  | immediate v => exact .pure v.toUInt64
  | memory mem => exact Inert.get.bind fun _ => mem.inert_scalarWidth.bind fun _ => .load _ _

theorem Operand.precise_assign (op : Operand) (value : Word) : Precise (op.assign value) := by
  cases op with
  | register r => exact (Sure.setRegister r value).precise
  | immediate v => exact (Inert.throw _).precise
  | memory mem =>
    exact Inert.get.then_precise fun _ => mem.inert_scalarWidth.then_precise fun _ =>
      Precise.store _ _ value

theorem inert_operandAt (ops : List Operand) (i : Nat) (instruction : String) :
    Inert (operandAt ops i instruction) := by
  unfold operandAt
  split
  · exact .pure _
  · exact .throw _

theorem precise_pushWord (value : Word) : Precise (pushWord value) :=
  (Inert.register .rsp).then_precise fun top =>
    (Precise.store (top - 8) pointerSize value).then_sure fun _ => .setRegister .rsp (top - 8)

theorem precise_popWord : Precise popWord :=
  (Inert.register .rsp).then_precise fun top =>
    (Inert.load top pointerSize).then_precise fun value =>
      ((Sure.setRegister .rsp (top + 8)).bind fun _ => .pure value).precise

namespace Instruction

theorem sure_advance (r : Register) (length : Nat) : Sure (advance r length) :=
  (Sure.register r).bind fun value => .setRegister r (value + UInt64.ofNat length)

/-! ## Instructions that a fault leaves undone -/

theorem precise_executeMov (i : Instruction) : Precise i.executeMov :=
  (inert_operandAt i.sources 0 "mov").then_precise fun src =>
    src.inert_value.then_precise fun value =>
      (inert_operandAt i.destinations 0 "mov").then_precise fun dst => dst.precise_assign value

theorem precise_executeArithmetic (i : Instruction) (op : ArithmeticOp) (keepsResult : Bool) :
    Precise (i.executeArithmetic op keepsResult) := by
  refine (inert_operandAt i.sources 0 "arith").then_precise fun first =>
    first.inert_value.then_precise fun a => (inert_operandAt i.sources 1 "arith").then_precise
      fun second => second.inert_value.then_precise fun b => ?_
  cases keepsResult with
  | true =>
    exact (inert_operandAt i.destinations 0 "arith").then_precise fun dst =>
      (dst.precise_assign _).then_sure fun _ => .setFlags _
  | false => exact (Sure.setFlags _).precise

theorem precise_executeSetz (i : Instruction) : Precise i.executeSetz :=
  Inert.get.then_precise fun _ =>
    (inert_operandAt i.destinations 0 "setz").then_precise fun dst => dst.precise_assign _

theorem precise_executePush (i : Instruction) : Precise i.executePush :=
  (inert_operandAt i.sources 0 "push").then_precise fun src =>
    src.inert_value.then_precise fun value => precise_pushWord value

theorem precise_executeMovs (i : Instruction) : Precise i.executeMovs :=
  (inert_operandAt i.sources 0 "string op").then_precise fun source =>
    source.inert_value.then_precise fun value =>
      (inert_operandAt i.destinations 0 "movs").then_precise fun dst =>
        (dst.precise_assign value).then_sure fun _ =>
          (sure_advance .rsi _).bind fun _ => sure_advance .rdi _

theorem precise_executeCmps (i : Instruction) : Precise i.executeCmps :=
  (inert_operandAt i.sources 0 "string op").then_precise fun source =>
    source.inert_value.then_precise fun _ => (inert_operandAt i.sources 1 "cmps").then_precise
      fun second => second.inert_value.then_precise fun _ =>
        ((Sure.setFlags _).bind fun _ =>
          (sure_advance .rsi _).bind fun _ => sure_advance .rdi _).precise

theorem precise_executeFxsave (i : Instruction) : Precise i.executeFxsave := by
  refine (inert_operandAt i.destinations 0 "fxsave").then_precise fun dst => ?_
  split
  · refine Inert.get.then_precise fun g => (Inert.lift _).then_precise fun cleared => ?_
    split
    · exact (Sure.setMemory cleared).precise
    · exact (Inert.lift _).then_precise fun memory => (Sure.setMemory memory).precise
  · exact (Inert.throw _).precise

theorem Constructed.precise {i : Instruction} (hi : i.Constructed) (hleave : i.opcode ≠ .leave)
    (hpop : i.opcode ≠ .pop) (henter : i.opcode ≠ .enter) : Precise i.execute := by
  cases hi with
  | nop => exact (Sure.pure ()).precise
  | mov => exact precise_executeMov _
  | ternary op address dst a b hop =>
    rcases hop with rfl | rfl
    · exact precise_executeArithmetic _ .add true
    · exact precise_executeArithmetic _ .subtract true
  | cmp => exact precise_executeArithmetic _ .subtract false
  | setz => exact precise_executeSetz _
  | push => exact precise_executePush _
  | pop => exact absurd rfl hpop
  | enter => exact absurd rfl henter
  | leave => exact absurd rfl hleave
  | movs => exact precise_executeMovs _
  | cmps => exact precise_executeCmps _
  | fxsave => exact precise_executeFxsave _

/-! ## Instructions that a fault leaves half done -/

theorem leave_error {e : MachineError} (h : executeLeave g = .error e g') :
    g' = { g with machine := g.machine.set .rsp (g.machine.get .rbp) } := by
  let moved : Guest := { g with machine := g.machine.set .rsp (g.machine.get .rbp) }
  have hpop : (popWord >>= fun value => Guest.setRegister .rbp value) moved = .error e g' := h
  exact precise_popWord.then_sure (fun value => .setRegister .rbp value) hpop

/-- A pop that fails has moved the stack pointer if the word could be read. -/
theorem pop_error {i : Instruction} {e : MachineError} (hm : g.memory.WellFormed)
    (h : i.executePop g = .error e g') :
    (g.memory.Readable (g.machine.get .rsp).toNat pointerSize →
      g' = { g with machine := g.machine.set .rsp (g.machine.get .rsp + 8) }) ∧
    (¬ g.memory.Readable (g.machine.get .rsp).toNat pointerSize → g' = g) := by
  have hassign (value : Word) : Precise (operandAt i.destinations 0 "pop" >>= fun dst =>
      dst.assign value) :=
    (inert_operandAt i.destinations 0 "pop").then_precise fun dst => dst.precise_assign value
  have hpop := popWord_apply g
  rcases Step.bind_eq_error h with hfirst | ⟨value, t, hfirst, hrest⟩
  · refine ⟨fun hread => ?_, fun _ => precise_popWord hfirst⟩
    rw [hm.load_of_readable rfl hread, hfirst] at hpop
    contradiction
  · obtain rfl := hassign value hrest
    refine ⟨fun hread => ?_, fun hread => ?_⟩
    · rw [hm.load_of_readable rfl hread, hfirst] at hpop
      injection hpop
    · rw [AddressSpace.load_of_not_readable rfl hread, hfirst] at hpop
      contradiction

/-- Copying frame pointers stops after those that were copied. -/
theorem pushFrames_error {count : Nat} {frame : Word} {e : MachineError}
    (h : pushFrames count frame g = .error e g') :
    ∃ values : List Word, values.length < count ∧ Pushed g values g' := by
  induction count generalizing frame g with
  | zero => contradiction
  | succ count ih =>
    have hparts : (load (frame - 8) pointerSize >>= fun value =>
        pushWord value >>= fun _ => pushFrames count (frame - 8)) g = .error e g' := h
    rcases Step.bind_eq_error hparts with hload | ⟨value, t, hload, hpushes⟩
    · exact ⟨[], Nat.succ_pos count, (Inert.load _ _).precise hload ▸ .nil⟩
    obtain rfl := (Inert.load _ _).ok hload
    rcases Step.bind_eq_error hpushes with hpush | ⟨_, u, hpush, hrest⟩
    · exact ⟨[], Nat.succ_pos count, precise_pushWord value hpush ▸ .nil⟩
    obtain ⟨values, hlength, hpushed⟩ := ih hrest
    exact ⟨value :: values, Nat.succ_lt_succ hlength, .cons hpush hpushed⟩

theorem sure_openFrame (inner : Word) (frame : UInt16) : Sure (openFrame inner frame) :=
  (Sure.setRegister .rbp inner).bind fun _ => (Sure.register .rsp).bind fun _ =>
    .setRegister .rsp _

/-- An `enter` that fails has pushed the first of its words, or none at all. -/
theorem enter_error (pc : Word) {frame : UInt16} {nesting : UInt8} {e : MachineError}
    (h : (enter pc frame nesting).executeEnter g = .error e g') :
    ∃ values : List Word, values.length ≤ nesting.toNat % 32 ∧
      (∀ value ∈ values.head?, value = g.machine.get .rbp) ∧ Pushed g values g' := by
  have hparts : (pushWord (g.machine.get .rbp) >>= fun _ => register .rsp >>= fun inner =>
      if levels nesting ≠ 0 then
        pushFrames ((levels nesting).toNat - 1) (g.machine.get .rbp) >>= fun _ =>
          pushWord inner >>= fun _ => openFrame inner frame
      else openFrame inner frame) g = .error e g' := h
  rcases Step.bind_eq_error hparts with hfirst | ⟨_, t, hfirst, hparts⟩
  · exact ⟨[], Nat.zero_le _, by simp, precise_pushWord _ hfirst ▸ .nil⟩
  rw [Step.bind_of_ok (register_apply t .rsp)] at hparts
  split at hparts
  · rename_i hlevels
    have hpositive : (levels nesting).toNat ≠ 0 := fun h => hlevels (UInt64.toNat_inj.1 h)
    have hcount := levels_toNat nesting
    have hpushed {rest : List Word} (hrest : Pushed t rest g')
        (hlength : rest.length < nesting.toNat % 32) : ∃ values : List Word,
        values.length ≤ nesting.toNat % 32 ∧
        (∀ value ∈ values.head?, value = g.machine.get .rbp) ∧ Pushed g values g' :=
      ⟨g.machine.get .rbp :: rest, hlength, by simp, .cons hfirst hrest⟩
    rcases Step.bind_eq_error hparts with hframes | ⟨_, u, hframes, hparts⟩
    · obtain ⟨values, hlength, hframes⟩ := pushFrames_error hframes
      exact hpushed hframes (by omega)
    obtain ⟨values, hlength, hframes⟩ := pushFrames_ok hframes
    have hlast := (precise_pushWord _).then_sure (fun _ => sure_openFrame _ frame) hparts
    exact hpushed (hlast ▸ hframes) (by omega)
  · obtain ⟨_, _, hok⟩ := sure_openFrame (t.machine.get .rsp) frame t
    rw [hok] at hparts
    contradiction

/-- What an instruction that fails leaves of the guest from before it. -/
structure AfterFault (i : Instruction) (g g' : Guest) : Prop where
  undone : i.opcode ≠ .leave → i.opcode ≠ .pop → i.opcode ≠ .enter → g' = g
  leave : i.opcode = .leave → g' = { g with machine := g.machine.set .rsp (g.machine.get .rbp) }
  popped : i.opcode = .pop → g.memory.Readable (g.machine.get .rsp).toNat pointerSize →
    g' = { g with machine := g.machine.set .rsp (g.machine.get .rsp + 8) }
  empty : i.opcode = .pop → ¬ g.memory.Readable (g.machine.get .rsp).toNat pointerSize → g' = g
  /-- At least one of the words of an `enter` is missing. -/
  enter : ∀ address frame nesting, i = { enter 0 frame nesting with address } →
    ∃ values : List Word, values.length ≤ nesting.toNat % 32 ∧
      (∀ value ∈ values.head?, value = g.machine.get .rbp) ∧ Pushed g values g' ∧
      Stacked g values g'

/-- An instruction that fails has changed no register, no flag and no byte, unless it is one of the
three that have an effect before they can fail. -/
theorem Constructed.afterFault {i : Instruction} (hi : i.Constructed) {machine : MachineState}
    {m : AddressSpace} (hm : m.WellFormed) {e : MachineError} {g : Guest}
    (h : i.execute ⟨machine, m⟩ = .error e g) : i.AfterFault ⟨machine, m⟩ g := by
  constructor
  case undone => exact fun hleave hpop henter => hi.precise hleave hpop henter h
  case leave =>
    intro hop
    rw [execute, hop] at h
    exact leave_error h
  case popped =>
    intro hop
    rw [execute, hop] at h
    exact (pop_error hm h).1
  case empty =>
    intro hop
    rw [execute, hop] at h
    exact (pop_error hm h).2
  case enter =>
    rintro address frame nesting rfl
    obtain ⟨values, hlength, hfirst, hpushed⟩ := enter_error 0 h
    exact ⟨values, hlength, hfirst, hpushed, hpushed.stacked hm⟩

end Instruction

namespace Sample

/-- Two words fit below the stack pointer. -/
def shallowMachine : MachineState :=
  (MachineState.initial.set .rsp 0x10000010).set .rbp 0x10000030

/-- The frame pointer does not point into the stack. -/
def lostFrame : MachineState :=
  (MachineState.initial.set .rsp 0x10000020).set .rbp 0x500

/-- Of the four words of an `enter` only those that fit are pushed. -/
theorem enter_too_deep :
    ∃ e g, stack.WellFormed ∧ (Instruction.enter 0x400000 0 3).execute ⟨shallowMachine, stack⟩ =
        .error e g ∧
      (∃ values : List Word, values.length = 2 ∧ values.head? = some 0x10000030 ∧
        Pushed ⟨shallowMachine, stack⟩ values g) ∧
      g.machine.get .rbp = 0x10000030 ∧ g.memory.wordAt 0x10000008 8 = 0x10000030 := by
  obtain ⟨e, g, hexecute, htop⟩ : ∃ e g, (Instruction.enter 0x400000 0 3).execute
      ⟨shallowMachine, stack⟩ = .error e g ∧ g.machine.get .rsp = 0x10000000 := ⟨_, _, rfl, rfl⟩
  have hafter := Instruction.Constructed.afterFault (.enter (some 0x400000) 0 3) wellFormed_stack
    hexecute
  obtain ⟨values, hlength, hfirst, hpushed, hstacked⟩ := hafter.enter (some 0x400000) 0 3 rfl
  have hroom := hstacked.top
  rw [htop] at hroom
  have htwo : values.length = 2 := by
    change 0x10000000 = 0x10000010 - 8 * values.length at hroom
    omega
  match values, htwo, hfirst, hpushed, hstacked with
  | [first, second], _, hfirst, hpushed, hstacked =>
    obtain rfl : first = 0x10000030 := hfirst first rfl
    exact ⟨e, g, wellFormed_stack, hexecute, ⟨_, rfl, rfl, hpushed⟩,
      hstacked.rest.1 .rbp (by decide), hstacked.wordAt 0 (Nat.succ_pos 1)⟩

/-- A `leave` that cannot pop has lost the stack pointer. -/
theorem leave_loses_stack :
    ∃ e g, (Instruction.leave 0x400000).Constructed ∧
      (Instruction.leave 0x400000).execute ⟨lostFrame, stack⟩ = .error e g ∧
      lostFrame.get .rsp = 0x10000020 ∧ g.machine.get .rsp = 0x500 :=
  ⟨_, _, .leave (some 0x400000), rfl, rfl, rfl⟩

end Sample

end AccessTrace
