import AccessTrace.Proofs.Machine.Footprint

/-!
# The plan of an instruction

Opcode by opcode, the footprint of an instruction is what its operand lists name. Together with
the order in which accesses are planned this gives the plan its meaning: nothing outside of the
planned writes changes, nothing outside of the planned reads matters, and an instruction that
succeeds may make all of its planned accesses.
-/

namespace AccessTrace

open AddressSpace (Agrees)

namespace Instruction

variable (address : Option Word) (machine : MachineState)

theorem footprint_mov (dst src : Operand) :
    Footprint (execute { mov 0 dst src with address }) machine
      (src.spans machine) (dst.spans machine) := by
  have h := src.footprint_value_bind machine fun v => dst.footprint_assign v machine
  rw [List.append_nil] at h
  exact h.congr fun _ => rfl

theorem footprint_arithmetic (i : Instruction) (op : ArithmeticOp) (dst a b : Operand)
    (hsources : i.sources = [a, b]) (hdestinations : i.destinations = [dst]) :
    Footprint (i.executeArithmetic op true) machine
      (a.spans machine ++ b.spans machine) (dst.spans machine) := by
  have h := a.footprint_value_bind machine fun u => b.footprint_value_bind machine fun v =>
    (dst.footprint_assign (op.apply u v i.arithmeticWidth).1 machine).bind_machine
      (fun _ => Guest.setFlags (op.apply u v i.arithmeticWidth).2)
      fun _ t => ⟨(), { t with flags := (op.apply u v i.arithmeticWidth).2 }, fun _ => rfl⟩
  rw [List.append_nil] at h
  refine h.congr fun m => ?_
  unfold executeArithmetic
  rw [hsources, hdestinations]
  rfl

theorem footprint_cmp (a b : Operand) :
    Footprint (execute { cmp 0 a b with address }) machine
      (a.spans machine ++ b.spans machine) [] := by
  let width := arithmeticWidth { cmp 0 a b with address }
  let flags (u v : Word) := (ArithmeticOp.subtract.apply u v width).2
  have hflags (u v : Word) : Footprint (Guest.setFlags (flags u v)) machine [] [] :=
    Footprint.of_machine () { machine with flags := flags u v } fun _ => rfl
  have h := a.footprint_value_bind machine fun u => b.footprint_value_bind machine fun v =>
    hflags u v
  rw [List.append_nil] at h
  exact h.congr fun _ => rfl

theorem footprint_setz (dst : Register) :
    Footprint (execute { setz 0 dst with address }) machine [] [] :=
  Footprint.of_machine () (machine.set dst (if machine.flags.zero then 1 else 0)) fun _ => rfl

theorem footprint_push (src : Operand) :
    Footprint (execute { push 0 src with address }) machine
      (src.spans machine) [machine.span (.atRegister .rsp (-8) .b8)] := by
  have h := src.footprint_value_bind machine fun v => footprint_pushWord v machine
  rw [List.append_nil] at h
  exact h.congr fun _ => rfl

theorem footprint_pop (dst : Operand)
    (hdst : ∀ mem, dst = .memory mem → mem.base ≠ some .rsp ∧ mem.index ≠ some .rsp) :
    Footprint (execute { pop 0 dst with address }) machine
      [machine.span (.atRegister .rsp 0 .b8)] (dst.spans machine) := by
  have h : Footprint (popWord >>= dst.assign) machine
      ([machine.span (.atRegister .rsp 0 .b8)] ++ []) (dst.spans machine) := by
    refine (footprint_popWord machine).bind fun m v g hpop => ?_
    rw [popWord_apply] at hpop
    split at hpop
    · injection hpop with _ hg
      rw [← hg, ← Operand.spans_set machine (machine.get .rsp + 8) hdst]
      exact dst.footprint_assign v _
    · contradiction
  rw [List.append_nil] at h
  exact h.congr fun _ => rfl

theorem footprint_leave :
    Footprint (execute { leave 0 with address }) machine
      [machine.span (.atRegister .rbp 0 .b8)] [] := by
  have hget : (machine.set .rsp (machine.get .rbp)).get .rsp = machine.get .rbp := by
    rw [MachineState.get_set, if_pos rfl]
  have hspan : (machine.set .rsp (machine.get .rbp)).span (.atRegister .rsp 0 .b8) =
      machine.span (.atRegister .rbp 0 .b8) := by
    rw [MachineState.span, MachineState.span, MachineState.effectiveAddress_top,
      MachineState.effectiveAddress_top, hget]
    rfl
  have h := (footprint_popWord (machine.set .rsp (machine.get .rbp))).bind_machine
    (fun value => Guest.setRegister .rbp value) fun v t => ⟨(), t.set .rbp v, fun _ => rfl⟩
  rw [hspan] at h
  refine Footprint.congr (fun m => ?_) h
  rfl

theorem footprint_movs (size : OperandSize) :
    Footprint (execute { movs 0 size with address }) machine
      [machine.span (.atRegister .rsi 0 size)] [machine.span (.atRegister .rdi 0 size)] := by
  let source : Operand := .memory (.atRegister .rsi 0 size)
  let target : Operand := .memory (.atRegister .rdi 0 size)
  let step (t : MachineState) (r : Register) := t.set r (t.get r + UInt64.ofNat size.bytes)
  have h := source.footprint_value_bind machine fun v =>
    (target.footprint_assign v machine).bind_machine
      (fun _ => do advance .rsi size.bytes; advance .rdi size.bytes)
      fun _ t => ⟨(), step (step t .rsi) .rdi, fun _ => rfl⟩
  exact h.congr fun _ => rfl

theorem footprint_cmps (size : OperandSize) :
    Footprint (execute { cmps 0 size with address }) machine
      [machine.span (.atRegister .rsi 0 size), machine.span (.atRegister .rdi 0 size)] [] := by
  let source : Operand := .memory (.atRegister .rsi 0 size)
  let target : Operand := .memory (.atRegister .rdi 0 size)
  let step (t : MachineState) (r : Register) := t.set r (t.get r + UInt64.ofNat size.bytes)
  let flags (u v : Word) := (ArithmeticOp.subtract.apply u v size.bytes).2
  have hflags (u v : Word) : Footprint (do
      Guest.setFlags (flags u v)
      advance .rsi size.bytes
      advance .rdi size.bytes) machine [] [] :=
    Footprint.of_machine () (step (step { machine with flags := flags u v } .rsi) .rdi) fun _ => rfl
  have h := source.footprint_value_bind machine fun u => target.footprint_value_bind machine
    fun v => hflags u v
  exact h.congr fun _ => rfl

theorem footprint_fxsave (dst : MemoryOperand) :
    Footprint (execute { fxsave 0 dst with address }) machine
      [] [machine.span { dst with size := .region fxsaveLength }] := by
  let mem : MemoryOperand := { dst with size := .region fxsaveLength }
  let a := (machine.effectiveAddress mem).toNat
  let image := registerImage machine fxsaveLength
  have himage : image.length = 128 := length_registerImage machine
  have hnonempty : image.isEmpty = false := by
    rw [List.isEmpty_eq_false_iff, ← List.length_pos_iff, himage]
    omega
  have happly (m : AddressSpace) : execute { fxsave 0 dst with address } ⟨machine, m⟩ =
      Guest.replaceMemory ((m.fill a fxsaveLength 0).bind (·.write a image)) ⟨machine, m⟩ := by
    have hdst : ({ fxsave 0 dst with address } : Instruction).destinations = [.memory mem] := rfl
    rw [execute_fxsave rfl, executeFxsave_apply fxsaveLength hdst rfl machine hnonempty]
  have hlength : (image ++ (List.replicate fxsaveLength 0).drop image.length).length =
      fxsaveLength := by
    rw [List.length_append, List.length_drop, List.length_replicate, himage, fxsaveLength]
  -- Where the region may be written to, what is stored there depends on the registers only.
  have hstore (m : AddressSpace) (hm : m.WellFormed) (hw : m.Writable a fxsaveLength) :
      ∃ m', execute { fxsave 0 dst with address } ⟨machine, m⟩ = .ok () ⟨machine, m'⟩ ∧
        m.Stored [(a, fxsaveLength)] (image ++ (List.replicate fxsaveLength 0).drop image.length)
          m' := by
    obtain ⟨m', hcleared, hwritten⟩ := hm.clear_of_writable image (by omega)
      (by rw [himage, fxsaveLength]; omega) hw
    refine ⟨m', ?_, .one hlength hwritten⟩
    rw [happly, hcleared, Guest.replaceMemory_ok]
  intro m u g hm hok
  have hw : m.Writable a fxsaveLength := by
    rw [happly] at hok
    cases hfill : m.fill a fxsaveLength 0 with
    | ok cleared => exact AddressSpace.writable_of_change hfill
    | error e =>
      rw [hfill] at hok
      contradiction
  obtain ⟨m', hok', hstored⟩ := hstore m hm hw
  rw [hok] at hok'
  injection hok' with _ hg
  subst hg
  refine ⟨by simp, _, hstored, fun m₂ hm₂ hlayout _ => ?_⟩
  exact hstore m₂ hm₂ (hw.of_layout hlayout)

/-- A `pop` does not store through the stack pointer that it moves. -/
def KeepsTarget (i : Instruction) : Prop :=
  i.opcode = .pop → ∀ mem, .memory mem ∈ i.destinations →
    mem.base ≠ some .rsp ∧ mem.index ≠ some .rsp

/-- An instruction reads the memory that its sources name and writes what its destinations name. -/
theorem Constructed.footprint {i : Instruction} (hi : i.Constructed) (henter : i.opcode ≠ .enter)
    (hpop : i.KeepsTarget) (machine : MachineState) :
    Footprint i.execute machine (i.sources.flatMap (Operand.spans machine))
      (i.destinations.flatMap (Operand.spans machine)) := by
  cases hi with
  | nop address => exact Footprint.of_machine () machine fun _ => rfl
  | mov address dst src =>
    have h := footprint_mov address machine dst src
    rwa [← List.flatMap_singleton (Operand.spans machine) dst,
      ← List.flatMap_singleton (Operand.spans machine) src] at h
  | ternary op address dst a b hop =>
    have h (op' : ArithmeticOp) := footprint_arithmetic machine
      { Instruction.ternary op 0 dst a b with address } op' dst a b rfl rfl
    have hspans : Operand.spans machine dst = [dst].flatMap (Operand.spans machine) := by simp
    have hspans' : Operand.spans machine a ++ Operand.spans machine b =
      [a, b].flatMap (Operand.spans machine) := by simp
    rw [hspans, hspans'] at h
    rcases hop with rfl | rfl
    · exact h .add
    · exact h .subtract
  | cmp address a b =>
    have h := footprint_cmp address machine a b
    have hspans : Operand.spans machine a ++ Operand.spans machine b =
      [a, b].flatMap (Operand.spans machine) := by simp
    rwa [hspans] at h
  | setz address dst => exact footprint_setz address machine dst
  | push address src =>
    have h := footprint_push address machine src
    have hspans : Operand.spans machine src =
      [src, .register .rsp].flatMap (Operand.spans machine) := by simp [Operand.spans]
    rwa [hspans] at h
  | pop address dst =>
    have h := footprint_pop address machine dst fun mem hmem =>
      hpop rfl mem (by simp [Instruction.pop, hmem])
    have hspans : Operand.spans machine dst =
      [dst, .register .rsp].flatMap (Operand.spans machine) := by simp [Operand.spans]
    rwa [hspans] at h
  | enter address frame nesting => exact absurd rfl henter
  | leave address => exact footprint_leave address machine
  | movs address size => exact footprint_movs address machine size
  | cmps address size => exact footprint_cmps address machine size
  | fxsave address dst => exact footprint_fxsave address machine dst

/-! ## The plan -/

/-- The memory of the planned accesses in one direction. -/
def planned (i : Instruction) (direction : Direction) (machine : MachineState) : List Span :=
  (i.accesses.filter (·.direction == direction)).map fun access =>
    ((machine.effectiveAddress access.mem).toNat, access.size)

theorem direction_of_mem_accessesIn {i : Instruction} {direction : Direction} {first : Nat}
    {ops : List Operand} {access : Access} (h : access ∈ i.accessesIn direction first ops) :
    access.direction = direction := by
  induction ops generalizing first with
  | nil => contradiction
  | cons op rest ih =>
    rw [accessesIn] at h
    split at h
    · rcases List.mem_cons.1 h with rfl | h
      · rfl
      · exact ih h
    · exact ih h

theorem spans_accessesIn {i : Instruction} (henter : i.opcode ≠ .enter) (machine : MachineState)
    (direction : Direction) (first : Nat) (ops : List Operand) :
    ((i.accessesIn direction first ops).map fun access =>
      ((machine.effectiveAddress access.mem).toNat, access.size)) =
      ops.flatMap (Operand.spans machine) := by
  have hsize (mem : MemoryOperand) : i.accessSize mem = mem.size.bytes := by
    unfold accessSize
    split
    · contradiction
    · rfl
  induction ops generalizing first with
  | nil => rfl
  | cons op rest ih =>
    rw [accessesIn, List.flatMap_cons]
    cases op with
    | memory mem =>
      change _ :: List.map _ (accessesIn i direction (first + 1) rest) = _
      rw [ih, hsize]
      rfl
    | register r => exact ih _
    | immediate v => exact ih _

/-- What is planned in a direction is what the operands on that side name. -/
theorem planned_eq {i : Instruction} (henter : i.opcode ≠ .enter) (machine : MachineState) :
    i.planned .read machine = i.sources.flatMap (Operand.spans machine) ∧
      i.planned .write machine = i.destinations.flatMap (Operand.spans machine) := by
  have hkeep (direction : Direction) (ops : List Operand) :
      (i.accessesIn direction 0 ops).filter (·.direction == direction) =
        i.accessesIn direction 0 ops := by
    rw [List.filter_eq_self]
    intro access h
    simp [direction_of_mem_accessesIn h]
  have hdrop (direction other : Direction) (hne : other ≠ direction) (ops : List Operand) :
      (i.accessesIn other 0 ops).filter (·.direction == direction) = [] := by
    rw [List.filter_eq_nil_iff]
    intro access h
    simpa [direction_of_mem_accessesIn h] using hne
  unfold planned accesses
  constructor
  · rw [List.filter_append, hkeep, hdrop .read .write (by decide), List.append_nil,
      spans_accessesIn henter]
  · rw [List.filter_append, hkeep, hdrop .write .read (by decide), List.nil_append,
      spans_accessesIn henter]

/-- The planned accesses are the real ones. An instruction that succeeds changes no byte outside of
its planned writes, and does the same in any other memory of that layout which has the same bytes
in its planned reads. If one of the planned accesses is not possible the instruction fails. -/
theorem execute_follows_plan {i : Instruction} (hi : i.Constructed) (henter : i.opcode ≠ .enter)
    (hpop : i.KeepsTarget) (machine : MachineState) {m : AddressSpace} (hm : m.WellFormed) :
    (∀ g, i.execute ⟨machine, m⟩ = .ok () g →
      g.memory.layout = m.layout ∧
      (∀ x, (∀ span ∈ i.planned .write machine, ¬ span.Holds x) →
        g.memory.byte? x = m.byte? x) ∧
      ∀ m₂ : AddressSpace, m₂.WellFormed → m₂.layout = m.layout →
        Agrees m m₂ (i.planned .read machine) →
        ∃ m₂', i.execute ⟨machine, m₂⟩ = .ok () ⟨g.machine, m₂'⟩ ∧
          ∀ x, (∃ span ∈ i.planned .write machine, span.Holds x) →
            m₂'.byte? x = g.memory.byte? x) ∧
    ((∃ span ∈ i.planned .read machine, ¬ m.Readable span.1 span.2) ∨
        (∃ span ∈ i.planned .write machine, ¬ m.Writable span.1 span.2) →
      ∃ e g, i.execute ⟨machine, m⟩ = .error e g) := by
  have hfootprint := hi.footprint henter hpop machine
  obtain ⟨hreads, hwrites⟩ := planned_eq henter machine
  rw [← hreads, ← hwrites] at hfootprint
  refine ⟨fun g hok => ?_, fun hplan => ?_⟩
  · obtain ⟨_, bytes, hstored, htwin⟩ := hfootprint m () g hm hok
    refine ⟨hstored.layout, fun x hx => hstored.byte?_outside hx, fun m₂ hm₂ hlayout hagrees => ?_⟩
    obtain ⟨m₂', hok₂, hstored₂⟩ := htwin m₂ hm₂ hlayout hagrees
    exact ⟨m₂', hok₂, fun x hx => hstored.byte?_inside hstored₂ hx⟩
  · cases hexecute : i.execute ⟨machine, m⟩ with
    | error e g => exact ⟨e, g, rfl⟩
    | ok u g =>
      obtain ⟨hreadable, bytes, hstored, _⟩ := hfootprint m u g hm hexecute
      rcases hplan with ⟨span, hspan, hnot⟩ | ⟨span, hspan, hnot⟩
      · exact absurd (hreadable span hspan) hnot
      · exact absurd (hstored.writable span hspan) hnot

/-- A pop into memory changes the eight bytes of its target, and no others. -/
theorem pop_keeps_rest : ∃ m g,
    (AddressSpace.withLimit none).map 0x10000000 16 .readWrite = .ok m ∧
      (pop 0x400000 (.memory (.absolute 0x10000000 .b8))).execute
        ⟨MachineState.initial.set .rsp 0x10000008, m⟩ = .ok () g ∧
      ∀ x, ¬ (0x10000000 ≤ x ∧ x < 0x10000008) → g.memory.byte? x = m.byte? x := by
  obtain ⟨m, hmap⟩ : ∃ m, (AddressSpace.withLimit none).map 0x10000000 16 .readWrite = .ok m :=
    ⟨_, rfl⟩
  have hm := (AddressSpace.wellFormed_withLimit ..).map hmap
  have hkeeps : (pop 0x400000 (.memory (.absolute 0x10000000 .b8))).KeepsTarget := by
    intro _ mem hmem
    obtain rfl : mem = .absolute 0x10000000 .b8 := by simpa [pop] using hmem
    exact ⟨by decide, by decide⟩
  obtain ⟨g, hexecute⟩ : ∃ g, (pop 0x400000 (.memory (.absolute 0x10000000 .b8))).execute
      ⟨MachineState.initial.set .rsp 0x10000008, m⟩ = .ok () g := by
    obtain rfl := Except.ok.inj hmap
    exact ⟨_, rfl⟩
  have hfollows := execute_follows_plan (.pop (some 0x400000) (.memory (.absolute 0x10000000 .b8)))
    (by decide) hkeeps (MachineState.initial.set .rsp 0x10000008) hm
  refine ⟨m, g, hmap, hexecute, fun x hx => (hfollows.1 g hexecute).2.1 x fun span hspan => ?_⟩
  obtain rfl := List.mem_singleton.1 hspan
  exact hx

end Instruction

end AccessTrace
