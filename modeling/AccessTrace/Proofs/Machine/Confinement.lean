import AccessTrace.Proofs.Machine.Faults
import AccessTrace.Proofs.Machine.Frames
import AccessTrace.Proofs.Machine.PlannedAccesses

/-!
# Code that stays in a region

Where a region of memory may be read and written from end to end, an instruction whose operands lie
in it does not fail, records nothing outside of it and changes no byte outside of it. Such steps can
be put one after the other, and a round of them that leads from each state of an invariant to the
next one can be made any number of times.
-/

namespace AccessTrace

open AddressSpace (Written Stored)

namespace Span

/-- The inner span is part of the outer one. -/
def Within (inner outer : Span) : Prop :=
  outer.1 ≤ inner.1 ∧ inner.1 + inner.2 ≤ outer.1 + outer.2

instance (inner outer : Span) : Decidable (inner.Within outer) :=
  inferInstanceAs (Decidable (_ ∧ _))

theorem within_iff {a n b k : Nat} : Within (a, n) (b, k) ↔ b ≤ a ∧ a + n ≤ b + k := Iff.rfl

theorem Within.trans {inner middle outer : Span} (h : inner.Within middle)
    (h' : middle.Within outer) : inner.Within outer :=
  ⟨Nat.le_trans h'.1 h.1, Nat.le_trans h.2 h'.2⟩

theorem Within.holds {inner outer : Span} (h : inner.Within outer) {x : Nat} (hx : inner.Holds x) :
    outer.Holds x := by
  unfold Within at h
  unfold Holds at hx ⊢
  omega

end Span

namespace AddressSpace

variable {m m' : AddressSpace} {region : Span} {a width : Nat}

/-- The region is part of one that may be read and written. -/
structure Offers (m : AddressSpace) (region : Span) : Prop where
  wellFormed : m.WellFormed
  shape : ∃ whole : Span, (whole.1, whole.2, Permissions.readWrite, true) ∈ m.layout ∧
    region.Within whole ∧ whole.1 + whole.2 < addressBound

theorem Offers.bound (h : m.Offers region) : region.1 + region.2 < addressBound := by
  obtain ⟨whole, _, hwhole, hbound⟩ := h.shape
  exact Nat.lt_of_le_of_lt hwhole.2 hbound

theorem Offers.of_layout (h : m.Offers region) (hm' : m'.WellFormed)
    (hlayout : m'.layout = m.layout) : m'.Offers region :=
  ⟨hm', hlayout ▸ h.shape⟩

theorem Offers.mono (h : m.Offers region) {inner : Span} (hin : inner.Within region) :
    m.Offers inner := by
  obtain ⟨whole, hshape, hwhole, hbound⟩ := h.shape
  exact ⟨h.wellFormed, whole, hshape, hin.trans hwhole, hbound⟩

theorem Offers.usable (h : m.Offers region) {n : Nat} (hin : Span.Within (a, n) region) :
    m.Writable a n ∧ m.Readable a n := by
  obtain ⟨whole, hshape, hwhole, hbound⟩ := h.shape
  have hall := hin.trans hwhole
  exact AddressSpace.usable hshape hall.1 hall.2 (Nat.lt_of_le_of_lt hall.2 hbound)

theorem Offers.load (h : m.Offers region) (hwidth : isScalarWidth width = true)
    (hin : Span.Within (a, width) region) : m.load a width = .ok (m.wordAt a width) :=
  h.wellFormed.load_of_readable hwidth (h.usable hin).2

theorem Offers.store (h : m.Offers region) (hwidth : isScalarWidth width = true)
    (hin : Span.Within (a, width) region) (value : Word) :
    ∃ m', m.store a width value = .ok m' ∧ Written m a (littleEndian width value.toNat) m' :=
  h.wellFormed.store_of_writable hwidth (h.usable hin).1 value

end AddressSpace

/-! ## Operands -/

namespace Operand

variable {region : Span} {g g' : Guest}

/-- What the operand names lies in the region. -/
def Lies (op : Operand) (region : Span) (machine : MachineState) : Prop :=
  ∀ span ∈ op.spans machine, span.Within region

/-- The operand lies in the region and is a number. -/
structure Fits (op : Operand) (region : Span) (machine : MachineState) : Prop where
  lies : op.Lies region machine
  scalar : ∀ mem, op = memory mem → AddressSpace.isScalarWidth mem.size.bytes = true

theorem lies_pair {op op' : Operand} {machine : MachineState} (h : op.Lies region machine)
    (h' : op'.Lies region machine) : ∀ o ∈ [op, op'], o.Lies region machine :=
  List.forall_mem_cons.2 ⟨h, List.forall_mem_singleton.2 h'⟩

/-- What the operand stands for. -/
def read (g : Guest) : Operand → Word
  | register r => g.machine.get r
  | immediate v => v.toUInt64
  | memory mem => g.memory.wordAt (g.machine.effectiveAddress mem).toNat mem.size.bytes

theorem lies_memory {mem : MemoryOperand} {machine : MachineState} :
    (memory mem).Lies region machine ↔ (machine.span mem).Within region :=
  List.forall_mem_singleton

theorem fits_memory {mem : MemoryOperand} {machine : MachineState}
    (hwidth : AddressSpace.isScalarWidth mem.size.bytes = true)
    (hin : (machine.span mem).Within region) : (memory mem).Fits region machine :=
  ⟨lies_memory.2 hin, fun _ h => memory.inj h ▸ hwidth⟩

theorem fits_register (r : Register) (region : Span) (machine : MachineState) :
    (register r).Fits region machine :=
  ⟨fun _ h => absurd h List.not_mem_nil, fun _ h => Operand.noConfusion h⟩

theorem fits_immediate (v : Int64) (region : Span) (machine : MachineState) :
    (immediate v).Fits region machine :=
  ⟨fun _ h => absurd h List.not_mem_nil, fun _ h => Operand.noConfusion h⟩

/-- The operand that a register points to. -/
theorem fits_top {r : Register} {size : OperandSize}
    (hwidth : AddressSpace.isScalarWidth size.bytes = true)
    (hin : Span.Within ((g.machine.get r).toNat, size.bytes) region) :
    (memory (.atRegister r 0 size)).Fits region g.machine := by
  refine fits_memory hwidth ?_
  rw [MachineState.span, MachineState.effectiveAddress_top]
  exact hin

theorem value_of_fits {op : Operand} (hregion : g.memory.Offers region)
    (hop : op.Fits region g.machine) : op.value g = .ok (op.read g) g := by
  cases op with
  | register r => rfl
  | immediate v => rfl
  | memory mem =>
    have hwidth := hop.scalar mem rfl
    rw [value_memory, if_pos hwidth]
    exact g.load_of_ok (hregion.load hwidth (lies_memory.1 hop.lies))

/-- What it means that a value was put where the operand says; flags do not count. -/
structure Assigned (g : Guest) (value : Word) (op : Operand) (g' : Guest) : Prop where
  get : ∀ r, g'.machine.get r = if op = register r then value else g.machine.get r
  written : ∀ mem, op = memory mem → Written g.memory (g.machine.effectiveAddress mem).toNat
    (littleEndian mem.size.bytes value.toNat) g'.memory

theorem Assigned.withFlags {value : Word} {op : Operand} (h : Assigned g value op g')
    (flags : ArithmeticFlags) :
    Assigned g value op { g' with machine := { g'.machine with flags } } :=
  ⟨h.get, h.written⟩

theorem assign_of_fits {op : Operand} (hregion : g.memory.Offers region)
    (hop : op.Fits region g.machine) (hplace : op.immediate? = none) (value : Word) :
    ∃ g', op.assign value g = .ok () g' ∧ Assigned g value op g' := by
  cases op with
  | register t =>
    refine ⟨_, rfl, fun r => ?_, fun _ h => Operand.noConfusion h⟩
    simp only [MachineState.get_set, register.injEq]
  | immediate v => contradiction
  | memory mem =>
    have hwidth := hop.scalar mem rfl
    obtain ⟨m', hstore, hwritten⟩ := hregion.store hwidth (lies_memory.1 hop.lies) value
    refine ⟨{ g with memory := m' }, ?_, fun r => (if_neg Operand.noConfusion).symm, ?_⟩
    · rw [assign_memory, if_pos hwidth]
      exact g.store_of_ok hstore
    · intro _ hmem
      obtain rfl := memory.inj hmem
      exact hwritten

end Operand

/-! ## Sequences -/

namespace Instruction

variable {region : Span} {i : Instruction} {is js : List Instruction} {g g' g'' : Guest}

/-- The instructions succeed and stay in the region: no record is of another place, and no other
byte has changed. -/
structure Confined (region : Span) (is : List Instruction) (g g' : Guest) : Prop where
  executed : executeAll is g = .ok () g'
  wellFormed : g'.memory.WellFormed
  layout : g'.memory.layout = g.memory.layout
  kept : ∀ x, ¬ region.Holds x → g'.memory.byte? x = g.memory.byte? x
  recorded : ∀ r ∈ accessTrace is g, Span.Within (r.address.toNat, r.size.toNat) region

theorem Confined.offers {whole : Span} (h : Confined region is g g')
    (hwhole : g.memory.Offers whole) : g'.memory.Offers whole :=
  hwhole.of_layout h.wellFormed h.layout

theorem Confined.mono {inner : Span} (h : Confined inner is g g') (hin : inner.Within region) :
    Confined region is g g' :=
  ⟨h.executed, h.wellFormed, h.layout, fun x hx => h.kept x fun hholds => hx (hin.holds hholds),
    fun r hr => (h.recorded r hr).trans hin⟩

/-- A word outside of the region stays. -/
theorem Confined.wordAt (h : Confined region is g g') {a width : Nat}
    (hout : a + width ≤ region.1 ∨ region.1 + region.2 ≤ a) :
    g'.memory.wordAt a width = g.memory.wordAt a width := by
  have hkept (i : Nat) (hi : i < width) : ¬ region.Holds (a + i) := by
    unfold Span.Holds
    omega
  rw [AddressSpace.wordAt, AddressSpace.wordAt,
    AddressSpace.bytesAt_congr fun i hi => h.kept (a + i) (hkept i hi)]

theorem Confined.nil (hm : g.memory.WellFormed) : Confined region [] g g :=
  ⟨rfl, hm, rfl, fun _ _ => rfl, by simp [accessTrace]⟩

theorem Confined.append (h : Confined region is g g') (h' : Confined region js g' g'') :
    Confined region (is ++ js) g g'' := by
  constructor
  · rw [executeAll_append_ok h.executed]
    exact h'.executed
  · exact h'.wellFormed
  · exact h'.layout.trans h.layout
  · exact fun x hx => (h'.kept x hx).trans (h.kept x hx)
  · intro r hr
    rw [accessTrace_append_ok h.executed] at hr
    exact (List.mem_append.1 hr).elim (h.recorded r) (h'.recorded r)

/-- A round that leads from each state of an invariant to the next. -/
theorem Confined.replicate {round : List Instruction} (inv : Nat → Guest → Prop) {count : Nat}
    (hround : ∀ k g, k < count → g.memory.Offers region → inv k g →
      ∃ g', Confined region round g g' ∧ inv (k + 1) g')
    (hregion : g.memory.Offers region) (hstart : inv 0 g) :
    ∃ g', Confined region (List.replicate count round).flatten g g' ∧ inv count g' := by
  induction count with
  | zero => exact ⟨g, .nil hregion.wellFormed, hstart⟩
  | succ count ih =>
    obtain ⟨g₁, hrounds, hinv⟩ := ih fun k g hk => hround k g (Nat.lt_succ_of_lt hk)
    obtain ⟨g', hlast, hinv'⟩ :=
      hround count g₁ (Nat.lt_succ_self count) (hrounds.offers hregion) hinv
    refine ⟨g', ?_, hinv'⟩
    rw [List.replicate_succ', List.flatten_append, List.flatten_singleton]
    exact hrounds.append hlast

/-! ## One instruction -/

/-- What is recorded is what is planned. -/
theorem records_within {machine : MachineState}
    (hplan : ∀ direction, ∀ span ∈ i.planned direction machine, span.Within region) :
    ∀ r ∈ i.records machine, Span.Within (r.address.toNat, r.size.toNat) region := by
  intro r hr
  obtain ⟨⟨pc, access⟩, hrecorded, rfl⟩ := List.mem_map.1 hr
  have haccess : access ∈ i.accesses := by
    unfold recorded at hrecorded
    split at hrecorded
    · contradiction
    · obtain ⟨_, haccess, heq⟩ := List.mem_map.1 hrecorded
      cases heq
      exact haccess
  have hspan : ((machine.effectiveAddress access.mem).toNat, access.size) ∈
      i.planned access.direction machine := by
    refine List.mem_map.2 ⟨access, List.mem_filter.2 ⟨haccess, ?_⟩, rfl⟩
    exact beq_self_eq_true _
  obtain ⟨hfirst, hlast⟩ := hplan _ _ hspan
  have hsize : (UInt64.ofNat access.size).toNat ≤ access.size := by
    rw [UInt64.toNat_ofNat']
    exact Nat.mod_le _ _
  exact ⟨hfirst, Nat.le_trans (Nat.add_le_add_left hsize _) hlast⟩

theorem Confined.single (hok : i.execute g = .ok () g') (hm : g'.memory.WellFormed)
    (hlayout : g'.memory.layout = g.memory.layout)
    (hkept : ∀ x, ¬ region.Holds x → g'.memory.byte? x = g.memory.byte? x)
    (hplan : ∀ direction, ∀ span ∈ i.planned direction g.machine, span.Within region) :
    Confined region [i] g g' := by
  refine ⟨executeAll_cons_ok hok, hm, hlayout, hkept, ?_⟩
  rw [accessTrace_cons_ok hok, accessTrace, List.append_nil]
  exact records_within hplan

/-- An instruction that succeeds on operands in a region stays there. -/
theorem Constructed.confined (hi : i.Constructed) (henter : i.opcode ≠ .enter)
    (hpop : i.KeepsTarget) (hm : g.memory.WellFormed)
    (hsources : ∀ op ∈ i.sources, op.Lies region g.machine)
    (hdestinations : ∀ op ∈ i.destinations, op.Lies region g.machine)
    (hok : i.execute g = .ok () g') : Confined region [i] g g' := by
  have hspans {ops : List Operand} (hops : ∀ op ∈ ops, op.Lies region g.machine) :
      ∀ span ∈ ops.flatMap (Operand.spans g.machine), span.Within region := by
    intro span hspan
    obtain ⟨op, hop, hspan⟩ := List.mem_flatMap.1 hspan
    exact hops op hop span hspan
  obtain ⟨hreads, hwrites⟩ := planned_eq henter g.machine
  obtain ⟨_, bytes, hstored, _⟩ := hi.footprint henter hpop g.machine g.memory () g' hm hok
  refine .single hok (hstored.wellFormed hm) hstored.layout ?_ ?_
  · intro x hx
    exact hstored.byte?_outside fun span hspan hin =>
      hx ((hspans hdestinations span hspan).holds hin)
  · rintro (_ | _)
    · rw [hreads]
      exact hspans hsources
    · rw [hwrites]
      exact hspans hdestinations

/-- All but the opening of a frame and the return of a word to memory qualify at once. -/
theorem Constructed.confined_of_opcode (hi : i.Constructed) (hopcode : i.opcode ∉ [.enter, .pop])
    (hm : g.memory.WellFormed) (hsources : ∀ op ∈ i.sources, op.Lies region g.machine)
    (hdestinations : ∀ op ∈ i.destinations, op.Lies region g.machine)
    (hok : i.execute g = .ok () g') : Confined region [i] g g' := by
  obtain ⟨henter, hpop⟩ : i.opcode ≠ .enter ∧ i.opcode ≠ .pop := by simpa using hopcode
  exact hi.confined henter (fun h => absurd h hpop) hm hsources hdestinations hok

/-! ## Instructions that succeed -/

open Operand (Assigned lies_pair)

theorem mov_confined (pc : Word) (dst src : Operand) (hregion : g.memory.Offers region)
    (hsrc : src.Fits region g.machine) (hdst : dst.Fits region g.machine)
    (hplace : dst.immediate? = none) :
    ∃ g', Confined region [mov pc dst src] g g' ∧ Assigned g (src.read g) dst g' := by
  obtain ⟨g', hassign, hassigned⟩ := Operand.assign_of_fits hregion hdst hplace (src.read g)
  have hok : (mov pc dst src).execute g = .ok () g' :=
    (Step.bind_of_ok (Operand.value_of_fits hregion hsrc)).trans hassign
  have hi : (mov pc dst src).Constructed := .mov (some pc) dst src
  exact ⟨g', hi.confined_of_opcode (by decide : Opcode.mov ∉ _) hregion.wellFormed
    (List.forall_mem_singleton.2 hsrc.lies) (List.forall_mem_singleton.2 hdst.lies) hok, hassigned⟩

/-- An addition sets its destination and then the flags. -/
theorem add_confined (pc : Word) (dst first second : Operand) (hregion : g.memory.Offers region)
    (hfirst : first.Fits region g.machine) (hsecond : second.Fits region g.machine)
    (hdst : dst.Fits region g.machine) (hplace : dst.immediate? = none) :
    ∃ g', Confined region [ternary .add pc dst first second] g g' ∧
      Assigned g (ArithmeticOp.add.apply (first.read g) (second.read g)
        (ternary .add pc dst first second).arithmeticWidth).1 dst g' := by
  let result := ArithmeticOp.add.apply (first.read g) (second.read g)
    (ternary .add pc dst first second).arithmeticWidth
  obtain ⟨g', hassign, hassigned⟩ := Operand.assign_of_fits hregion hdst hplace result.1
  have hok : (ternary .add pc dst first second).execute g =
      .ok () { g' with machine := { g'.machine with flags := result.2 } } :=
    (Step.bind_of_ok (Operand.value_of_fits hregion hfirst)).trans
      ((Step.bind_of_ok (Operand.value_of_fits hregion hsecond)).trans (Step.bind_of_ok hassign))
  have hi : (ternary .add pc dst first second).Constructed :=
    .ternary .add (some pc) dst first second (Or.inl rfl)
  exact ⟨_, hi.confined_of_opcode (by decide : Opcode.add ∉ _) hregion.wellFormed
    (lies_pair hfirst.lies hsecond.lies) (List.forall_mem_singleton.2 hdst.lies) hok,
    hassigned.withFlags _⟩

theorem cmp_confined (pc : Word) (first second : Operand) (hregion : g.memory.Offers region)
    (hfirst : first.Fits region g.machine) (hsecond : second.Fits region g.machine) :
    ∃ g', Confined region [cmp pc first second] g g' := by
  have hok : (cmp pc first second).execute g = .ok () _ :=
    (Step.bind_of_ok (Operand.value_of_fits hregion hfirst)).trans
      (Step.bind_of_ok (Operand.value_of_fits hregion hsecond))
  have hi : (cmp pc first second).Constructed := .cmp (some pc) first second
  exact ⟨_, hi.confined_of_opcode (by decide : Opcode.cmp ∉ _) hregion.wellFormed
    (lies_pair hfirst.lies hsecond.lies) (List.forall_mem_nil _) hok⟩

theorem setz_confined (pc : Word) (r : Register) (hregion : g.memory.Offers region) :
    ∃ g', Confined region [setz pc r] g g' := by
  have hi : (setz pc r).Constructed := .setz (some pc) r
  exact ⟨_, hi.confined_of_opcode (by decide : Opcode.setz ∉ _) hregion.wellFormed
    (List.forall_mem_nil _)
    (List.forall_mem_singleton.2 (Operand.fits_register r _ _).lies) rfl⟩

theorem lies_below (h : Span.Within ((g.machine.get .rsp - 8).toNat, 8) region) :
    (Operand.memory (.atRegister .rsp (-8) .b8)).Lies region g.machine := by
  rw [Operand.lies_memory, MachineState.span, MachineState.effectiveAddress_atRegister,
    show (-8 : Int64).toUInt64 = -8 from rfl, ← UInt64.sub_eq_add_neg]
  exact h

theorem pushWord_of_within (hregion : g.memory.Offers region)
    (htop : Span.Within ((g.machine.get .rsp - 8).toNat, 8) region) (value : Word) :
    ∃ m', m'.Offers region ∧
      pushWord value g = .ok () ⟨g.machine.set .rsp (g.machine.get .rsp - 8), m'⟩ := by
  obtain ⟨m', hstore, hwritten⟩ := hregion.store rfl htop value
  exact ⟨m', hregion.of_layout hwritten.wellFormed hwritten.layout,
    Step.bind_of_ok (g.store_of_ok hstore)⟩

theorem push_confined (pc : Word) (src : Operand) (hregion : g.memory.Offers region)
    (hsrc : src.Fits region g.machine)
    (htop : Span.Within ((g.machine.get .rsp - 8).toNat, 8) region) :
    ∃ g', Confined region [push pc src] g g' ∧ ∀ r, g'.machine.get r =
      if r = .rsp then g.machine.get .rsp - 8 else g.machine.get r := by
  obtain ⟨m', _, hpush⟩ := pushWord_of_within hregion htop (src.read g)
  have hok := (Step.bind_of_ok (Operand.value_of_fits hregion hsrc)).trans hpush
  have hi : (push pc src).Constructed := .push (some pc) src
  have hrsp := (Operand.fits_register .rsp region g.machine).lies
  refine ⟨_, hi.confined_of_opcode (by decide : Opcode.push ∉ _) hregion.wellFormed
    (lies_pair hsrc.lies hrsp) (lies_pair (lies_below htop) hrsp) hok, fun r => ?_⟩
  simp only [MachineState.get_set, eq_comm]

theorem pop_confined (pc : Word) (t : Register) (hregion : g.memory.Offers region)
    (htop : Span.Within ((g.machine.get .rsp).toNat, 8) region) :
    ∃ g', Confined region [pop pc (.register t)] g g' ∧ ∀ r, g'.machine.get r =
      if r = t then g.memory.wordAt (g.machine.get .rsp).toNat 8 else
        if r = .rsp then g.machine.get .rsp + 8 else g.machine.get r := by
  have hpop := popWord_apply g
  rw [show pointerSize = 8 from rfl, hregion.load rfl htop] at hpop
  have hi : (pop pc (.register t)).Constructed := .pop (some pc) (.register t)
  have hregister (r : Register) := (Operand.fits_register r region g.machine).lies
  have hkeeps : (pop pc (.register t)).KeepsTarget := by
    intro _ mem hmem
    simp [pop] at hmem
  refine ⟨_, hi.confined (by decide : Opcode.pop ≠ _) hkeeps hregion.wellFormed
    (lies_pair (Operand.fits_top rfl htop).lies (hregister .rsp))
    (lies_pair (hregister t) (hregister .rsp)) (Step.bind_of_ok hpop), fun r => ?_⟩
  simp only [MachineState.get_set, eq_comm (a := r)]

theorem leave_confined (pc : Word) (hregion : g.memory.Offers region)
    (hframe : Span.Within ((g.machine.get .rbp).toNat, 8) region) :
    ∃ g', Confined region [leave pc] g g' ∧ ∀ r, g'.machine.get r =
      if r = .rbp then g.memory.wordAt (g.machine.get .rbp).toNat 8 else
        if r = .rsp then g.machine.get .rbp + 8 else g.machine.get r := by
  have happly := executeLeave_apply g
  have hload : g.memory.load (g.machine.get .rbp).toNat pointerSize = _ := hregion.load rfl hframe
  rw [hload] at happly
  have hok : (leave pc).execute g = _ := happly
  have hi : (leave pc).Constructed := .leave (some pc)
  have hregister (r : Register) := (Operand.fits_register r region g.machine).lies
  obtain ⟨value, hvalue, _, _, hget⟩ := leave_ok hok
  obtain rfl := Except.ok.inj (hload.symm.trans hvalue)
  exact ⟨_, hi.confined_of_opcode (by decide : Opcode.leave ∉ _) hregion.wellFormed
    (lies_pair (Operand.fits_top rfl hframe).lies (hregister .rbp))
    (lies_pair (hregister .rsp) (hregister .rbp)) hok, hget⟩

theorem advance_both (machine : MachineState) (m : AddressSpace) (length : Nat) :
    (do advance .rsi length; advance .rdi length : GuestM Unit) ⟨machine, m⟩ =
      .ok () ⟨(machine.set .rsi (machine.get .rsi + .ofNat length)).set .rdi
        (machine.get .rdi + .ofNat length), m⟩ := by
  have hget : (machine.set .rsi (machine.get .rsi + .ofNat length)).get .rdi =
      machine.get .rdi := by
    rw [MachineState.get_set, if_neg (by decide)]
  rw [← hget]
  rfl

/-- A string move advances both pointers by the length of its element. -/
theorem movs_confined (pc : Word) {size : OperandSize}
    (hwidth : AddressSpace.isScalarWidth size.bytes = true) (hregion : g.memory.Offers region)
    (hsource : Span.Within ((g.machine.get .rsi).toNat, size.bytes) region)
    (htarget : Span.Within ((g.machine.get .rdi).toNat, size.bytes) region) :
    ∃ g', Confined region [movs pc size] g g' ∧ ∀ r, g'.machine.get r =
      if r = .rsi ∨ r = .rdi then g.machine.get r + .ofNat size.bytes else g.machine.get r := by
  let source : Operand := .memory (.atRegister .rsi 0 size)
  let target : Operand := .memory (.atRegister .rdi 0 size)
  have hsrc : source.Fits region g.machine := Operand.fits_top hwidth hsource
  have hdst : target.Fits region g.machine := Operand.fits_top hwidth htarget
  obtain ⟨g₁, hassign, hassigned⟩ := Operand.assign_of_fits hregion hdst rfl (source.read g)
  have hget (r : Register) : g₁.machine.get r = g.machine.get r :=
    (hassigned.get r).trans (if_neg Operand.noConfusion)
  have hok : (movs pc size).execute g = _ :=
    (Step.bind_of_ok (Operand.value_of_fits hregion hsrc)).trans
      ((Step.bind_of_ok hassign).trans (advance_both g₁.machine g₁.memory size.bytes))
  have hi : (movs pc size).Constructed := .movs (some pc) size
  have hregister (r : Register) := (Operand.fits_register r region g.machine).lies
  have hpointers := lies_pair (hregister .rsi) (hregister .rdi)
  refine ⟨_, hi.confined_of_opcode (by decide : Opcode.movs ∉ _) hregion.wellFormed ?_ ?_ hok,
    fun r => ?_⟩
  · exact List.forall_mem_cons.2 ⟨hsrc.lies, hpointers⟩
  · exact List.forall_mem_cons.2 ⟨hdst.lies, hpointers⟩
  · simp only [MachineState.get_set, hget]
    cases r <;> rfl

theorem fxsave_confined (pc : Word) (mem : MemoryOperand) (hregion : g.memory.Offers region)
    (hin : Span.Within ((g.machine.effectiveAddress mem).toNat, fxsaveLength) region) :
    ∃ g', Confined region [fxsave pc mem] g g' := by
  have himage := length_registerImage g.machine
  have hnonempty : (registerImage g.machine fxsaveLength).isEmpty = false := by
    rw [List.isEmpty_eq_false_iff, ← List.length_pos_iff, himage]
    omega
  obtain ⟨m', hclear, _⟩ := hregion.wellFormed.clear_of_writable
    (registerImage g.machine fxsaveLength) (by omega) (by rw [himage, fxsaveLength]; omega)
    (hregion.usable hin).1
  have happly := executeFxsave_apply (i := fxsave pc mem) fxsaveLength rfl rfl g.machine hnonempty
    g.memory
  have haddress : g.machine.effectiveAddress { mem with size := .region fxsaveLength } =
      g.machine.effectiveAddress mem := rfl
  rw [haddress, hclear] at happly
  have hok : (fxsave pc mem).execute g = _ := happly
  have hi : (fxsave pc mem).Constructed := .fxsave (some pc) mem
  exact ⟨_, hi.confined_of_opcode (by decide : Opcode.fxsave ∉ _) hregion.wellFormed
    (List.forall_mem_nil _)
    (List.forall_mem_singleton.2 (Operand.lies_memory.2 hin)) hok⟩

/-- With one level of nesting an `enter` needs room for two words. -/
theorem exists_enter_ok (pc : Word) (frame : UInt16) (hregion : g.memory.Offers region)
    (hfirst : Span.Within ((g.machine.get .rsp - 8).toNat, 8) region)
    (hsecond : Span.Within ((g.machine.get .rsp - 8 - 8).toNat, 8) region) :
    ∃ g', (enter pc frame 1).execute g = .ok () g' := by
  obtain ⟨m₁, hregion₁, hpush₁⟩ := pushWord_of_within hregion hfirst (g.machine.get .rbp)
  let g₁ : Guest := ⟨g.machine.set .rsp (g.machine.get .rsp - 8), m₁⟩
  have htop : g₁.machine.get .rsp = g.machine.get .rsp - 8 := by
    rw [MachineState.get_set, if_pos rfl]
  rw [← htop] at hsecond
  obtain ⟨m₂, _, hpush₂⟩ := pushWord_of_within (g := g₁) hregion₁ hsecond (g₁.machine.get .rsp)
  obtain ⟨_, g', hopen⟩ := sure_openFrame (g₁.machine.get .rsp) frame
    ⟨g₁.machine.set .rsp (g₁.machine.get .rsp - 8), m₂⟩
  exact ⟨g', (Step.bind_of_ok hpush₁).trans ((Step.bind_of_ok hpush₂).trans hopen)⟩

/-- The frame pointer stands in the first word of the new frame. -/
theorem enter_confined (pc : Word) (frame : UInt16) (hregion : g.memory.Offers region)
    (hroom : Span.Within ((g.machine.get .rsp - 16).toNat, 24) region) :
    ∃ g', Confined region [enter pc frame 1] g g' ∧
      g'.machine.get .rbp = g.machine.get .rsp - 8 ∧
      g'.machine.get .rsp = g.machine.get .rsp - 16 - UInt64.ofNat frame.toNat ∧
      g'.memory.wordAt (g.machine.get .rsp - 8).toNat 8 = g.machine.get .rbp := by
  obtain ⟨hlow, hhigh⟩ := Span.within_iff.1 hroom
  have hplaces : 16 ≤ (g.machine.get .rsp).toNat ∧
      (g.machine.get .rsp - 8).toNat = (g.machine.get .rsp).toNat - 8 ∧
      (g.machine.get .rsp - 16).toNat = (g.machine.get .rsp).toNat - 16 := by
    have hend := hregion.bound
    have htop := (g.machine.get .rsp).toNat_lt
    have height := UInt64.toNat_sub (g.machine.get .rsp) 8
    have hsixteen := UInt64.toNat_sub (g.machine.get .rsp) 16
    rw [show (8 : Word).toNat = 8 from rfl] at height
    rw [show (16 : Word).toNat = 16 from rfl] at hsixteen
    unfold addressBound at hend
    omega
  have hbelow : g.machine.get .rsp - 8 - 8 = g.machine.get .rsp - 16 := by grind
  obtain ⟨g', hok⟩ := exists_enter_ok pc frame hregion (Span.within_iff.2 (by omega))
    (by rw [hbelow]; exact Span.within_iff.2 (by omega))
  obtain ⟨outer, pushed, hlength, _, hpushed, rfl⟩ := enter_ok hok
  have hstacked := hpushed.stacked hregion.wellFormed
  have hcount : (g.machine.get .rbp :: outer).length = 2 := congrArg (· + 1) hlength
  have htop := hstacked.top
  have hbytes := hstacked.byte?
  rw [hcount] at htop hbytes
  refine ⟨_, .single hok hstacked.wellFormed hstacked.layout ?_ ?_, ?_, ?_, ?_⟩
  · intro x hx
    refine hbytes x fun hin => hx ((Span.within_iff.2 ?_ : Span.Within _ region).holds hin)
    omega
  · rintro (_ | _)
    · exact fun span hspan => absurd hspan List.not_mem_nil
    · rw [planned_enter, show 8 * ((1 : UInt8).toNat % 32 + 1) = 16 from rfl]
      exact List.forall_mem_singleton.2 (Span.within_iff.2 (by omega))
  · rw [MachineState.get_set, if_neg (by decide), MachineState.get_set, if_pos rfl]
  · rw [MachineState.get_set, if_pos rfl]
    congr 1
    exact UInt64.toNat_inj.1 (htop.trans (by omega))
  · exact hstacked.wordAt_first

end Instruction

end AccessTrace
