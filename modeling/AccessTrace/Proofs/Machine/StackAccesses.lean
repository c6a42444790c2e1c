import AccessTrace.Proofs.Machine.PlannedAccesses

/-!
# Where stack instructions store

The plan of an instruction is made from the registers before it runs. For two instructions that is
not where they store. `enter` pushes its words from the top down, while its plan is a span that
starts at the first of them and goes up. And `pop` moves the stack pointer before it works out its
target, so a target that is addressed through the stack pointer lies behind the planned one.
-/

namespace AccessTrace

open Guest
open AddressSpace (Written)

/-! ## Pushes -/

/-- The words are pushed one after the other, the first of them highest. -/
inductive Pushed : Guest → List Word → Guest → Prop where
  | nil {g : Guest} : Pushed g [] g
  | cons {g g₁ g' : Guest} {value : Word} {rest : List Word} (h : pushWord value g = .ok () g₁)
    (hrest : Pushed g₁ rest g') : Pushed g (value :: rest) g'

theorem Pushed.append {g g₁ g' : Guest} {values rest : List Word} (h : Pushed g values g₁)
    (hrest : Pushed g₁ rest g') : Pushed g (values ++ rest) g' := by
  induction h with
  | nil => exact hrest
  | cons hpush _ ih => exact .cons hpush (ih hrest)

theorem pushWord_ok {g g' : Guest} {value : Word} (h : pushWord value g = .ok () g') :
    ∃ m', g.memory.store (g.machine.get .rsp - 8).toNat pointerSize value = .ok m' ∧
      g' = ⟨g.machine.set .rsp (g.machine.get .rsp - 8), m'⟩ := by
  have hparts : (store (g.machine.get .rsp - 8) pointerSize value >>= fun _ =>
      setRegister .rsp (g.machine.get .rsp - 8)) g = .ok () g' := h
  obtain ⟨_, t, hstore, hset⟩ := Step.bind_eq_ok hparts
  rw [store_apply] at hstore
  split at hstore
  · rename_i m' hm'
    injection hstore with _ ht
    subst ht
    injection hset with _ hg
    exact ⟨m', hm', hg.symm⟩
  · contradiction

/-- Words are pushed where there is room for them below the stack pointer. -/
theorem written_of_push {m m' : AddressSpace} (hm : m.WellFormed) {top value : Word}
    (h : m.store (top - 8).toNat pointerSize value = .ok m') :
    8 ≤ top.toNat ∧ (top - 8).toNat = top.toNat - 8 ∧
      Written m (top.toNat - 8) (littleEndian 8 value.toNat) m' := by
  obtain ⟨_, hwritten⟩ := hm.store_ok h
  have htop := top.toNat_lt
  have hsub : (top - 8).toNat = (2 ^ 64 - 8 + top.toNat) % 2 ^ 64 := UInt64.toNat_sub top 8
  have hfits : (top - 8).toNat + 8 < addressBound := by
    obtain ⟨r, _, hrange, _⟩ := hwritten.writable
    rw [length_littleEndian] at hrange
    exact hrange.2.2
  unfold addressBound at hfits
  have hroom : 8 ≤ top.toNat := by omega
  have hplace : (top - 8).toNat = top.toNat - 8 := by omega
  exact ⟨hroom, hplace, hplace ▸ hwritten⟩

/-- What pushing some words does: they stand below the stack pointer as it was, and nothing else
has changed. -/
structure Stacked (g : Guest) (values : List Word) (g' : Guest) : Prop where
  wellFormed : g'.memory.WellFormed
  layout : g'.memory.layout = g.memory.layout
  room : 8 * values.length ≤ (g.machine.get .rsp).toNat
  top : (g'.machine.get .rsp).toNat = (g.machine.get .rsp).toNat - 8 * values.length
  rest : (∀ r, r ≠ .rsp → g'.machine.get r = g.machine.get r) ∧ g'.machine.flags = g.machine.flags
  byte? : ∀ x, ¬ Span.Holds ((g.machine.get .rsp).toNat - 8 * values.length, 8 * values.length) x →
    g'.memory.byte? x = g.memory.byte? x
  wordAt : ∀ i (hi : i < values.length),
    g'.memory.wordAt ((g.machine.get .rsp).toNat - 8 * (i + 1)) 8 = values[i]

theorem Pushed.stacked {g g' : Guest} {values : List Word} (h : Pushed g values g')
    (hm : g.memory.WellFormed) : Stacked g values g' := by
  induction h with
  | nil =>
    exact ⟨hm, rfl, Nat.zero_le _, rfl, ⟨fun _ _ => rfl, rfl⟩, fun _ _ => rfl, fun i hi => by
      simp at hi⟩
  | @cons g g₁ g' value rest hpush _ ih =>
    obtain ⟨m₁, hstore, rfl⟩ := pushWord_ok hpush
    obtain ⟨hroom, hplace, hwritten⟩ := written_of_push hm hstore
    have ih := ih hwritten.wellFormed
    have hrsp : ((g.machine.set .rsp (g.machine.get .rsp - 8)).get .rsp).toNat =
        (g.machine.get .rsp).toNat - 8 := by
      rw [MachineState.get_set, if_pos rfl, hplace]
    have hlength : (littleEndian 8 value.toNat).length = 8 := length_littleEndian _ _
    have hrest := ih.room
    have htop := ih.top
    have hbytes := ih.byte?
    have hwords := ih.wordAt
    simp only [hrsp] at hrest htop hbytes hwords
    constructor
    case wellFormed => exact ih.wellFormed
    case layout => exact ih.layout.trans hwritten.layout
    case room =>
      rw [List.length_cons]
      omega
    case top =>
      rw [htop, List.length_cons]
      omega
    case rest =>
      refine ⟨fun r hr => ?_, ih.rest.2⟩
      rw [ih.rest.1 r hr, MachineState.get_set, if_neg hr.symm]
    case byte? =>
      intro x hx
      rw [Span.holds_iff, List.length_cons] at hx
      rw [hbytes x (by rw [Span.holds_iff]; omega), hwritten.byte?_outside (by omega)]
    case wordAt =>
      intro i hi
      cases i with
      | zero =>
        -- The later words are all below the first one.
        have hkept : g'.memory.bytesAt ((g.machine.get .rsp).toNat - 8) 8 =
            m₁.bytesAt ((g.machine.get .rsp).toNat - 8) 8 := by
          refine AddressSpace.bytesAt_congr fun i hi => hbytes _ ?_
          rw [Span.holds_iff]
          omega
        show g'.memory.wordAt ((g.machine.get .rsp).toNat - 8) 8 = value
        rw [AddressSpace.wordAt, hkept]
        exact hwritten.wordAt_self
      | succ i =>
        rw [List.getElem_cons_succ, ← hwords i (by simpa using hi)]
        congr 1
        omega

theorem pushFrames_ok {count : Nat} {frame : Word} {g g' : Guest}
    (h : pushFrames count frame g = .ok () g') :
    ∃ values : List Word, values.length = count ∧ Pushed g values g' := by
  induction count generalizing frame g with
  | zero =>
    injection h with _ hg
    exact ⟨[], rfl, hg ▸ .nil⟩
  | succ count ih =>
    have hparts : (load (frame - 8) pointerSize >>= fun value =>
        pushWord value >>= fun _ => pushFrames count (frame - 8)) g = .ok () g' := h
    obtain ⟨value, t, hload, hparts⟩ := Step.bind_eq_ok hparts
    obtain ⟨_, g₁, hpush, hrest⟩ := Step.bind_eq_ok hparts
    obtain rfl : t = g := by
      rw [load_apply] at hload
      split at hload
      · injection hload with _ ht
        exact ht.symm
      · contradiction
    obtain ⟨values, rfl, hpushed⟩ := ih hrest
    exact ⟨value :: values, rfl, .cons hpush hpushed⟩

namespace Instruction

/-! ## Entering a frame -/

/-- The nesting count of `enter` as a word; only five bits of it count. -/
def levels (nesting : UInt8) : Word :=
  (Int64.ofNat nesting.toNat).toUInt64 &&& 31

theorem levels_toNat (nesting : UInt8) : (levels nesting).toNat = nesting.toNat % 32 := by
  have hnesting := nesting.toNat_lt
  have hword : (Int64.ofNat nesting.toNat).toUInt64 = UInt64.ofNat nesting.toNat := rfl
  rw [levels, hword, UInt64.toNat_and, UInt64.toNat_ofNat', Nat.mod_eq_of_lt (by omega)]
  exact Nat.and_two_pow_sub_one_eq_mod _ 5

/-- Makes room for the frame below the words that were pushed. -/
def openFrame (inner : Word) (frame : UInt16) : GuestM Unit := do
  setRegister .rbp inner
  setRegister .rsp ((← register .rsp) - UInt64.ofNat frame.toNat)

/-- An `enter` that succeeds pushes the frame pointer, and with any nesting the outer frame
pointers and the new one. What is left is a change of two registers. -/
theorem enter_ok {pc : Word} {frame : UInt16} {nesting : UInt8} {g g' : Guest}
    (h : (enter pc frame nesting).execute g = .ok () g') :
    ∃ outer : List Word, ∃ pushed : Guest,
      outer.length = nesting.toNat % 32 ∧
      (outer ≠ [] → outer.getLast? = some (g.machine.get .rsp - 8)) ∧
      Pushed g (g.machine.get .rbp :: outer) pushed ∧
      g' = { pushed with
        machine := (pushed.machine.set .rbp (g.machine.get .rsp - 8)).set .rsp
          (pushed.machine.get .rsp - UInt64.ofNat frame.toNat) } := by
  have hparts : (pushWord (g.machine.get .rbp) >>= fun _ => register .rsp >>= fun inner =>
      if levels nesting ≠ 0 then
        pushFrames ((levels nesting).toNat - 1) (g.machine.get .rbp) >>= fun _ =>
          pushWord inner >>= fun _ => openFrame inner frame
      else openFrame inner frame) g = .ok () g' := h
  obtain ⟨_, g₁, hfirst, hparts⟩ := Step.bind_eq_ok hparts
  have hinner : g₁.machine.get .rsp = g.machine.get .rsp - 8 := by
    obtain ⟨m₁, _, rfl⟩ := pushWord_ok hfirst
    rw [MachineState.get_set, if_pos rfl]
  have hopen (t : Guest) : openFrame (g.machine.get .rsp - 8) frame t = .ok () { t with
      machine := (t.machine.set .rbp (g.machine.get .rsp - 8)).set .rsp
        (t.machine.get .rsp - UInt64.ofNat frame.toNat) } := by
    have hget : (t.machine.set .rbp (g.machine.get .rsp - 8)).get .rsp = t.machine.get .rsp := by
      rw [MachineState.get_set, if_neg (by decide)]
    rw [← hget]
    rfl
  have hlevels := levels_toNat nesting
  change (if levels nesting ≠ 0 then
      pushFrames ((levels nesting).toNat - 1) (g.machine.get .rbp) >>= fun _ =>
        pushWord (g₁.machine.get .rsp) >>= fun _ => openFrame (g₁.machine.get .rsp) frame
    else openFrame (g₁.machine.get .rsp) frame) g₁ = .ok () g' at hparts
  rw [hinner] at hparts
  by_cases hflat : levels nesting = 0
  · rw [if_neg (by simpa using hflat), hopen] at hparts
    injection hparts with _ hg
    rw [hflat] at hlevels
    exact ⟨[], g₁, hlevels, by simp, .cons hfirst .nil, hg.symm⟩
  · rw [if_pos hflat] at hparts
    obtain ⟨_, g₂, hframes, hparts⟩ := Step.bind_eq_ok hparts
    obtain ⟨_, g₃, hlast, hparts⟩ := Step.bind_eq_ok hparts
    rw [hopen] at hparts
    injection hparts with _ hg
    obtain ⟨frames, hcount, hpushed⟩ := pushFrames_ok hframes
    have hpositive : (levels nesting).toNat ≠ 0 := fun h => hflat (UInt64.toNat_inj.1 h)
    refine ⟨frames ++ [g.machine.get .rsp - 8], g₃, ?_, by simp,
      .cons hfirst (hpushed.append (.cons hlast .nil)), hg.symm⟩
    rw [List.length_append, hcount, List.length_singleton]
    omega

/-- What is planned for `enter` starts at the first word that it pushes, and goes up. -/
theorem planned_enter (pc : Word) (frame : UInt16) (nesting : UInt8) (machine : MachineState) :
    (enter pc frame nesting).planned .write machine =
      [((machine.get .rsp - 8).toNat, 8 * (nesting.toNat % 32 + 1))] := by
  have hplanned : (enter pc frame nesting).planned .write machine =
      [((machine.effectiveAddress (.atRegister .rsp (-8) .b8)).toNat,
        8 * ((levels nesting).toNat + 1))] := rfl
  rw [hplanned, levels_toNat, MachineState.effectiveAddress_atRegister, UInt64.sub_eq_add_neg]
  rfl

/-- An `enter` stores the words that it pushes right below the stack pointer, and changes nothing
else. The span of its planned write has the same length, but starts where only the first of the
words is, so it is the span of the words if there is no nesting and only then. -/
theorem enter_pushes_below (pc : Word) (frame : UInt16) (nesting : UInt8) (machine : MachineState)
    {m : AddressSpace} (hm : m.WellFormed) {g : Guest}
    (h : (enter pc frame nesting).execute ⟨machine, m⟩ = .ok () g) :
    ∃ values : List Word, ∃ pushed : Guest,
      values.length = nesting.toNat % 32 + 1 ∧
      Pushed ⟨machine, m⟩ values pushed ∧ g.memory = pushed.memory ∧
      8 * values.length ≤ (machine.get .rsp).toNat ∧
      (∀ i (hi : i < values.length),
        g.memory.wordAt ((machine.get .rsp).toNat - 8 * (i + 1)) 8 = values[i]) ∧
      (∀ x, ¬ Span.Holds ((machine.get .rsp).toNat - 8 * values.length, 8 * values.length) x →
        g.memory.byte? x = m.byte? x) ∧
      (enter pc frame nesting).planned .write machine =
        [((machine.get .rsp).toNat - 8, 8 * values.length)] ∧
      ((enter pc frame nesting).planned .write machine =
          [((machine.get .rsp).toNat - 8 * values.length, 8 * values.length)] ↔
        nesting.toNat % 32 = 0) := by
  obtain ⟨outer, pushed, hlength, _, hpushed, rfl⟩ := enter_ok h
  have hcount : (machine.get .rbp :: outer).length = nesting.toNat % 32 + 1 := by
    rw [List.length_cons, hlength]
  have hstacked := hpushed.stacked hm
  have hroom := hstacked.room
  rw [hcount] at hroom
  change 8 * (nesting.toNat % 32 + 1) ≤ (machine.get .rsp).toNat at hroom
  have htop : (machine.get .rsp - 8).toNat = (machine.get .rsp).toNat - 8 := by
    apply UInt64.toNat_sub_of_le
    rw [UInt64.le_iff_toNat_le]
    show 8 ≤ (machine.get .rsp).toNat
    omega
  refine ⟨machine.get .rbp :: outer, pushed, hcount, hpushed, rfl, hstacked.room, hstacked.wordAt,
    hstacked.byte?, ?_, ?_⟩
  · rw [planned_enter, hcount, htop]
  · rw [planned_enter, hcount, htop]
    simp only [List.cons.injEq, Prod.mk.injEq, and_true]
    omega

/-! ## Popping into memory -/

/-- How far a pop moves the address of an operand, by moving the stack pointer. -/
def popShift (mem : MemoryOperand) : Word :=
  (if mem.base = some .rsp then 8 else 0) +
    (if mem.index = some .rsp then 8 * mem.scale.toUInt64 else 0)

theorem effectiveAddress_popped (machine : MachineState) (mem : MemoryOperand) :
    (machine.set .rsp (machine.get .rsp + 8)).effectiveAddress mem =
      machine.effectiveAddress mem + popShift mem := by
  have hget (r : Register) : (machine.set .rsp (machine.get .rsp + 8)).get r =
      machine.get r + (if r = .rsp then 8 else 0) := by
    rw [MachineState.get_set]
    by_cases hr : r = .rsp
    · rw [if_pos hr.symm, if_pos hr, hr]
    · rw [if_neg (Ne.symm hr), if_neg hr, UInt64.add_zero]
  have hbase : (mem.base.map (machine.set .rsp (machine.get .rsp + 8)).get).getD 0 =
      (mem.base.map machine.get).getD 0 + (if mem.base = some .rsp then 8 else 0) := by
    cases mem.base with
    | none => rfl
    | some r => simp [hget]
  have hindex : (mem.index.map fun r =>
        (machine.set .rsp (machine.get .rsp + 8)).get r * mem.scale.toUInt64).getD 0 =
      (mem.index.map fun r => machine.get r * mem.scale.toUInt64).getD 0 +
        (if mem.index = some .rsp then 8 * mem.scale.toUInt64 else 0) := by
    cases mem.index with
    | none => rfl
    | some r =>
      simp only [Option.map_some, Option.getD_some, hget, UInt64.add_mul, Option.some.injEq]
      split
      · rfl
      · rw [UInt64.zero_mul]
  rw [MachineState.effectiveAddress, MachineState.effectiveAddress, hbase, hindex, popShift]
  ac_rfl

/-- The address moves by a little at most: a pop moves the stack pointer by one word, and no scale
is greater than 255. -/
theorem popShift_bounds (mem : MemoryOperand) :
    (popShift mem).toNat = 0 ∨ 8 ≤ (popShift mem).toNat ∧ (popShift mem).toNat ≤ 2048 := by
  have hscale := mem.scale.toNat_lt
  have hproduct : (8 * mem.scale.toUInt64).toNat = 8 * mem.scale.toNat := by
    have height : (8 : Word).toNat = 8 := rfl
    rw [UInt64.toNat_mul, UInt8.toNat_toUInt64, height]
    exact Nat.mod_eq_of_lt (by omega)
  have hindex : (if mem.index = some .rsp then 8 * mem.scale.toUInt64 else 0).toNat =
      if mem.index = some .rsp then 8 * mem.scale.toNat else 0 := by
    split
    · exact hproduct
    · rfl
  have hbase : (if mem.base = some .rsp then (8 : Word) else 0).toNat =
      if mem.base = some .rsp then 8 else 0 := by
    split <;> rfl
  rw [popShift, UInt64.toNat_add, hbase, hindex]
  split <;> split <;> omega

theorem pop_ok {pc : Word} {mem : MemoryOperand} {machine : MachineState} {m : AddressSpace}
    {g : Guest} (h : (pop pc (.memory mem)).execute ⟨machine, m⟩ = .ok () g) :
    ∃ value m', m.load (machine.get .rsp).toNat pointerSize = .ok value ∧
      m.store (machine.effectiveAddress mem + popShift mem).toNat mem.size.bytes value = .ok m' ∧
      g = ⟨machine.set .rsp (machine.get .rsp + 8), m'⟩ := by
  have hparts : (popWord >>= fun value => (Operand.memory mem).assign value) ⟨machine, m⟩ =
      .ok () g := h
  obtain ⟨value, t, hpop, hassign⟩ := Step.bind_eq_ok hparts
  rw [popWord_apply] at hpop
  split at hpop
  · rename_i loaded hload
    injection hpop with hvalue ht
    subst hvalue ht
    rw [Operand.assign_memory] at hassign
    split at hassign
    · rw [store_apply, effectiveAddress_popped] at hassign
      split at hassign
      · rename_i m' hstore
        injection hassign with _ hg
        exact ⟨loaded, m', hload, hstore, hg.symm⟩
      · contradiction
    · contradiction
  · contradiction

/-- A pop into memory stores the word from the top of the stack at the planned address, moved as
far as the pop moves that address. If it moves it at all, no stored byte is in the planned span. -/
theorem pop_stores_behind (pc : Word) (mem : MemoryOperand) (machine : MachineState)
    {m : AddressSpace} (hm : m.WellFormed) {g : Guest}
    (h : (pop pc (.memory mem)).execute ⟨machine, m⟩ = .ok () g) :
    ∃ value : Word, ∃ target : Nat,
      m.load (machine.get .rsp).toNat pointerSize = .ok value ∧
      Written m target (littleEndian mem.size.bytes value.toNat) g.memory ∧
      g.machine = machine.set .rsp (machine.get .rsp + 8) ∧
      target = (machine.effectiveAddress mem + popShift mem).toNat ∧
      (pop pc (.memory mem)).planned .write machine =
        [((machine.effectiveAddress mem).toNat, mem.size.bytes)] ∧
      (popShift mem = 0 → target = (machine.effectiveAddress mem).toNat) ∧
      (popShift mem ≠ 0 → ∀ x, Span.Holds (target, mem.size.bytes) x →
        ¬ Span.Holds ((machine.effectiveAddress mem).toNat, mem.size.bytes) x) := by
  obtain ⟨value, m', hload, hstore, rfl⟩ := pop_ok h
  obtain ⟨hwidth, hwritten⟩ := hm.store_ok hstore
  have hother : (pop pc (.memory mem)).opcode ≠ .enter := by
    show Opcode.pop ≠ .enter
    decide
  refine ⟨value, _, hload, hwritten, rfl, rfl, (planned_eq hother machine).2, fun hstill => ?_,
    fun hmoved x hx hx' => ?_⟩
  · rw [hstill, UInt64.add_zero]
  · have hlength := AddressSpace.isScalarWidth_le hwidth
    have hshift : (popShift mem).toNat ≠ 0 := fun h => hmoved (UInt64.toNat_inj.1 h)
    have hbounds := popShift_bounds mem
    have hplan := (machine.effectiveAddress mem).toNat_lt
    rw [Span.holds_iff, UInt64.toNat_add] at hx
    rw [Span.holds_iff] at hx'
    omega

end Instruction

namespace Sample

/-- A small stack with the word 1 in the middle of it. -/
def stack : AddressSpace :=
  { AddressSpace.empty with
    regions := [⟨0x10000000, 64, .readWrite, .owned ((Storage.zeroed 64).write 32 [1])⟩]
    ownedBytes := 64 }

/-- The stack pointer at that word, the frame pointer above it. -/
def stackMachine : MachineState :=
  (MachineState.initial.set .rsp 0x10000020).set .rbp 0x10000030

theorem wellFormed_stack : stack.WellFormed := by
  refine ⟨List.pairwise_singleton _ _, fun r hr => ?_⟩
  obtain rfl := List.mem_singleton.1 hr
  exact ⟨by decide, Storage.size_write _ _ _⟩

/-- With one level of nesting two words are pushed, from 0x10000010 on. -/
theorem enter_one_level :
    ∃ g, stack.WellFormed ∧ (Instruction.enter 0x400000 0 1).execute ⟨stackMachine, stack⟩ =
        .ok () g ∧
      (∀ x, ¬ Span.Holds (0x10000010, 16) x → g.memory.byte? x = stack.byte? x) ∧
      (Instruction.enter 0x400000 0 1).planned .write stackMachine = [(0x10000018, 16)] := by
  obtain ⟨g, hexecute⟩ : ∃ g, (Instruction.enter 0x400000 0 1).execute ⟨stackMachine, stack⟩ =
      .ok () g := ⟨_, rfl⟩
  obtain ⟨values, _, hlength, _, _, _, _, hrest, hplanned, _⟩ :=
    Instruction.enter_pushes_below 0x400000 0 1 stackMachine wellFormed_stack hexecute
  have htwo : values.length = 2 := hlength
  rw [htwo] at hrest hplanned
  exact ⟨g, wellFormed_stack, hexecute, hrest, hplanned⟩

/-- The second of the words is below the planned span. -/
theorem enter_below_plan :
    ∃ g, (Instruction.enter 0x400000 0 1).execute ⟨stackMachine, stack⟩ = .ok () g ∧
      g.memory.byte? 0x10000010 ≠ stack.byte? 0x10000010 ∧
      ∀ span ∈ (Instruction.enter 0x400000 0 1).planned .write stackMachine,
        ¬ span.Holds 0x10000010 := by
  refine ⟨_, rfl, by decide +kernel, ?_⟩
  rw [Instruction.planned_enter]
  simp only [List.mem_singleton, forall_eq, Span.holds_iff]
  decide +kernel

/-- A pop to the top of the stack stores to the next word. -/
theorem pop_to_top :
    ∃ g, stack.WellFormed ∧ (Instruction.pop 0x400000 (.memory (.atRegister .rsp 0 .b8))).execute
        ⟨stackMachine, stack⟩ = .ok () g ∧
      Written stack 0x10000028 (littleEndian 8 1) g.memory := by
  obtain ⟨g, hexecute⟩ : ∃ g, (Instruction.pop 0x400000 (.memory (.atRegister .rsp 0 .b8))).execute
      ⟨stackMachine, stack⟩ = .ok () g := ⟨_, rfl⟩
  obtain ⟨value, target, hload, hwritten, _, htarget, _⟩ :=
    Instruction.pop_stores_behind 0x400000 (.atRegister .rsp 0 .b8) stackMachine wellFormed_stack
      hexecute
  have hone : stack.load (stackMachine.get .rsp).toNat pointerSize = .ok 1 := rfl
  obtain rfl := Except.ok.inj (hload.symm.trans hone)
  obtain rfl : target = 0x10000028 := htarget
  exact ⟨g, wellFormed_stack, hexecute, hwritten⟩

theorem pop_beside_plan :
    ∃ g, (Instruction.pop 0x400000 (.memory (.atRegister .rsp 0 .b8))).execute
        ⟨stackMachine, stack⟩ = .ok () g ∧
      g.memory.byte? 0x10000028 ≠ stack.byte? 0x10000028 ∧
      ∀ span ∈ (Instruction.pop 0x400000 (.memory (.atRegister .rsp 0 .b8))).planned .write
          stackMachine, ¬ span.Holds 0x10000028 := by
  refine ⟨_, rfl, by decide +kernel, fun span hspan => ?_⟩
  obtain rfl := List.mem_singleton.1 hspan
  rw [Span.holds_iff]
  decide +kernel

end Sample

end AccessTrace
