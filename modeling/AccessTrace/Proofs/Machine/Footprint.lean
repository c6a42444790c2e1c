import AccessTrace.FastPath.Access
import AccessTrace.Proofs.Machine.Steps
import AccessTrace.Proofs.Memory.Bytes

/-!
# Planned accesses are the real ones

The accesses of an instruction are planned from its operand lists, while each opcode is executed
by code of its own. A footprint says of a step that it reads at most some spans of memory and
writes exactly some others, all of them known before the step: whatever else is in memory, it
succeeds with the same machine and stores the same bytes. Every instruction has the footprint that
its planned accesses name, except for two kinds. A `pop` into memory addressed through the stack
pointer stores behind the moved pointer; and `enter` copies outer frame pointers that no operand
names.
-/

namespace AccessTrace

/-- A first address and a length. -/
abbrev Span := Nat × Nat

def Span.Holds (span : Span) (x : Nat) : Prop :=
  span.1 ≤ x ∧ x < span.1 + span.2

theorem Span.holds_iff {a n x : Nat} : Span.Holds (a, n) x ↔ a ≤ x ∧ x < a + n := Iff.rfl

namespace AddressSpace

/-- The bytes of the spans are the same in both. -/
def Agrees (m m₂ : AddressSpace) (spans : List Span) : Prop :=
  ∀ span ∈ spans, ∀ i < span.2, m₂.byte? (span.1 + i) = m.byte? (span.1 + i)

/-- `m'` is `m` with `bytes` stored in the spans, of which there is one at most. -/
inductive Stored (m : AddressSpace) : List Span → List UInt8 → AddressSpace → Prop where
  | none : Stored m [] [] m
  | one {a n : Nat} {bytes : List UInt8} {m' : AddressSpace} (hn : bytes.length = n)
    (h : Written m a bytes m') : Stored m [(a, n)] bytes m'

theorem Stored.wellFormed {m m' : AddressSpace} {spans : List Span} {bytes : List UInt8}
    (h : Stored m spans bytes m') (hm : m.WellFormed) : m'.WellFormed := by
  cases h with
  | none => exact hm
  | one _ h => exact h.wellFormed

theorem Stored.layout {m m' : AddressSpace} {spans : List Span} {bytes : List UInt8}
    (h : Stored m spans bytes m') : m'.layout = m.layout := by
  cases h with
  | none => rfl
  | one _ h => exact h.layout

/-- Outside the spans nothing changes. -/
theorem Stored.byte?_outside {m m' : AddressSpace} {spans : List Span} {bytes : List UInt8}
    (h : Stored m spans bytes m') {x : Nat} (hx : ∀ span ∈ spans, ¬ span.Holds x) :
    m'.byte? x = m.byte? x := by
  cases h with
  | none => rfl
  | @one a n _ _ hn h =>
    have hout := hx (a, n) (List.mem_singleton_self _)
    subst hn
    exact h.byte?_outside hout

/-- Inside the spans the bytes do not depend on what was there. -/
theorem Stored.byte?_inside {m m' m₂ m₂' : AddressSpace} {spans : List Span} {bytes : List UInt8}
    (h : Stored m spans bytes m') (h₂ : Stored m₂ spans bytes m₂') {x : Nat}
    (hx : ∃ span ∈ spans, span.Holds x) : m₂'.byte? x = m'.byte? x := by
  obtain ⟨span, hspan, hx⟩ := hx
  cases h with
  | none => simp at hspan
  | @one a n _ _ hn h =>
    cases h₂ with
    | one _ h₂ =>
      obtain rfl := List.mem_singleton.1 hspan
      subst hn
      have hrange : a ≤ x ∧ x < a + bytes.length := hx
      rw [h.byte? x, h₂.byte? x, if_pos hrange, if_pos hrange]

theorem Stored.writable {m m' : AddressSpace} {spans : List Span} {bytes : List UInt8}
    (h : Stored m spans bytes m') : ∀ span ∈ spans, m.Writable span.1 span.2 := by
  cases h with
  | none => simp
  | one hn h =>
    intro span hspan
    obtain rfl := List.mem_singleton.1 hspan
    exact hn ▸ h.writable

end AddressSpace

open AddressSpace (Agrees Stored Written)

/-! ## Footprints of steps -/

/-- From this machine a step reads nothing but the one spans and writes just the others. -/
def Footprint {α : Type} (step : GuestM α) (machine : MachineState) (reads writes : List Span) :
    Prop :=
  ∀ (m : AddressSpace) (a : α) (g : Guest), m.WellFormed → step ⟨machine, m⟩ = .ok a g →
    (∀ span ∈ reads, m.Readable span.1 span.2) ∧
    ∃ bytes, Stored m writes bytes g.memory ∧
      ∀ m₂ : AddressSpace, m₂.WellFormed → m₂.layout = m.layout → Agrees m m₂ reads →
        ∃ m₂', step ⟨machine, m₂⟩ = .ok a ⟨g.machine, m₂'⟩ ∧ Stored m₂ writes bytes m₂'

namespace Footprint

variable {α β : Type} {step : GuestM α} {next : α → GuestM β} {machine : MachineState}
  {reads reads' writes : List Span}

/-- A step that only computes on the machine touches no memory. -/
theorem of_machine (a : α) (machine' : MachineState)
    (h : ∀ m, step ⟨machine, m⟩ = .ok a ⟨machine', m⟩) : Footprint step machine [] [] := by
  intro m b g hm hstep
  rw [h m] at hstep
  injection hstep with hb hg
  subst hb hg
  exact ⟨by simp, [], .none, fun m₂ _ _ _ => ⟨m₂, h m₂, .none⟩⟩

/-- A step that cannot succeed has every footprint. -/
theorem of_failure (h : ∀ m, ∃ e g, step ⟨machine, m⟩ = .error e g) :
    Footprint step machine reads writes := by
  intro m a g _ hstep
  obtain ⟨e, g', he⟩ := h m
  rw [he] at hstep
  contradiction

/-- A footprint is one of what the step does, not of how it is written. -/
theorem congr {step' : GuestM α} {machine' : MachineState}
    (h : ∀ m, step ⟨machine, m⟩ = step' ⟨machine', m⟩)
    (hstep : Footprint step' machine' reads writes) : Footprint step machine reads writes := by
  intro m a g hm hok
  rw [h m] at hok
  obtain ⟨hread, bytes, hstored, htwin⟩ := hstep m a g hm hok
  refine ⟨hread, bytes, hstored, fun m₂ hm₂ hlayout hagrees => ?_⟩
  rw [h m₂]
  exact htwin m₂ hm₂ hlayout hagrees

/-- First a part that reads, then the rest. -/
theorem bind (hstep : Footprint step machine reads [])
    (hnext : ∀ m a g, step ⟨machine, m⟩ = .ok a g → Footprint (next a) g.machine reads' writes) :
    Footprint (step >>= next) machine (reads ++ reads') writes := by
  intro m b g hm h
  obtain ⟨a, t, hfirst, hrest⟩ := Step.bind_eq_ok h
  obtain ⟨hread, bytes, hstored, htwin⟩ := hstep m a t hm hfirst
  cases hstored
  obtain ⟨hread', bytes', hstored', htwin'⟩ := hnext _ a t hfirst t.memory b g hm hrest
  refine ⟨fun span hspan => ?_, bytes', hstored', fun m₂ hm₂ hlayout hagrees => ?_⟩
  · rcases List.mem_append.1 hspan with hspan | hspan
    · exact hread span hspan
    · exact hread' span hspan
  · obtain ⟨m₂', hfirst₂, hstored₂⟩ := htwin m₂ hm₂ hlayout
      fun span hspan => hagrees span (List.mem_append_left _ hspan)
    cases hstored₂
    obtain ⟨m₃, hrest₂, hstored₃⟩ := htwin' m₂ hm₂ hlayout
      fun span hspan => hagrees span (List.mem_append_right _ hspan)
    exact ⟨m₃, (Step.bind_of_ok hfirst₂).trans hrest₂, hstored₃⟩

/-- First a part that may write, then one that only computes on the machine. -/
theorem bind_machine (hstep : Footprint step machine reads writes) (next : α → GuestM β)
    (hnext : ∀ a (t : MachineState), ∃ b t', ∀ m, next a ⟨t, m⟩ = .ok b ⟨t', m⟩) :
    Footprint (step >>= next) machine reads writes := by
  intro m b g hm h
  obtain ⟨a, t, hfirst, hrest⟩ := Step.bind_eq_ok h
  obtain ⟨hread, bytes, hstored, htwin⟩ := hstep m a t hm hfirst
  obtain ⟨b', t', hcompute⟩ := hnext a t.machine
  have hb := (hcompute t.memory).symm.trans hrest
  injection hb with hb hg
  subst hb hg
  refine ⟨hread, bytes, hstored, fun m₂ hm₂ hlayout hagrees => ?_⟩
  obtain ⟨m₂', hfirst₂, hstored₂⟩ := htwin m₂ hm₂ hlayout hagrees
  exact ⟨m₂', (Step.bind_of_ok hfirst₂).trans (hcompute m₂'), hstored₂⟩

theorem load (address : Word) (width : Nat) (machine : MachineState) :
    Footprint (Guest.load address width) machine [(address.toNat, width)] [] := by
  intro m value g hm h
  rw [Guest.load_apply] at h
  cases hload : m.load address.toNat width with
  | error e =>
    rw [hload] at h
    contradiction
  | ok v =>
    rw [hload] at h
    injection h with hv hg
    subst hv hg
    obtain ⟨hwidth, hread, hvalue⟩ := hm.load_ok hload
    refine ⟨by simpa using hread, [], .none, fun m₂ hm₂ hlayout hagrees => ?_⟩
    have hbytes := hagrees (address.toNat, width) (by simp)
    have hread₂ : m₂.Readable address.toNat width :=
      hread.of_layout hm hm₂ hlayout fun i hi => by rw [hbytes i hi]; exact id
    refine ⟨m₂, Guest.load_of_ok _ ?_, .none⟩
    change m₂.load address.toNat width = _
    rw [hm₂.load_of_readable hwidth hread₂, hvalue, AddressSpace.wordAt, AddressSpace.wordAt,
      AddressSpace.bytesAt_congr hbytes]

theorem store (address : Word) (width : Nat) (value : Word) (machine : MachineState) :
    Footprint (Guest.store address width value) machine [] [(address.toNat, width)] := by
  intro m a g hm h
  rw [Guest.store_apply] at h
  cases hstore : m.store address.toNat width value with
  | error e =>
    rw [hstore] at h
    contradiction
  | ok m' =>
    rw [hstore] at h
    injection h with ha hg
    subst hg
    obtain ⟨hwidth, hwritten⟩ := hm.store_ok hstore
    have hlength : (littleEndian width value.toNat).length = width := length_littleEndian _ _
    refine ⟨by simp, littleEndian width value.toNat, .one hlength hwritten,
      fun m₂ hm₂ hlayout _ => ?_⟩
    have hw := hwritten.writable.of_layout hlayout
    rw [hlength] at hw
    obtain ⟨m₂', hstore₂, hwritten₂⟩ := hm₂.store_of_writable hwidth hw value
    exact ⟨m₂', Guest.store_of_ok _ hstore₂, .one hlength hwritten₂⟩

end Footprint

/-! ## Operands -/

namespace MachineState

/-- Where a memory operand starts, and its length. -/
def span (machine : MachineState) (mem : MemoryOperand) : Span :=
  ((machine.effectiveAddress mem).toNat, mem.size.bytes)

theorem effectiveAddress_set (machine : MachineState) {r : Register} {value : Word}
    {mem : MemoryOperand} (hbase : mem.base ≠ some r) (hindex : mem.index ≠ some r) :
    (machine.set r value).effectiveAddress mem = machine.effectiveAddress mem := by
  have hget : ∀ {t : Option Register}, t ≠ some r → ∀ s ∈ t, (machine.set r value).get s =
      machine.get s := by
    intro t ht s hs
    rw [get_set, if_neg]
    rintro rfl
    exact ht hs
  unfold effectiveAddress
  cases hb : mem.base with
  | none =>
    cases hi : mem.index with
    | none => rfl
    | some i => simp [hget hindex i hi]
  | some b =>
    cases hi : mem.index with
    | none => simp [hget hbase b hb]
    | some i => simp [hget hbase b hb, hget hindex i hi]

end MachineState

namespace Operand

/-- The memory that the operand names. -/
def spans (machine : MachineState) : Operand → List Span
  | memory mem => [machine.span mem]
  | _ => []

theorem footprint_value (op : Operand) (machine : MachineState) :
    Footprint op.value machine (op.spans machine) [] := by
  cases op with
  | register r => exact Footprint.of_machine (machine.get r) machine fun _ => rfl
  | immediate v => exact Footprint.of_machine v.toUInt64 machine fun _ => rfl
  | memory mem =>
    by_cases hwidth : AddressSpace.isScalarWidth mem.size.bytes = true
    · intro m a g hm h
      have hload := Footprint.load (machine.effectiveAddress mem) mem.size.bytes machine
      rw [value_memory, if_pos hwidth] at h
      obtain ⟨hread, bytes, hstored, htwin⟩ := hload m a g hm h
      refine ⟨hread, bytes, hstored, fun m₂ hm₂ hlayout hagrees => ?_⟩
      rw [value_memory, if_pos hwidth]
      exact htwin m₂ hm₂ hlayout hagrees
    · refine Footprint.of_failure fun m => ⟨.badOperand .regionAsScalar, ⟨machine, m⟩, ?_⟩
      rw [value_memory, if_neg hwidth]

theorem footprint_assign (op : Operand) (value : Word) (machine : MachineState) :
    Footprint (op.assign value) machine [] (op.spans machine) := by
  cases op with
  | register r => exact Footprint.of_machine () (machine.set r value) fun _ => rfl
  | immediate v =>
    exact Footprint.of_failure fun m =>
      ⟨.badOperand .immediateDestination, ⟨machine, m⟩, assign_immediate v value _⟩
  | memory mem =>
    by_cases hwidth : AddressSpace.isScalarWidth mem.size.bytes = true
    · intro m a g hm h
      have hstore := Footprint.store (machine.effectiveAddress mem) mem.size.bytes value machine
      rw [assign_memory, if_pos hwidth] at h
      obtain ⟨hread, bytes, hstored, htwin⟩ := hstore m a g hm h
      refine ⟨hread, bytes, hstored, fun m₂ hm₂ hlayout hagrees => ?_⟩
      rw [assign_memory, if_pos hwidth]
      exact htwin m₂ hm₂ hlayout hagrees
    · refine Footprint.of_failure fun m => ⟨.badOperand .regionAsScalar, ⟨machine, m⟩, ?_⟩
      rw [assign_memory, if_neg hwidth]

/-- Taking the value of an operand changes nothing. -/
theorem state_of_value {op : Operand} {g g' : Guest} {v : Word} (h : op.value g = .ok v g') :
    g' = g := by
  cases op with
  | register r =>
    injection h with _ hg
    exact hg.symm
  | immediate v =>
    injection h with _ hg
    exact hg.symm
  | memory mem =>
    rw [value_memory] at h
    split at h
    · rw [Guest.load_apply] at h
      split at h
      · injection h with _ hg
        exact hg.symm
      · contradiction
    · contradiction

/-- First the value of an operand, then a step that uses it. -/
theorem footprint_value_bind {α : Type} (op : Operand) (machine : MachineState)
    {next : Word → GuestM α} {reads writes : List Span}
    (hnext : ∀ v, Footprint (next v) machine reads writes) :
    Footprint (op.value >>= next) machine (op.spans machine ++ reads) writes := by
  refine (op.footprint_value machine).bind fun m v g h => ?_
  rw [state_of_value h]
  exact hnext v

/-- A moved register does not move an operand that is not addressed through it. -/
theorem spans_set {op : Operand} (machine : MachineState) {r : Register} (value : Word)
    (h : ∀ mem, op = memory mem → mem.base ≠ some r ∧ mem.index ≠ some r) :
    op.spans (machine.set r value) = op.spans machine := by
  cases op with
  | register _ => rfl
  | immediate _ => rfl
  | memory mem =>
    obtain ⟨hbase, hindex⟩ := h mem rfl
    rw [spans, spans, MachineState.span, MachineState.span,
      machine.effectiveAddress_set hbase hindex]

end Operand

/-! ## Instructions -/

namespace MachineState

theorem effectiveAddress_atRegister (machine : MachineState) (base : Register)
    (displacement : Int64) (size : OperandSize) :
    machine.effectiveAddress (.atRegister base displacement size) =
      machine.get base + displacement.toUInt64 := by
  simp [effectiveAddress, MemoryOperand.atRegister]

theorem effectiveAddress_top (machine : MachineState) (base : Register) (size : OperandSize) :
    machine.effectiveAddress (.atRegister base 0 size) = machine.get base := by
  rw [effectiveAddress_atRegister]
  exact UInt64.add_zero _

end MachineState

theorem footprint_pushWord (value : Word) (machine : MachineState) :
    Footprint (pushWord value) machine []
      [machine.span (.atRegister .rsp (-8) .b8)] := by
  have hspan : machine.span (.atRegister .rsp (-8) .b8) =
      ((machine.get .rsp - 8).toNat, pointerSize) := by
    rw [MachineState.span, MachineState.effectiveAddress_atRegister]
    rw [show (-8 : Int64).toUInt64 = -8 from rfl, ← UInt64.sub_eq_add_neg]
    rfl
  rw [hspan]
  have h := (Footprint.store (machine.get .rsp - 8) pointerSize value machine).bind_machine
    (fun _ => Guest.setRegister .rsp (machine.get .rsp - 8))
    fun _ t => ⟨(), t.set .rsp (machine.get .rsp - 8), fun _ => rfl⟩
  refine Footprint.congr (fun m => ?_) h
  rfl

theorem footprint_popWord (machine : MachineState) :
    Footprint popWord machine [machine.span (.atRegister .rsp 0 .b8)] [] := by
  have hspan : machine.span (.atRegister .rsp 0 .b8) =
      ((machine.get .rsp).toNat, pointerSize) := by
    rw [MachineState.span, MachineState.effectiveAddress_top]
    rfl
  rw [hspan]
  have h := (Footprint.load (machine.get .rsp) pointerSize machine).bind_machine
    (fun value => do Guest.setRegister .rsp (machine.get .rsp + 8); return value)
    fun v t => ⟨v, t.set .rsp (machine.get .rsp + 8), fun _ => rfl⟩
  refine Footprint.congr (fun m => ?_) h
  rfl

end AccessTrace
