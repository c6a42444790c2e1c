import AccessTrace.Proofs.Code.Injected
import AccessTrace.Proofs.Scratch.Actions

/-!
# Scopes give the machine back

`Restorable` is what the code of a scope keeps up while it is executed: a register that is not held
has the value that it had at the start, and so have the flags while they are not kept aside; of
everything else the value is in the slot where the reservations say that it is. At the end of a scope
nothing is held any more, so that the machine is the one from the start. The only instructions that
can fail are those that were emitted into the scope.
-/

namespace AccessTrace

open Reservations (Leads)

namespace Reservations

variable {res res' : Reservations} {start machine : MachineState}
  {spill : Vector Word spillSlotCount} {slot other : SpillSlot}

/-- What the machine was at the start can be told from what it is now and from the slots. -/
structure Restorable (res : Reservations) (start machine : MachineState)
    (spill : Vector Word spillSlotCount) : Prop where
  free : ∀ r, res.isHeld r = false → machine.get r = start.get r
  held : ∀ e ∈ res.held, spill[e.2.number.toNat]? = some (start.get e.1)
  flags : res.flags = .none → machine.flags = start.flags
  kept : ∀ slot, res.flags = some slot → spill[slot.number.toNat]? = some start.flags.toWord

theorem restorable_none (start : MachineState) (spill : Vector Word spillSlotCount) :
    none.Restorable start start spill :=
  ⟨fun _ _ => rfl, fun _ he => absurd he List.not_mem_nil, fun _ => rfl, nofun⟩

/-- With nothing held, the machine is the one from the start. -/
theorem Restorable.machine_eq (h : res.Restorable start machine spill) (hheld : res.held = [])
    (hflags : res.flags = .none) : machine = start := by
  refine MachineState.ext_get (fun r => h.free r ?_) (h.flags hflags)
  rw [isHeld, hheld]
  rfl

/-- What is kept aside stays where it is if something is put into a spare slot. -/
theorem Sound.getElem?_spare (h : res.Sound) (hslot : res.Spare slot) (hother : other ∈ res.owned)
    (value : Word) :
    (spill.setIfInBounds slot.number.toNat value)[other.number.toNat]? =
      spill[other.number.toNat]? := by
  have hne : slot ≠ other := by
    rintro rfl
    have hmarked := (h.marked slot).2 hother
    rw [hslot.2] at hmarked
    contradiction
  rw [Vector.getElem?_setIfInBounds, if_neg (SpillSlot.number_ne hne)]

theorem getElem?_put (hslot : slot.number.toNat < spillSlotCount) (value : Word) :
    (spill.setIfInBounds slot.number.toNat value)[slot.number.toNat]? = some value := by
  rw [Vector.getElem?_setIfInBounds, if_pos rfl, if_pos hslot]

theorem mem_owned_of_held {e : Register × SpillSlot} (h : e ∈ res.held) : e.2 ∈ res.owned :=
  List.mem_append_left _ (List.mem_map_of_mem h)

theorem mem_owned_of_flags (h : res.flags = some slot) : slot ∈ res.owned := by
  refine List.mem_append_right _ ?_
  rw [h]
  exact List.mem_singleton.2 rfl

/-- A held register may be overwritten. -/
theorem Restorable.set (h : res.Restorable start machine spill) {dst : Register}
    (hdst : res.isHeld dst = true) (value : Word) :
    res.Restorable start (machine.set dst value) spill := by
  refine ⟨fun r hr => ?_, h.held, h.flags, h.kept⟩
  have hne : dst ≠ r := by
    rintro rfl
    rw [hdst] at hr
    contradiction
  rw [MachineState.get_set_other _ hne]
  exact h.free r hr

variable {δ ω : Type} (cpu : Cpu δ ω) (f : Fragment) (s : Running δ ω)

/-- The instruction of a change can be executed, and keeps up what can be restored. -/
theorem Restorable.change (h : res.Restorable start machine spill) (hsound : res.Sound)
    {i : Injected} (hchange : res.Change (some i) res') (m : AddressSpace) :
    ∃ machine' spill', cpu.executeNode f (.injected i) (s.at machine m spill) =
        .ok .next (s.at machine' m spill') ∧ res'.Restorable start machine' spill' := by
  cases hchange with
  | @spill reg slot hreg hfree hslot =>
    refine ⟨_, _, cpu.executeNode_spill f s machine m spill reg slot hslot.1, ?_, ?_, ?_, ?_⟩
    · intro r hr
      apply h.free
      rw [isHeld, List.any_append, Bool.or_eq_false_iff] at hr
      exact hr.1
    · intro e he
      rcases List.mem_append.1 he with hold | hnew
      · rw [hsound.getElem?_spare hslot (mem_owned_of_held hold)]
        exact h.held e hold
      · obtain rfl := List.mem_singleton.1 hnew
        rw [getElem?_put hslot.1, h.free reg hfree]
    · exact h.flags
    · intro other hflags
      rw [hsound.getElem?_spare hslot (mem_owned_of_flags hflags)]
      exact h.kept other hflags
  | @restore reg slot hheld =>
    obtain ⟨front, back, hsplit, herased⟩ := lookup_split hheld
    have hvalue := h.held (reg, slot) (by simp [hsplit])
    refine ⟨_, _, cpu.executeNode_restore f s machine m spill reg slot _ hvalue, ?_, ?_, ?_, ?_⟩
    · intro r hr
      by_cases heq : reg = r
      · rw [← heq, MachineState.get_set_self]
      · rw [MachineState.get_set_other _ heq]
        apply h.free
        have hothers : (res.held.eraseP fun e => e.1 == reg).any (fun e => e.1 == r) = false := hr
        rw [herased, List.any_append] at hothers
        rw [isHeld, hsplit, List.any_append, List.any_cons, beq_false_of_ne heq, Bool.false_or,
          hothers]
    · intro e he
      exact h.held e (List.mem_of_mem_eraseP he)
    · exact h.flags
    · exact h.kept
  | @saveFlags slot hflags hslot =>
    refine ⟨_, _, cpu.executeNode_saveFlags f s machine m spill slot hslot.1, h.free, ?_, ?_, ?_⟩
    · intro e he
      rw [hsound.getElem?_spare hslot (mem_owned_of_held he)]
      exact h.held e he
    · intro hnone
      contradiction
    · intro other hother
      obtain rfl := Option.some.inj hother
      rw [getElem?_put hslot.1, h.flags hflags]
  | @restoreFlags slot hflags =>
    refine ⟨_, _, cpu.executeNode_restoreFlags f s machine m spill slot _ (h.kept slot hflags),
      h.free, h.held, ?_, ?_⟩
    · intro _
      exact ArithmeticFlags.ofWord_toWord _
    · intro other hother
      contradiction

/-- An instruction that is allowed fails, or keeps up what can be restored. -/
theorem Restorable.emit (h : res.Restorable start machine spill) {i : Injected}
    (hallows : res.Allows i) (m : AddressSpace) :
    (∃ machine' m', cpu.executeNode f (.injected i) (s.at machine m spill) =
        .ok .next (s.at machine' m' spill) ∧ res.Restorable start machine' spill) ∨
      ∃ e t, cpu.executeNode f (.injected i) (s.at machine m spill) = .error e t := by
  cases i with
  | loadAddress dst mem =>
    exact Or.inl ⟨_, _, cpu.executeNode_loadAddress f s machine m spill dst mem, h.set hallows _⟩
  | readField dst field =>
    cases hword : s.thread.fieldWord field with
    | ok word =>
      exact Or.inl ⟨_, _, cpu.executeNode_readField f s machine m spill dst hword, h.set hallows _⟩
    | error e => exact Or.inr ⟨_, _, cpu.executeNode_readField_error f s machine m spill dst hword⟩
  | load dst base disp =>
    cases hload : m.load (machine.get base + disp.toInt64.toUInt64).toNat 8 with
    | ok value =>
      exact Or.inl ⟨_, _, cpu.executeNode_load f s machine m spill dst base hload, h.set hallows _⟩
    | error e => exact Or.inr ⟨_, _, cpu.executeNode_load_error f s machine m spill dst base hload⟩
  | store base disp src =>
    cases hstore : m.store (machine.get base + disp.toInt64.toUInt64).toNat 8 (machine.get src) with
    | ok m' => exact Or.inl ⟨_, _, cpu.executeNode_store f s machine m spill base src hstore, h⟩
    | error e => exact Or.inr ⟨_, _, cpu.executeNode_store_error f s machine m spill base src hstore⟩
  | storeImmediate base disp value width =>
    cases hstore : m.store (machine.get base + disp.toInt64.toUInt64).toNat width.bytes value with
    | ok m' =>
      exact Or.inl ⟨_, _, cpu.executeNode_storeImmediate f s machine m spill base hstore, h⟩
    | error e =>
      exact Or.inr ⟨_, _, cpu.executeNode_storeImmediate_error f s machine m spill base hstore⟩
  | sum dst base index disp =>
    exact Or.inl ⟨_, _, cpu.executeNode_sum f s machine m spill dst base index disp,
      h.set hallows _⟩
  | testZero reg =>
    refine Or.inl ⟨_, _, cpu.executeNode_testZero f s machine m spill reg, h.free, h.held, ?_,
      h.kept⟩
    intro hflags
    have hsome : res.flags.isSome = true := hallows
    rw [hflags] at hsome
    contradiction
  | _ => contradiction

end Reservations

/-! ## The code of a scope -/

/-- Straight code is executed up to an instruction of this kind, which fails. -/
def Cpu.FailsIn {δ ω : Type} (cpu : Cpu δ ω) (f : Fragment) (emitted : Injected → Prop)
    (code : List Injected) (s : Running δ ω) : Prop :=
  ∃ front i back t e t', code = front ++ i :: back ∧ emitted i ∧
    cpu.Flows f (front.map .injected) s t ∧ cpu.executeNode f (.injected i) t = .error e t'

namespace Reservations

variable {δ ω : Type} {cpu : Cpu δ ω} {f : Fragment} {emitted : Injected → Prop}
  {code more : List Injected} {res : Reservations} {s t : Running δ ω} {i : Injected}

theorem failsIn_append (h : cpu.FailsIn f emitted code s) (more : List Injected) :
    cpu.FailsIn f emitted (code ++ more) s := by
  obtain ⟨front, i, back, t, e, t', rfl, hemitted, hflows, herror⟩ := h
  exact ⟨front, i, back ++ more, t, e, t', by simp, hemitted, hflows, herror⟩

theorem flows_snoc (h : cpu.Flows f (code.map .injected) s t) {u : Running δ ω}
    (hnode : cpu.executeNode f (.injected i) t = .ok .next u) :
    cpu.Flows f ((code ++ [i]).map .injected) s u := by
  rw [List.map_append]
  exact h.append (.cons hnode (.nil u))

/-- The code of a scope fails in what was emitted, or keeps up what can be restored. -/
theorem Leads.flows (h : Leads emitted none code res) (cpu : Cpu δ ω) (f : Fragment)
    (s : Running δ ω) :
    (∃ machine m spill, cpu.Flows f (code.map .injected) s (s.at machine m spill) ∧
      res.Restorable s.thread.guest.machine machine spill) ∨ cpu.FailsIn f emitted code s := by
  induction h with
  | nil => exact Or.inl ⟨_, s.thread.guest.memory, s.thread.spill, .nil s, restorable_none _ _⟩
  | @change code i t u h hchange ih =>
    rcases ih with ⟨machine, m, spill, hflows, hrestorable⟩ | hfails
    · cases i with
      | none =>
        cases hchange
        rw [Option.toList_none, List.append_nil]
        exact Or.inl ⟨machine, m, spill, hflows, hrestorable⟩
      | some i =>
        obtain ⟨machine', spill', hnode, hrestorable'⟩ :=
          hrestorable.change cpu f s (h.sound sound_none) hchange m
        exact Or.inl ⟨machine', m, spill', flows_snoc hflows hnode, hrestorable'⟩
    · exact Or.inr (failsIn_append hfails _)
  | @emit code i t h hallows hemitted ih =>
    rcases ih with ⟨machine, m, spill, hflows, hrestorable⟩ | hfails
    · rcases hrestorable.emit cpu f s hallows m with
        ⟨machine', m', hnode, hrestorable'⟩ | ⟨e, t', herror⟩
      · exact Or.inl ⟨machine', m', spill, flows_snoc hflows hnode, hrestorable'⟩
      · exact Or.inr ⟨code, i, [], _, e, t', rfl, hemitted, hflows, herror⟩
    · exact Or.inr (failsIn_append hfails _)

end Reservations

namespace Scope

/-- Everything that a scope inserts stands before its anchor, and to execute it gives the machine
back as it was, unless an instruction that was emitted into the scope fails. -/
theorem machine_restored {l : Listing} (hl : l.Built) {anchor : Handle} {node : Node}
    (hanchor : l.node? anchor = some node) {actions : List ScopeAction}
    (hactions : ScopeAction.AllPermitted (openAt l anchor) actions) (closes : Bool) :
    ∃ (before rest : List Node) (code : List Injected),
      l.position? anchor = some before.length ∧ l.nodes = before ++ node :: rest ∧
      ((openAt l anchor).leaveAfter actions closes).nodes =
        before ++ code.map .injected ++ node :: rest ∧
      ∀ (δ ω : Type) (cpu : Cpu δ ω) (f : Fragment) (index : Nat) (counts : Counts)
        (s : Running δ ω), f.Has index (code.map .injected) →
        (∃ counts' t, cpu.Reaches code.length ⟨f, index, counts, s⟩
            ⟨f, index + code.length, counts', t⟩ ∧
          t.thread.guest.machine = s.thread.guest.machine) ∨
        ∃ k i counts' t e t', code[k]? = some i ∧ .emit i ∈ actions ∧
          cpu.Reaches k ⟨f, index, counts, s⟩ ⟨f, index + k, counts', t⟩ ∧
          cpu.executeNode f (.injected i) t = .error e t' := by
  obtain ⟨before, rest, code, res, hposition, hbefore, hafter, hleads, hheld, hflags⟩ :=
    leaveAfter_code hl.issued hanchor hactions closes
  refine ⟨before, rest, code, hposition, hbefore, hafter, fun δ ω cpu f index counts s hhas => ?_⟩
  rcases hleads.flows cpu f s with ⟨machine, m, spill, hflows, hrestorable⟩ |
    ⟨front, i, back, t, e, t', rfl, hemitted, hflows, herror⟩
  · have hreaches := hflows.reaches counts hhas
    rw [List.length_map] at hreaches
    exact Or.inl ⟨_, _, hreaches, hrestorable.machine_eq hheld hflags⟩
  · rw [List.map_append] at hhas
    have hreaches := hflows.reaches counts hhas.left
    rw [List.length_map] at hreaches
    exact Or.inr ⟨front.length, i, _, t, e, t', by simp, hemitted, hreaches, herror⟩

end Scope

namespace Sample

/-- A register is acquired and loaded, the flags are kept aside and overwritten, and a request that
nothing can meet comes in between. -/
def borrowing : List ScopeAction :=
  [.acquire .counter .full, .emit (.load .rcx .rsp 8), .acquire .counter .full, .saveFlags,
    .emit (.testZero .rcx)]

def borrowed : List Injected :=
  [.spill .rcx ⟨0⟩, .load .rcx .rsp 8, .saveFlags ⟨1⟩, .testZero .rcx, .restore .rcx ⟨0⟩,
    .restoreFlags ⟨1⟩]

/-- The scope is left without being closed. What it inserted fails at the load from memory, or gives
the machine back. -/
theorem machine_restored_borrowing :
    ((Scope.openAt (.ofInstructions [.nop 0x100]) ⟨0⟩).leaveAfter borrowing false).nodes =
      borrowed.map .injected ++ [.app (.nop 0x100)] ∧
    ∀ (cpu : Cpu Unit Unit) (s : Running Unit Unit),
      let f : Fragment := ⟨0, (borrowed.map Node.injected ++ [Node.app (.nop 0x100)]).toArray⟩
      (∃ counts' t, cpu.Reaches 6 ⟨f, 0, .zero, s⟩ ⟨f, 6, counts', t⟩ ∧
        t.thread.guest.machine = s.thread.guest.machine) ∨
      ∃ k i counts' t e t', borrowed[k]? = some i ∧ .emit i ∈ borrowing ∧
        cpu.Reaches k ⟨f, 0, .zero, s⟩ ⟨f, k, counts', t⟩ ∧
        cpu.executeNode f (.injected i) t = .error e t' := by
  have hnodes : ((Scope.openAt (.ofInstructions [.nop 0x100]) ⟨0⟩).leaveAfter borrowing
      false).nodes = borrowed.map .injected ++ [.app (.nop 0x100)] := rfl
  have hactions : ScopeAction.AllPermitted (.openAt (.ofInstructions [.nop 0x100]) ⟨0⟩) borrowing :=
    ⟨trivial, rfl, trivial, trivial, rfl, trivial⟩
  have hanchor : (Listing.ofInstructions [.nop 0x100]).node? ⟨0⟩ = some (.app (.nop 0x100)) := rfl
  obtain ⟨before, rest, code, hposition, hbefore, hafter, hruns⟩ :=
    Scope.machine_restored (.append .empty (.app (.nop 0x100))) hanchor hactions false
  obtain rfl : before = [] := List.length_eq_zero_iff.1 (Option.some.inj hposition).symm
  obtain rfl : rest = [] := (List.cons.inj hbefore).2.symm
  obtain rfl : code = borrowed := by
    have hsame := List.append_inj_left' (hafter.symm.trans hnodes) rfl
    exact List.map_injective_iff.2 (fun i j h => Node.injected.inj h) hsame
  refine ⟨hnodes, fun cpu s => ?_⟩
  have hhas := (Fragment.has_toArray 0 (borrowed.map Node.injected ++ [Node.app (.nop 0x100)])).left
  have hrun := hruns Unit Unit cpu _ 0 .zero s hhas
  simp only [Nat.zero_add] at hrun
  exact hrun

end Sample

end AccessTrace
