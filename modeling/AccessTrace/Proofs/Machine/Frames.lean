import AccessTrace.Proofs.Code.Injected
import AccessTrace.Proofs.Machine.StackAccesses
import AccessTrace.Proofs.Record.Trace

/-!
# Frames

A frame is opened by `enter` and closed by `leave`. What brings the registers back is the word that
`enter` pushes first: the frame pointer stands right below the stack pointer from before, and none
of the later pushes reaches up to it. So it does not matter how many outer frame pointers are
copied, or from where.
-/

namespace AccessTrace

/-- The first word stands where the frame pointer of a new frame points to. -/
theorem Stacked.wordAt_first {g g' : Guest} {first : Word} {rest : List Word}
    (h : Stacked g (first :: rest) g') :
    g'.memory.wordAt (g.machine.get .rsp - 8).toNat 8 = first := by
  have hroom : (8 : Word) ≤ g.machine.get .rsp := by
    have hall := h.room
    rw [List.length_cons] at hall
    exact UInt64.le_iff_toNat_le.2 (Nat.le_trans (Nat.le_mul_of_pos_right 8 (Nat.succ_pos _)) hall)
  rw [UInt64.toNat_sub_of_le _ _ hroom]
  exact h.wordAt 0 (Nat.succ_pos _)

namespace Instruction

/-- A `leave` puts the stack pointer behind the word at the frame pointer, and takes that word for
the frame pointer. -/
theorem executeLeave_apply (g : Guest) :
    executeLeave g = match g.memory.load (g.machine.get .rbp).toNat pointerSize with
      | .ok value => .ok () { g with
          machine := ((g.machine.set .rsp (g.machine.get .rbp)).set .rsp
            (g.machine.get .rbp + 8)).set .rbp value }
      | .error e => .error e { g with machine := g.machine.set .rsp (g.machine.get .rbp) } := by
  let moved : Guest := { g with machine := g.machine.set .rsp (g.machine.get .rbp) }
  have hrsp : moved.machine.get .rsp = g.machine.get .rbp := by
    rw [MachineState.get_set, if_pos rfl]
  have hpop := popWord_apply moved
  rw [hrsp] at hpop
  change (popWord >>= fun value => Guest.setRegister .rbp value) moved = _
  rw [Step.bind_apply, hpop]
  cases g.memory.load (g.machine.get .rbp).toNat pointerSize <;> rfl

/-- What `leave` makes of the registers. -/
theorem leave_ok {pc : Word} {g g' : Guest} (h : (leave pc).execute g = .ok () g') :
    ∃ value, g.memory.load (g.machine.get .rbp).toNat pointerSize = .ok value ∧
      g'.memory = g.memory ∧ g'.machine.flags = g.machine.flags ∧
      ∀ r, g'.machine.get r = if r = .rbp then value else
        if r = .rsp then g.machine.get .rbp + 8 else g.machine.get r := by
  have hleave : executeLeave g = .ok () g' := h
  rw [executeLeave_apply] at hleave
  split at hleave
  · rename_i value hload
    injection hleave with _ hg
    subst hg
    refine ⟨value, hload, rfl, rfl, fun r => ?_⟩
    simp only [MachineState.get_set, eq_comm (b := r)]
    split
    · rfl
    · split <;> rfl
  · contradiction

/-- Whatever the frame and the nesting, a `leave` right after an `enter` brings all registers and
flags back. Below the stack pointer the words that `enter` pushed are left; no other byte has
changed. -/
theorem frame_balanced {pc pc' : Word} {frame : UInt16} {nesting : UInt8} {machine : MachineState}
    {m : AddressSpace} (hm : m.WellFormed) {g : Guest}
    (h : executeAll [enter pc frame nesting, leave pc'] ⟨machine, m⟩ = .ok () g) :
    let pushed := 8 * (nesting.toNat % 32 + 1)
    g.machine = machine ∧ g.memory.layout = m.layout ∧ pushed ≤ (machine.get .rsp).toNat ∧
      ∀ x, ¬ Span.Holds ((machine.get .rsp).toNat - pushed, pushed) x →
        g.memory.byte? x = m.byte? x := by
  intro pushed
  obtain ⟨_, inside, henter, hrest⟩ := Step.bind_eq_ok h
  obtain ⟨_, left, hleave, hnil⟩ := Step.bind_eq_ok hrest
  obtain rfl : left = g := by injection hnil
  obtain ⟨outer, top, hlength, _, hpushed, rfl⟩ := enter_ok henter
  have hstacked := hpushed.stacked hm
  have hcount : 8 * (machine.get .rbp :: outer).length = pushed := by
    rw [List.length_cons, hlength]
  obtain ⟨value, hload, hmemory, hflags, hget⟩ := leave_ok hleave
  have hroom := hstacked.room
  have hbytes := hstacked.byte?
  rw [hcount] at hroom hbytes
  -- The frame pointer inside the frame is where the old one was pushed.
  have hframe : ((top.machine.set .rbp (machine.get .rsp - 8)).set .rsp
      (top.machine.get .rsp - UInt64.ofNat frame.toNat)).get .rbp = machine.get .rsp - 8 := by
    simp [MachineState.get_set]
  have hsaved : value = machine.get .rbp := by
    rw [hframe] at hload
    obtain ⟨_, _, rfl⟩ := hstacked.wellFormed.load_ok hload
    exact hstacked.wordAt_first
  refine ⟨MachineState.ext_get (fun r => ?_) (hflags.trans hstacked.rest.2), ?_, hroom, ?_⟩
  · rw [hget, hframe, hsaved]
    split
    · rename_i hr
      rw [hr]
    · split
      · rename_i hr
        rw [hr, UInt64.sub_add_cancel]
      · rename_i hrbp hrsp
        rw [MachineState.get_set, if_neg (Ne.symm hrsp), MachineState.get_set,
          if_neg (Ne.symm hrbp), hstacked.rest.1 r hrsp]
  · rw [hmemory]
    exact hstacked.layout
  · intro x hx
    rw [hmemory]
    exact hbytes x hx

end Instruction

namespace Sample

/-- A frame with two levels of nesting, of which the outer one is read from above the stack
pointer. -/
theorem frame_of_two_levels :
    ∃ g, stack.WellFormed ∧
      Instruction.executeAll [.enter 0x400000 16 2, .leave 0x400004] ⟨stackMachine, stack⟩ =
        .ok () g ∧
      g.machine = stackMachine ∧ g.memory.byte? 0x10000008 ≠ stack.byte? 0x10000008 ∧
      ∀ x, ¬ Span.Holds (0x10000008, 24) x → g.memory.byte? x = stack.byte? x := by
  obtain ⟨g, hexecute, hbyte⟩ : ∃ g, Instruction.executeAll
      [.enter 0x400000 16 2, .leave 0x400004] ⟨stackMachine, stack⟩ = .ok () g ∧
      g.memory.byte? 0x10000008 ≠ stack.byte? 0x10000008 := ⟨_, rfl, by decide +kernel⟩
  obtain ⟨hmachine, _, _, hbytes⟩ := Instruction.frame_balanced wellFormed_stack hexecute
  exact ⟨g, wellFormed_stack, hexecute, hmachine, hbyte, hbytes⟩

end Sample

end AccessTrace
