import AccessTrace.Proofs.FastPath.Execution
import AccessTrace.Proofs.FastPath.Labels
import AccessTrace.Proofs.Machine.Transparency

/-!
# Running a block with its fast paths

A traced thread runs alongside an untraced one: the registers and flags are the same, the untraced
memory is embedded in the traced one, and the buffer is beside it. Every fast path keeps that, and
so does every application instruction; a block adds the records of the instructions that it
executes, whether it gets to its end or not.
-/

namespace AccessTrace

open AddressSpace (Embeds ForeignFault)

variable {ω : Type}

/-- The untraced thread sees `g` where the traced one is in the state `s` and has collected `k`.
The two memories are laid out like `m` and `M`. -/
structure Alongside (field : FieldIndex) (b : TraceBuffer) (sink : Sink ω)
    (start : TraceState ω × Session ω) (m M : AddressSpace) (k : Collected) (g : Guest)
    (s : Running (TraceState ω) (Session ω)) : Prop where
  collecting : Collecting field b sink start k s
  machine : s.thread.guest.machine = g.machine
  embeds : Embeds g.memory s.thread.guest.memory
  inner : g.memory.layout = m.layout
  outer : s.thread.guest.memory.layout = M.layout
  apart : ∀ x, b.Owns x → m.isMapped x = false

namespace Alongside

variable {field : FieldIndex} {b : TraceBuffer} {sink : Sink ω} {start : TraceState ω × Session ω}
  {m M : AddressSpace} {k k' : Collected} {g g' : Guest} {counts counts' : Counts}
  {s s' : Running (TraceState ω) (Session ω)}

theorem recorded (h : Alongside field b sink start m M k g s)
    (hr : Injector.Recorded field b sink start k k' counts counts' s s') :
    Alongside field b sink start m M k' g s' := by
  refine ⟨hr.collecting, hr.machine.trans h.machine, ?_, h.inner,
    hr.confined.layout.trans h.outer, h.apart⟩
  refine hr.confined.embeds h.embeds hr.collecting.holds.wellFormed fun x hx => ?_
  rw [AddressSpace.isMapped_of_layout h.inner]
  exact h.apart x hx

/-- The application writes beside the buffer. -/
theorem executed (h : Alongside field b sink start m M k g s) {M' : AddressSpace}
    (hlayout : g'.memory.layout = g.memory.layout) (hembeds : Embeds g'.memory M')
    (hbeside : AddressSpace.Beside g.memory s.thread.guest.memory M') :
    Alongside field b sink start m M k g' (s.at g'.machine M' s.thread.spill) := by
  have hholds : b.Holds k.pending M' := by
    refine h.collecting.holds.of_agree hembeds.outer hbeside.layout fun x hx => ?_
    refine hbeside.byte? x ?_
    rw [AddressSpace.isMapped_of_layout h.inner]
    exact h.apart x hx
  exact ⟨⟨h.collecting.active, h.collecting.word, h.collecting.data, h.collecting.world, hholds⟩,
    rfl, hembeds, hlayout.trans h.inner, hbeside.layout.trans h.outer, h.apart⟩

variable {i : Instruction} {e : MachineError}

theorem executeNode_ok (cpu : Cpu (TraceState ω) (Session ω)) (f : Fragment)
    (h : Alongside field b sink start m M k g s) (hi : i.Constructed)
    (hok : i.execute g = .ok () g') :
    ∃ s', cpu.executeNode f (.app i) s = .ok .next s' ∧
      Alongside field b sink start m M k g' s' := by
  have houtcome := hi.transparent.outcome g.machine g.memory s.thread.guest.memory h.embeds
  rw [hok] at houtcome
  obtain ⟨hlayout, M', houter, hembeds, hbeside⟩ := houtcome
  rw [← h.machine] at houter
  exact ⟨_, cpu.executeNode_app f s _ _ s.thread.spill houter, h.executed hlayout hembeds hbeside⟩

/-- An instruction fails alike, unless the traced thread can access what the other one cannot. -/
theorem executeNode_error (cpu : Cpu (TraceState ω) (Session ω)) (f : Fragment)
    (h : Alongside field b sink start m M k g s) (hi : i.Constructed)
    (herror : i.execute g = .error e g') :
    ForeignFault m M e ∨ ∃ s', cpu.executeNode f (.app i) s = .error e s' ∧
      Alongside field b sink start m M k g' s' := by
  have houtcome := hi.transparent.outcome g.machine g.memory s.thread.guest.memory h.embeds
  rw [herror] at houtcome
  rcases houtcome with hforeign | ⟨hlayout, M', houter, hembeds, hbeside⟩
  · exact Or.inl (hforeign.of_layout h.inner.symm h.outer.symm)
  · rw [← h.machine] at houter
    exact Or.inr ⟨_, cpu.executeNode_app_error f s _ _ s.thread.spill houter,
      h.executed hlayout hembeds hbeside⟩

end Alongside

namespace Injector

variable {j : Injector} {usesCounter : Bool} {b : TraceBuffer} {sink : Sink ω}
  {start : TraceState ω × Session ω} {k : Collected} {m M : AddressSpace}
  {cpu : Cpu (TraceState ω) (Session ω)} {f : Fragment} {index : Nat} {counts : Counts}
  {s : Running (TraceState ω) (Session ω)} {g : Guest}

/-- The paths of one instruction add a record each. -/
theorem reaches_paths {label : Nat} {accesses : List (Word × Access)} (counts : Counts)
    (hflush : Flushes cpu j f)
    (hhas : f.Has index (j.paths usesCounter label accesses))
    (hbehind : ∀ i, index + (j.paths usesCounter label accesses).length ≤ i →
      ∀ node, f.nodes[i]? = some node → ∀ l : Label, l.number < label + 2 * accesses.length →
        node.marks l = false)
    (hs : Collecting j.field b sink start k s) (hpacked : k.Packed b.capacity) :
    ∃ n counts' s', n ≤ (j.paths usesCounter label accesses).length + 2 * accesses.length ∧
      cpu.Reaches n ⟨f, index, counts, s⟩
        ⟨f, index + (j.paths usesCounter label accesses).length, counts', s'⟩ ∧
      Recorded j.field b sink start k
        (k.addAll b.capacity
          (accesses.map fun a => a.2.record a.1 s.thread.guest.machine)) counts counts' s s' := by
  induction accesses generalizing label index counts k s with
  | nil =>
    exact ⟨0, counts, s, Nat.zero_le _, .refl _, hs, rfl, ⟨rfl, fun _ _ => rfl⟩, rfl, rfl⟩
  | cons a accesses ih =>
    obtain ⟨pc, access⟩ := a
    let code := j.path usesCounter pc access ⟨label⟩ ⟨label + 1⟩
    let rest := j.paths usesCounter (label + 2) accesses
    have hpaths : j.paths usesCounter label ((pc, access) :: accesses) =
        code.map .injected ++ rest := rfl
    rw [hpaths] at hhas hbehind ⊢
    rw [List.length_append, List.length_map] at hbehind ⊢
    have hrestHas := hhas.right
    rw [List.length_map] at hrestHas
    -- Behind the first path there are the others, whose labels are larger, and what follows them.
    have hbehindFirst : ∀ i, index + code.length ≤ i → ∀ node, f.nodes[i]? = some node →
        ∀ l : Label, l.number < label + 2 → node.marks l = false := by
      intro i hi node hnode l hl
      by_cases hin : i < index + code.length + rest.length
      · have hget := hrestHas (i - (index + code.length)) (by omega)
        rw [Nat.add_sub_cancel' hi, hnode] at hget
        exact marks_paths (Or.inl hl) node (List.mem_of_getElem? hget.symm)
      · refine hbehind i (by omega) node hnode l ?_
        rw [List.length_cons]
        omega
    obtain ⟨n₁, counts₁, s₁, hn₁, hfirst, hrecorded₁⟩ := reaches_path counts hflush
      (fun h => by simp at h) hhas.left
      (fun i hi node hnode => ⟨hbehindFirst i hi node hnode ⟨label⟩ (by simp),
        hbehindFirst i hi node hnode ⟨label + 1⟩ (by simp)⟩) hs hpacked
    obtain ⟨n₂, counts₂, s₂, hn₂, hothers, hrecorded₂⟩ := ih counts₁ hrestHas
      (fun i hi node hnode l hl => by
        change index + code.length + rest.length ≤ i at hi
        refine hbehind i (by omega) node hnode l ?_
        rw [List.length_cons]
        omega)
      hrecorded₁.collecting (hpacked.add _)
    rw [Nat.add_assoc] at hothers
    rw [hrecorded₁.machine] at hrecorded₂
    refine ⟨n₁ + n₂, counts₂, s₂, ?_, hfirst.trans hothers, hrecorded₁.trans hrecorded₂⟩
    change n₁ ≤ code.length + 2 at hn₁
    change n₂ ≤ rest.length + 2 * accesses.length at hn₂
    rw [List.length_cons]
    omega

/-- What was collected, and where the thread is in relation to an untraced one, between two points
of a run with `n` nodes and `length` application instructions from one to the other. -/
structure Executed (cpu : Cpu (TraceState ω) (Session ω)) (field : FieldIndex) (b : TraceBuffer)
    (sink : Sink ω) (start : TraceState ω × Session ω) (m M : AddressSpace) (k k' : Collected)
    (g' : Guest) (n length : Nat) (p q : Cpu.Point (TraceState ω) (Session ω)) : Prop where
  reaches : cpu.Reaches n p q
  alongside : Alongside field b sink start m M k' g' q.state
  app : q.counts.app = p.counts.app + length
  hostCalls : q.counts.hostCalls + k.batches.length = p.counts.hostCalls + k'.batches.length

theorem Executed.trans {field : FieldIndex} {k₁ k₂ k₃ : Collected} {g₂ g₃ : Guest}
    {n₁ n₂ l₁ l₂ : Nat} {p q r : Cpu.Point (TraceState ω) (Session ω)}
    (h : Executed cpu field b sink start m M k₁ k₂ g₂ n₁ l₁ p q)
    (h' : Executed cpu field b sink start m M k₂ k₃ g₃ n₂ l₂ q r) :
    Executed cpu field b sink start m M k₁ k₃ g₃ (n₁ + n₂) (l₁ + l₂) p r := by
  have happ := h.app
  have happ' := h'.app
  have hcalls := h.hostCalls
  have hcalls' := h'.hostCalls
  exact ⟨h.reaches.trans h'.reaches, h'.alongside, by omega, by omega⟩

/-- The paths of an instruction lead to it. -/
theorem executes_paths {label : Nat} {i : Instruction} {rest : List Instruction} (counts : Counts)
    (hflush : Flushes cpu j f) (hhas : f.Has index (j.expansion usesCounter label (i :: rest)))
    (hend : f.nodes.size = index + (j.expansion usesCounter label (i :: rest)).length)
    (h : Alongside j.field b sink start m M k g s) (hpacked : k.Packed b.capacity) :
    ∃ n counts' s',
      n ≤ (j.paths usesCounter label i.recorded).length + 2 * i.recorded.length ∧
      Executed cpu j.field b sink start m M k (k.addAll b.capacity (i.records g.machine)) g n 0
        ⟨f, index, counts, s⟩
        ⟨f, index + (j.paths usesCounter label i.recorded).length, counts', s'⟩ := by
  have hnodes : j.expansion usesCounter label (i :: rest) = j.paths usesCounter label i.recorded ++
      .app i :: j.expansion usesCounter (label + 2 * i.recorded.length) rest := rfl
  rw [hnodes] at hhas hend
  rw [List.length_append, List.length_cons] at hend
  have hbehind : ∀ x, index + (j.paths usesCounter label i.recorded).length ≤ x →
      ∀ node, f.nodes[x]? = some node →
        ∀ l : Label, l.number < label + 2 * i.recorded.length → node.marks l = false := by
    intro x hx node hnode l hl
    have hsize : x < f.nodes.size := (Array.getElem?_eq_some_iff.1 hnode).1
    have hget := hhas.right (x - (index + (j.paths usesCounter label i.recorded).length))
      (by rw [List.length_cons]; omega)
    rw [Nat.add_sub_cancel' hx, hnode] at hget
    rcases List.mem_cons.1 (List.mem_of_getElem? hget.symm) with rfl | hrest
    · rfl
    · exact marks_expansion hl node hrest
  obtain ⟨n, counts', s', hn, hreaches, hrecorded⟩ :=
    reaches_paths counts hflush hhas.left hbehind h.collecting hpacked
  rw [h.machine] at hrecorded
  exact ⟨n, counts', s', hn, hreaches, h.recorded hrecorded, hrecorded.app, hrecorded.hostCalls⟩

/-- A block from one of its instructions on: it gets to its end, or fails where the instructions
fail without fast paths. -/
theorem executes_expansion {label : Nat} {is : List Instruction} (counts : Counts)
    (hflush : Flushes cpu j f)
    (hconstructed : ∀ i ∈ is, i.Constructed)
    (hhas : f.Has index (j.expansion usesCounter label is))
    (hend : f.nodes.size = index + (j.expansion usesCounter label is).length)
    (h : Alongside j.field b sink start m M k g s) (hpacked : k.Packed b.capacity) :
    match Instruction.executeAll is g with
    | .ok _ g' => ∃ n counts' s',
        n ≤ (j.expansion usesCounter label is).length + 2 * (is.map (·.memoryOperandCount)).sum ∧
        Executed cpu j.field b sink start m M k
          (k.addAll b.capacity (Instruction.accessTrace is g)) g' n is.length
          ⟨f, index, counts, s⟩ ⟨f, f.nodes.size, counts', s'⟩
    | .error e g' => ForeignFault m M e ∨ ∃ n s',
        n ≤ (j.expansion usesCounter label is).length + 2 * (is.map (·.memoryOperandCount)).sum ∧
        (∀ remaining, cpu.resume (n + remaining) ⟨f, index, counts, s⟩ = .error e s') ∧
        Alongside j.field b sink start m M
          (k.addAll b.capacity (Instruction.accessTrace is g)) g' s' := by
  induction is generalizing label index counts k g s with
  | nil =>
    refine ⟨0, counts, s, Nat.zero_le _, ?_, h, rfl, rfl⟩
    rw [hend]
    exact .refl _
  | cons i is ih =>
    obtain ⟨n₁, counts₁, s₁, hn₁, hpaths⟩ := executes_paths counts hflush hhas hend h
      hpacked
    have hnodes : j.expansion usesCounter label (i :: is) = j.paths usesCounter label i.recorded ++
        .app i :: j.expansion usesCounter (label + 2 * i.recorded.length) is := rfl
    rw [hnodes] at hhas hend ⊢
    have hoperands := i.length_recorded_le
    rw [List.length_append, List.length_cons] at hend ⊢
    rw [List.map_cons, List.sum_cons]
    have hi := hconstructed i (by simp)
    cases hexecute : i.execute g with
    | error e g₁ =>
      rw [Instruction.executeAll_cons_error hexecute, Instruction.accessTrace_cons_error hexecute]
      rcases hpaths.alongside.executeNode_error cpu f hi hexecute with
        hforeign | ⟨s₂, hnode, halongside⟩
      · exact Or.inl hforeign
      · refine Or.inr ⟨n₁ + 1, s₂, by omega, fun remaining => ?_, halongside⟩
        rw [Nat.add_assoc, hpaths.reaches.resume, Nat.add_comm 1]
        exact Cpu.resume_error hhas.right.head hnode remaining
    | ok _ g₁ =>
      rw [Instruction.executeAll_cons_ok hexecute, Instruction.accessTrace_cons_ok hexecute,
        Collected.addAll_append]
      obtain ⟨s₂, hnode, halongside⟩ := hpaths.alongside.executeNode_ok cpu f hi hexecute
      have hstep := Cpu.reaches_next counts₁ hhas.right.head hnode
      have hupTo := hpaths.trans ⟨hstep, halongside, rfl, rfl⟩
      have hrest := ih (counts₁.step (.app i))
        (fun i hi => hconstructed i (List.mem_cons_of_mem _ hi)) hhas.right.tail (by omega)
        halongside (hpacked.addAll _)
      cases hall : Instruction.executeAll is g₁ with
      | ok _ g₂ =>
        rw [hall] at hrest
        obtain ⟨n₂, counts₂, s₃, hn₂, hexecuted⟩ := hrest
        refine ⟨n₁ + 1 + n₂, counts₂, s₃, by omega, ?_⟩
        have hexecuted₂ := hupTo.trans hexecuted
        rwa [Nat.zero_add, Nat.add_comm 1] at hexecuted₂
      | error e g₂ =>
        rw [hall] at hrest
        rcases hrest with hforeign | ⟨n₂, s₃, hn₂, hfails, halongside₂⟩
        · exact Or.inl hforeign
        · refine Or.inr ⟨n₁ + 1 + n₂, s₃, by omega, fun remaining => ?_, halongside₂⟩
          rw [Nat.add_assoc, hupTo.reaches.resume]
          exact hfails remaining

end Injector

end AccessTrace
