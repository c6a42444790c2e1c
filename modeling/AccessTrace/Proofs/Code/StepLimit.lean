import AccessTrace.Proofs.Code.Run

/-!
# The limit on steps

A run from an address without a limit ends after some number of nodes, if it ends at all, and a run
that succeeds has counted them. With a limit it either comes to that end, within the limit, or is
cut off where it has executed as many nodes as the limit and there is one more. So every run with a
limit is over after that many nodes, and a limit that did not cut a run off can be raised without
changing anything about it.
-/

namespace AccessTrace

/-- How many nodes are counted. -/
def Counts.nodes (c : Counts) : Nat :=
  c.app + c.injected

theorem Counts.nodes_step (c : Counts) (node : Node) : (c.step node).nodes = c.nodes + 1 := by
  unfold nodes
  cases node with
  | app i => exact Nat.add_right_comm _ _ _
  | injected i => cases i <;> rfl

namespace Cpu

variable {δ ω : Type} {cpu : Cpu δ ω} {n : Nat} {p q : Point δ ω} {s t : Running δ ω}
  {start : Word} {result : EStateM.Result MachineError (Running δ ω) Counts}

theorem counts_of_step (h : cpu.step? p = some q) :
    ∃ node, p.fragment.nodes[p.index]? = some node ∧ q.counts = p.counts.step node := by
  obtain ⟨node, hnode, h⟩ := Option.bind_eq_some_iff.1 h
  refine ⟨node, hnode, ?_⟩
  split at h
  · rw [← Option.some.inj h]
  · rw [← Option.some.inj h]
  · obtain ⟨place, _, rfl⟩ := Option.map_eq_some_iff.1 h
    rfl
  · contradiction

/-- A run that succeeds has counted its nodes. -/
theorem Ends.nodes (h : cpu.Ends n p result) {counts : Counts} {t : Running δ ω}
    (hok : result = .ok counts t) : counts.nodes = p.counts.nodes + n := by
  induction h with
  | behind h =>
    injection hok with hcounts
    rw [← hcounts, Nat.add_zero]
  | failed | lost => contradiction
  | step h _ ih =>
    obtain ⟨node, _, hcounts⟩ := counts_of_step h
    rw [ih hok, hcounts, Counts.nodes_step, Nat.add_right_comm, Nat.add_assoc]

/-- What a node does has nothing to do with the limit. -/
theorem Ends.withLimit (h : cpu.Ends n p result) (limit : Nat) :
    Ends { cpu with stepLimit := limit } n p result := by
  induction h with
  | behind h => exact .behind h
  | failed hnode h => exact .failed hnode h
  | lost hnode h hlookup => exact .lost hnode h hlookup
  | step h _ ih => exact .step h ih

/-! ## Runs from an address -/

/-- A run from an address, without a limit, executes `n` nodes and ends with `result`. -/
inductive RunsTo (cpu : Cpu δ ω) (start : Word) (s : Running δ ω) : Nat →
    EStateM.Result MachineError (Running δ ω) Counts → Prop where
  | nowhere (h : cpu.cache.lookup start.toNat = none) :
    RunsTo cpu start s 0 (.error (.noCodeAt start) s)
  | inside {n : Nat} {place : Fragment × Nat}
    {result : EStateM.Result MachineError (Running δ ω) Counts}
    (h : cpu.cache.lookup start.toNat = some place)
    (hends : cpu.Ends n ⟨place.1, place.2, .zero, s⟩ result) : RunsTo cpu start s n result

/-- A run from an address has executed as many nodes as the limit, is in the state `t`, and is at
one node more. -/
def CutOff (cpu : Cpu δ ω) (start : Word) (s t : Running δ ω) : Prop :=
  ∃ place q node, cpu.cache.lookup start.toNat = some place ∧
    cpu.Reaches cpu.stepLimit ⟨place.1, place.2, .zero, s⟩ q ∧
    q.fragment.nodes[q.index]? = some node ∧ q.state = t

theorem run_nowhere (h : cpu.cache.lookup start.toNat = none) :
    cpu.run start s = .error (.noCodeAt start) s := by
  unfold run
  rw [h]
  rfl

theorem run_inside {place : Fragment × Nat} (h : cpu.cache.lookup start.toNat = some place) :
    cpu.run start s = cpu.resume cpu.stepLimit ⟨place.1, place.2, .zero, s⟩ := by
  unfold run
  rw [h]
  rfl

theorem RunsTo.run (h : cpu.RunsTo start s n result) (hn : n ≤ cpu.stepLimit) :
    cpu.run start s = result := by
  cases h with
  | nowhere h => exact run_nowhere h
  | inside h hends => exact (run_inside h).trans (hends.resume hn)

theorem RunsTo.withLimit (h : cpu.RunsTo start s n result) (limit : Nat) :
    RunsTo { cpu with stepLimit := limit } start s n result := by
  cases h with
  | nowhere h => exact .nowhere h
  | inside h hends => exact .inside h (hends.withLimit limit)

theorem RunsTo.nodes {counts : Counts} (h : cpu.RunsTo start s n (.ok counts t)) :
    counts.nodes = n := by
  cases h with
  | inside _ hends => exact (hends.nodes rfl).trans (Nat.zero_add n)

theorem runsTo_or_cutOff (cpu : Cpu δ ω) (start : Word) (s : Running δ ω) :
    (∃ n ≤ cpu.stepLimit, cpu.RunsTo start s n (cpu.run start s)) ∨
    ∃ t, cpu.CutOff start s t ∧ cpu.run start s = .error (.stepLimit cpu.stepLimit) t := by
  cases h : cpu.cache.lookup start.toNat with
  | none => exact Or.inl ⟨0, Nat.zero_le _, (run_nowhere h (s := s)).symm ▸ .nowhere h⟩
  | some place =>
    rw [run_inside h]
    obtain ⟨n, hn, hends⟩ | ⟨q, node, hreaches, hmore, hcut⟩ :=
      ends_or_cutOff cpu cpu.stepLimit ⟨place.1, place.2, .zero, s⟩
    · exact Or.inl ⟨n, hn, .inside h hends⟩
    · exact Or.inr ⟨q.state, ⟨place, q, node, h, hreaches, hmore, rfl⟩, hcut⟩

/-- A run ends within its limit, or is cut off there. If it succeeds, then it has executed no more
nodes than the limit. If it ends with anything but the limit, then it ends in the same way, with the
same counts and in the same state, whenever the limit is larger. -/
theorem run_bounded_by_limit (cpu : Cpu δ ω) (start : Word) (s : Running δ ω) :
    ((∃ n ≤ cpu.stepLimit, cpu.RunsTo start s n (cpu.run start s)) ∨
      ∃ t, cpu.CutOff start s t ∧ cpu.run start s = .error (.stepLimit cpu.stepLimit) t) ∧
    (∀ counts t, cpu.run start s = .ok counts t →
      counts.app + counts.injected ≤ cpu.stepLimit) ∧
    ∀ limit, cpu.stepLimit ≤ limit →
      (∀ t, cpu.run start s ≠ .error (.stepLimit cpu.stepLimit) t) →
      run { cpu with stepLimit := limit } start s = cpu.run start s := by
  refine ⟨runsTo_or_cutOff cpu start s, fun counts t hok => ?_, fun limit hlimit hended => ?_⟩
  · obtain ⟨n, hn, hruns⟩ | ⟨_, _, hcut⟩ := runsTo_or_cutOff cpu start s
    · rw [hok] at hruns
      exact Nat.le_trans (Nat.le_of_eq hruns.nodes) hn
    · rw [hok] at hcut
      contradiction
  · obtain ⟨n, hn, hruns⟩ | ⟨t, _, hcut⟩ := runsTo_or_cutOff cpu start s
    · exact (hruns.withLimit limit).run (Nat.le_trans hn hlimit)
    · exact absurd hcut (hended t)

end Cpu

namespace Sample

/-- Counts `rcx` down to zero. -/
def countdown : List Node :=
  [.injected (.label ⟨0⟩), .injected (.jumpIfCounterZero ⟨1⟩),
    .injected (.sum .rcx .rcx none (-1)), .injected (.jump ⟨0⟩), .injected (.label ⟨1⟩)]

/-- A processor that executes eleven nodes at most. -/
def countdownCpu : Cpu Unit Unit := ⟨(CodeCache.empty.insertBlock 0 countdown).2, #[], 11⟩

/-- A thread that counts down from a number. -/
def counting (n : Word) : Running Unit Unit := ⟨(Thread.create ⟨1⟩ .empty).setRegister .rcx n, ()⟩

/-- Eleven nodes are what it takes from two, whatever else the limit may be. -/
theorem countdown_bounded :
    countdownCpu.run (UInt64.ofNat blockAreaBase) (counting 2) = .ok ⟨0, 11, 0⟩ (counting 0) ∧
    Cpu.run { countdownCpu with stepLimit := 10000000 } (UInt64.ofNat blockAreaBase) (counting 2) =
      .ok ⟨0, 11, 0⟩ (counting 0) := by
  have hrun : countdownCpu.run (UInt64.ofNat blockAreaBase) (counting 2) =
      .ok ⟨0, 11, 0⟩ (counting 0) := by rfl
  have hbounded := countdownCpu.run_bounded_by_limit (UInt64.ofNat blockAreaBase) (counting 2)
  refine ⟨hrun, (hbounded.2.2 10000000 (by decide) fun t hcut => ?_).trans hrun⟩
  rw [hrun] at hcut
  contradiction

example : ∃ s, countdownCpu.run (UInt64.ofNat blockAreaBase) (counting 3) =
    .error (.stepLimit 11) s :=
  ⟨_, rfl⟩

end Sample

end AccessTrace
