import AccessTrace.FastPath.Access
import AccessTrace.Machine.Execute
import AccessTrace.Proofs.Machine.Steps
import AccessTrace.Record.Layout

/-!
# The access trace of a program

What should be recorded, without regard to how. The records of an instruction are those of its
planned accesses, with the addresses that they have in the registers before it. The trace of a
sequence has the records of every instruction that is executed, in order; if one fails, its records
are the last.
-/

namespace AccessTrace

/-- The record of an access that an instruction at `pc` is about to make. -/
def Access.record (access : Access) (pc : Word) (machine : MachineState) : Record :=
  .of access.direction.isWrite (machine.effectiveAddress access.mem) (.ofNat access.size) pc

namespace Instruction

/-- The accesses of an instruction that are recorded, with its address: all that are planned, if
it stands in the application. -/
def recorded (i : Instruction) : List (Word × Access) :=
  match i.address with
  | none => []
  | some pc => i.accesses.map (pc, ·)

def records (i : Instruction) (machine : MachineState) : List Record :=
  i.recorded.map fun a => a.2.record a.1 machine

/-- Executes one instruction after the other. -/
def executeAll : List Instruction → GuestM Unit
  | [] => pure ()
  | i :: rest => do
    i.execute
    executeAll rest

/-- The records of the instructions that are executed from a state on. -/
def accessTrace : List Instruction → Guest → List Record
  | [], _ => []
  | i :: rest, g =>
    i.records g.machine ++
      match i.execute g with
      | .ok _ g' => accessTrace rest g'
      | .error _ _ => []

variable {i : Instruction} {is js : List Instruction} {g g' : Guest} {e : MachineError}

theorem executeAll_cons_ok (h : i.execute g = .ok () g') :
    executeAll (i :: is) g = executeAll is g' :=
  Step.bind_of_ok h

theorem executeAll_cons_error (h : i.execute g = .error e g') :
    executeAll (i :: is) g = .error e g' :=
  Step.bind_of_error h

theorem executeAll_append_ok (h : executeAll is g = .ok () g') :
    executeAll (is ++ js) g = executeAll js g' := by
  induction is generalizing g with
  | nil =>
    cases h
    rfl
  | cons i is ih =>
    cases hi : i.execute g with
    | error e g₁ =>
      rw [executeAll_cons_error hi] at h
      contradiction
    | ok _ g₁ =>
      rw [executeAll_cons_ok hi] at h
      rw [List.cons_append, executeAll_cons_ok hi]
      exact ih h

theorem executeAll_append_error (h : executeAll is g = .error e g') :
    executeAll (is ++ js) g = .error e g' := by
  induction is generalizing g with
  | nil => contradiction
  | cons i is ih =>
    cases hi : i.execute g with
    | error e₁ g₁ =>
      rw [executeAll_cons_error hi] at h
      rw [List.cons_append, executeAll_cons_error hi]
      exact h
    | ok _ g₁ =>
      rw [executeAll_cons_ok hi] at h
      rw [List.cons_append, executeAll_cons_ok hi]
      exact ih h

theorem accessTrace_cons_ok (h : i.execute g = .ok () g') :
    accessTrace (i :: is) g = i.records g.machine ++ accessTrace is g' := by
  rw [accessTrace, h]

theorem accessTrace_cons_error (h : i.execute g = .error e g') :
    accessTrace (i :: is) g = i.records g.machine := by
  rw [accessTrace, h, List.append_nil]

/-- A sequence that succeeds is followed by the trace of what comes after it. -/
theorem accessTrace_append_ok (h : executeAll is g = .ok () g') :
    accessTrace (is ++ js) g = accessTrace is g ++ accessTrace js g' := by
  induction is generalizing g with
  | nil =>
    cases h
    rfl
  | cons i is ih =>
    cases hi : i.execute g with
    | error e g₁ =>
      rw [executeAll_cons_error hi] at h
      contradiction
    | ok _ g₁ =>
      rw [executeAll_cons_ok hi] at h
      rw [List.cons_append, accessTrace_cons_ok hi, accessTrace_cons_ok hi, ih h,
        List.append_assoc]

/-- Nothing is recorded behind a failure. -/
theorem accessTrace_append_error (h : executeAll is g = .error e g') :
    accessTrace (is ++ js) g = accessTrace is g := by
  induction is generalizing g with
  | nil => contradiction
  | cons i is ih =>
    cases hi : i.execute g with
    | error e₁ g₁ => rw [List.cons_append, accessTrace_cons_error hi, accessTrace_cons_error hi]
    | ok _ g₁ =>
      rw [executeAll_cons_ok hi] at h
      rw [List.cons_append, accessTrace_cons_ok hi, accessTrace_cons_ok hi, ih h]

/-! ## Counting -/

theorem length_accessesIn (i : Instruction) (direction : Direction) (first : Nat)
    (ops : List Operand) :
    (i.accessesIn direction first ops).length = ops.countP Operand.isMemory := by
  induction ops generalizing first with
  | nil => rfl
  | cons op ops ih =>
    cases op with
    | memory mem =>
      rw [List.countP_cons_of_pos rfl, ← ih (first + 1)]
      rfl
    | register r =>
      rw [List.countP_cons_of_neg (fun h => Bool.noConfusion h),
        ← ih (first + 1)]
      rfl
    | immediate v =>
      rw [List.countP_cons_of_neg (fun h => Bool.noConfusion h), ← ih (first + 1)]
      rfl

/-- Every memory operand is one planned access. -/
theorem length_accesses (i : Instruction) : i.accesses.length = i.memoryOperandCount := by
  rw [accesses, List.length_append, length_accessesIn, length_accessesIn, memoryOperandCount,
    List.countP_append]

theorem length_recorded_le (i : Instruction) : i.recorded.length ≤ i.memoryOperandCount := by
  rw [← length_accesses, recorded]
  cases i.address with
  | none => exact Nat.zero_le _
  | some pc => exact Nat.le_of_eq (List.length_map _)

/-- In a sequence of instructions with addresses that succeeds, every memory operand is recorded. -/
theorem length_accessTrace (haddress : ∀ i ∈ is, i.address ≠ none)
    (h : executeAll is g = .ok () g') :
    (accessTrace is g).length = (is.map (·.memoryOperandCount)).sum := by
  induction is generalizing g with
  | nil => rfl
  | cons i is ih =>
    cases hi : i.execute g with
    | error e g₁ =>
      rw [executeAll_cons_error hi] at h
      contradiction
    | ok _ g₁ =>
      rw [executeAll_cons_ok hi] at h
      have hrecords : (i.records g.machine).length = i.memoryOperandCount := by
        rw [records, List.length_map, ← length_accesses, recorded]
        cases hpc : i.address with
        | none => exact absurd hpc (haddress i (by simp))
        | some pc => exact List.length_map _
      rw [accessTrace_cons_ok hi, List.length_append, hrecords,
        ih (fun i hi => haddress i (List.mem_cons_of_mem _ hi)) h, List.map_cons, List.sum_cons]

end Instruction

end AccessTrace
