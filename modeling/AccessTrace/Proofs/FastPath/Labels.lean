import AccessTrace.Proofs.FastPath.Emission

/-!
# Labels of fast paths

A path places its own two labels, each once and behind everything that goes there. The paths of a
block take new labels one pair after the other, so that a label stands in one place of the block,
whatever the instructions are.
-/

namespace AccessTrace

/-- The label that an injected instruction goes to, or whose address it takes. -/
def Injected.target? : Injected → Option Label
  | .jumpIfCounterZero target | .jumpIfZero target | .jump target => some target
  | .labelAddress _ l => some l
  | _ => none

namespace Injector

variable {j : Injector} {usesCounter : Bool} {pc : Word} {access : Access}
  {divert resume l : Label} {code : List Injected}

/-! ## Targets -/

/-- Every label that code goes to is placed behind that. -/
def Forward : List Injected → Prop
  | [] => True
  | i :: rest => (∀ l, i.target? = some l → .label l ∈ rest) ∧ Forward rest

theorem Forward.placed (h : Forward code) {k : Nat} {i : Injected} (hi : code[k]? = some i)
    (hl : i.target? = some l) : ∃ k', k < k' ∧ code[k']? = some (.label l) := by
  induction code generalizing k with
  | nil => contradiction
  | cons first rest ih =>
    obtain ⟨hfirst, hrest⟩ := h
    cases k with
    | zero =>
      obtain rfl := Option.some.inj hi
      obtain ⟨k', hk'⟩ := List.mem_iff_getElem?.1 (hfirst l hl)
      exact ⟨k' + 1, Nat.succ_pos k', hk'⟩
    | succ k =>
      obtain ⟨k', hlt, hk'⟩ := ih hrest hi
      exact ⟨k' + 1, Nat.succ_lt_succ hlt, hk'⟩

theorem forward_path : Forward (j.path usesCounter pc access divert resume) := by
  cases usesCounter with
  | true =>
    simp [path, counterPath, recordCode, advanceCode, counterTestCode, divertCode, Forward,
      Injected.target?]
  | false =>
    simp [path, flagsPath, recordCode, advanceCode, flagsTestCode, divertCode, Forward,
      Injected.target?]

/-! ## Places -/

/-- A path places its own labels, and no others. -/
theorem countP_path (l : Label) :
    ((j.path usesCounter pc access divert resume).map Node.injected).countP (Node.marks l) =
      [divert, resume].countP (· == l) := by
  cases usesCounter with
  | true =>
    simp [path, counterPath, recordCode, advanceCode, counterTestCode, divertCode, Node.marks,
      List.countP_cons]
  | false =>
    simp [path, flagsPath, recordCode, advanceCode, flagsTestCode, divertCode, Node.marks,
      List.countP_cons]

theorem eq_of_marks_path {node : Node}
    (hnode : node ∈ (j.path usesCounter pc access divert resume).map Node.injected)
    (hl : node.marks l = true) : l = divert ∨ l = resume := by
  have hpos := List.countP_pos_iff.2 ⟨node, hnode, hl⟩
  rw [countP_path] at hpos
  obtain ⟨placed, hplaced, heq⟩ := List.countP_pos_iff.1 hpos
  obtain rfl : placed = l := beq_iff_eq.1 heq
  simpa using hplaced

/-- Paths place the labels from the first one on, two each. -/
theorem countP_paths (label : Nat) (accesses : List (Word × Access)) (l : Label) :
    (j.paths usesCounter label accesses).countP (Node.marks l) =
      if label ≤ l.number ∧ l.number < label + 2 * accesses.length then 1 else 0 := by
  induction accesses generalizing label with
  | nil =>
    rw [if_neg (by simp)]
    rfl
  | cons a accesses ih =>
    obtain ⟨pc, access⟩ := a
    have hown : [(⟨label⟩ : Label), ⟨label + 1⟩].countP (· == l) =
        if label ≤ l.number ∧ l.number < label + 2 then 1 else 0 := by
      obtain ⟨n⟩ := l
      simp only [List.countP_cons, List.countP_nil, beq_iff_eq, Label.mk.injEq]
      split <;> split <;> split <;> omega
    rw [paths, List.countP_append, countP_path, hown, ih, List.length_cons]
    split <;> split <;> split <;> omega

/-- A block places the labels from the first one on, two for each access that it records. -/
theorem countP_expansion (label : Nat) (is : List Instruction) (l : Label) :
    (j.expansion usesCounter label is).countP (Node.marks l) =
      if label ≤ l.number ∧ l.number < label + 2 * (is.flatMap Instruction.recorded).length
      then 1 else 0 := by
  induction is generalizing label with
  | nil =>
    rw [if_neg (by simp)]
    rfl
  | cons i is ih =>
    rw [expansion, List.countP_append, List.countP_cons_of_neg (by simp [Node.marks]),
      countP_paths, ih, List.flatMap_cons, List.length_append]
    split <;> split <;> split <;> omega

theorem marks_paths {label : Nat} {accesses : List (Word × Access)}
    (hl : l.number < label ∨ label + 2 * accesses.length ≤ l.number) :
    ∀ node ∈ j.paths usesCounter label accesses, node.marks l = false := by
  have hcount : (j.paths usesCounter label accesses).countP (Node.marks l) = 0 := by
    rw [countP_paths, if_neg (by omega)]
  simpa using List.countP_eq_zero.1 hcount

theorem marks_expansion {label : Nat} {is : List Instruction} (hl : l.number < label) :
    ∀ node ∈ j.expansion usesCounter label is, node.marks l = false := by
  have hcount : (j.expansion usesCounter label is).countP (Node.marks l) = 0 := by
    rw [countP_expansion, if_neg (by omega)]
  simpa using List.countP_eq_zero.1 hcount

theorem length_recorded_le_sum (is : List Instruction) :
    (is.flatMap Instruction.recorded).length ≤
      (is.map Instruction.memoryOperandCount).sum := by
  induction is with
  | nil => exact Nat.le_refl _
  | cons i is ih =>
    have hi := i.length_recorded_le
    rw [List.flatMap_cons, List.length_append, List.map_cons, List.sum_cons]
    omega

/-- The labels of a block with fewer than 2 ^ 31 memory operands fit words of 32 bits. -/
theorem number_lt_of_marks {is : List Instruction}
    (hcount : (is.map Instruction.memoryOperandCount).sum < 2 ^ 31) {node : Node}
    (hnode : node ∈ j.expansion usesCounter 0 is) (hl : node.marks l = true) :
    l.number < 2 ^ 32 := by
  have hlength := length_recorded_le_sum is
  have hpos := List.countP_pos_iff.2 ⟨node, hnode, hl⟩
  rw [countP_expansion] at hpos
  split at hpos
  · omega
  · contradiction

end Injector

end AccessTrace
