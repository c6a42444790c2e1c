import AccessTrace.Proofs.Code.Cache
import AccessTrace.Proofs.FastPath.Labels
import AccessTrace.Proofs.Session.Threads

/-!
# The shape of translated blocks

A translated block is made of segments, one for each access to record and one for each instruction,
in the order of the block. Without the injected nodes it is the block again. Each of its labels
stands in one place, and whatever goes to a label finds it there, behind itself in the same path.
-/

namespace AccessTrace

/-- A segment of a translated block: the path of an access, with its two labels, or an instruction. -/
inductive Segment where
  | path (pc : Word) (access : Access) (divert resume : Label)
  | app (i : Instruction)

namespace Segment

/-- The access or the instruction that a segment is there for. -/
def source : Segment → (Word × Access) ⊕ Instruction
  | path pc access _ _ => .inl (pc, access)
  | app i => .inr i

def nodes (j : Injector) (usesCounter : Bool) : Segment → List Node
  | path pc access divert resume => (j.path usesCounter pc access divert resume).map .injected
  | app i => [.app i]

/-- The paths of some accesses, with labels from `label` on. -/
def paths : (label : Nat) → List (Word × Access) → List Segment
  | _, [] => []
  | label, (pc, access) :: rest => .path pc access ⟨label⟩ ⟨label + 1⟩ :: paths (label + 2) rest

/-- The segments of a block, with labels from `label` on. -/
def ofInstructions : (label : Nat) → List Instruction → List Segment
  | _, [] => []
  | label, i :: rest =>
    paths label i.recorded ++ .app i :: ofInstructions (label + 2 * i.recorded.length) rest

variable {j : Injector} {usesCounter : Bool}

theorem flatMap_paths (label : Nat) (accesses : List (Word × Access)) :
    (paths label accesses).flatMap (nodes j usesCounter) = j.paths usesCounter label accesses := by
  induction accesses generalizing label with
  | nil => rfl
  | cons a accesses ih =>
    rw [paths, List.flatMap_cons, ih, Injector.paths]
    rfl

/-- The nodes of a block are those of its segments. -/
theorem flatMap_ofInstructions (label : Nat) (is : List Instruction) :
    (ofInstructions label is).flatMap (nodes j usesCounter) = j.expansion usesCounter label is := by
  induction is generalizing label with
  | nil => rfl
  | cons i is ih =>
    rw [ofInstructions, List.flatMap_append, flatMap_paths, List.flatMap_cons, ih,
      Injector.expansion]
    rfl

theorem source_paths (label : Nat) (accesses : List (Word × Access)) :
    (paths label accesses).map source = accesses.map .inl := by
  induction accesses generalizing label with
  | nil => rfl
  | cons a accesses ih =>
    rw [paths, List.map_cons, ih, List.map_cons]
    rfl

/-- There is a segment for each recorded access of an instruction, and then one for itself. -/
theorem source_ofInstructions (label : Nat) (is : List Instruction) :
    (ofInstructions label is).map source =
      is.flatMap fun i => i.recorded.map .inl ++ [.inr i] := by
  induction is generalizing label with
  | nil => rfl
  | cons i is ih =>
    rw [ofInstructions, List.map_append, source_paths, List.map_cons, ih, List.flatMap_cons,
      List.append_assoc]
    rfl

/-- What goes to a label in a segment goes on in the segment. -/
theorem placed (s : Segment) {k : Nat} {i : Injected} {l : Label}
    (hi : (s.nodes j usesCounter)[k]? = some (.injected i)) (hl : i.target? = some l) :
    ∃ k', k < k' ∧ (s.nodes j usesCounter)[k']? = some (.injected (.label l)) := by
  cases s with
  | path pc access divert resume =>
    rw [nodes, List.getElem?_map] at hi
    obtain ⟨i', hi', hinjected⟩ := Option.map_eq_some_iff.1 hi
    obtain rfl := Node.injected.inj hinjected
    obtain ⟨k', hlt, hk'⟩ := Injector.forward_path.placed hi' hl
    refine ⟨k', hlt, ?_⟩
    rw [nodes, List.getElem?_map, hk']
    rfl
  | app instruction =>
    have hmem := List.mem_of_getElem? hi
    simp [nodes] at hmem

end Segment

/-- The instruction of a node that is not injected. -/
def Node.app? : Node → Option Instruction
  | app i => some i
  | injected _ => none

namespace Injector

variable {j : Injector} {usesCounter : Bool}

theorem filterMap_paths (label : Nat) (accesses : List (Word × Access)) :
    (j.paths usesCounter label accesses).filterMap Node.app? = [] := by
  induction accesses generalizing label with
  | nil => rfl
  | cons a accesses ih =>
    rw [paths, List.filterMap_append, ih, List.append_nil, List.filterMap_map]
    exact List.filterMap_eq_nil_iff.2 fun _ _ => rfl

/-- What is left of a block without the injected nodes are its instructions. -/
theorem filterMap_expansion (label : Nat) (is : List Instruction) :
    (j.expansion usesCounter label is).filterMap Node.app? = is := by
  induction is generalizing label with
  | nil => rfl
  | cons i is ih =>
    rw [expansion, List.filterMap_append, filterMap_paths, List.nil_append,
      List.filterMap_cons_some (show Node.app? (.app i) = some i from rfl), ih]

end Injector

namespace Fragment

variable {nodes : List Node} {l : Label} {index : Nat}

/-- A label that stands in one place is found there. -/
theorem labelIndex_of_countP (hcount : nodes.countP (Node.marks l) = 1)
    (hat : nodes[index]? = some (.injected (.label l))) (base : Nat) :
    (⟨base, nodes.toArray⟩ : Fragment).labelIndex l = .ok index := by
  obtain ⟨hindex, hnode⟩ := List.getElem?_eq_some_iff.1 hat
  have hsplit : nodes = nodes.take index ++ .injected (.label l) :: nodes.drop (index + 1) := by
    rw [← hnode, ← List.drop_eq_getElem_cons hindex, List.take_append_drop]
  have hlast : (nodes.drop (index + 1)).countP (Node.marks l) = 0 := by
    rw [hsplit, List.countP_append, List.countP_cons_of_pos (by simp [Node.marks])] at hcount
    omega
  refine labelIndex_eq (by rwa [List.getElem?_toArray]) fun k hk node hnode => ?_
  have hmem : node ∈ nodes.drop (index + 1) := by
    rw [List.getElem?_toArray] at hnode
    refine List.mem_of_getElem? (i := k - (index + 1)) ?_
    rw [List.getElem?_drop, ← hnode]
    congr 1
    omega
  simpa using List.countP_eq_zero.1 hlast node hmem

end Fragment

/-- The nodes are those of the segments, which are those of the instructions, and no label is lost,
used twice or too large for four bytes. -/
structure Shaped (j : Injector) (usesCounter : Bool) (is : List Instruction)
    (segments : List Segment) (nodes : List Node) : Prop where
  nodes_eq : nodes = segments.flatMap (Segment.nodes j usesCounter)
  sources : segments.map Segment.source = is.flatMap fun i => i.recorded.map .inl ++ [.inr i]
  instructions : nodes.filterMap Node.app? = is
  once : ∀ l, nodes.countP (Node.marks l) =
    if l.number < 2 * (is.flatMap Instruction.recorded).length then 1 else 0
  bounded : 2 * (is.flatMap Instruction.recorded).length < 2 ^ 32
  resolves : ∀ front s back, segments = front ++ s :: back → ∀ k i l,
    (s.nodes j usesCounter)[k]? = some (.injected i) → i.target? = some l →
      ∃ k', k < k' ∧ (s.nodes j usesCounter)[k']? = some (.injected (.label l)) ∧
        ∀ base, (⟨base, nodes.toArray⟩ : Fragment).labelIndex l =
          .ok ((front.flatMap (Segment.nodes j usesCounter)).length + k')

theorem Injector.shaped (j : Injector) (usesCounter : Bool) {is : List Instruction}
    (hcount : (is.map Instruction.memoryOperandCount).sum < 2 ^ 31) :
    Shaped j usesCounter is (Segment.ofInstructions 0 is) (j.expansion usesCounter 0 is) := by
  have hlength := length_recorded_le_sum is
  have honce (l : Label) : (j.expansion usesCounter 0 is).countP (Node.marks l) =
      if l.number < 2 * (is.flatMap Instruction.recorded).length then 1 else 0 := by
    rw [countP_expansion]
    simp
  refine ⟨(Segment.flatMap_ofInstructions 0 is).symm, Segment.source_ofInstructions 0 is,
    filterMap_expansion 0 is, honce, by omega, ?_⟩
  intro front s back hsegments k i l hi hl
  obtain ⟨k', hlt, hk'⟩ := s.placed hi hl
  refine ⟨k', hlt, hk', fun base => ?_⟩
  have hnodes : j.expansion usesCounter 0 is =
      front.flatMap (Segment.nodes j usesCounter) ++ (s.nodes j usesCounter ++
        back.flatMap (Segment.nodes j usesCounter)) := by
    rw [← Segment.flatMap_ofInstructions, hsegments, List.flatMap_append, List.flatMap_cons]
  have hat : (j.expansion usesCounter 0 is)[(front.flatMap (Segment.nodes j usesCounter)).length +
      k']? = some (.injected (.label l)) := by
    have hinside := (List.getElem?_eq_some_iff.1 hk').1
    rw [hnodes, List.getElem?_append_right (Nat.le_add_right _ _), Nat.add_sub_cancel_left,
      List.getElem?_append_left hinside, hk']
  refine Fragment.labelIndex_of_countP ?_ hat base
  -- The label stands somewhere, so it is one of those that stand in one place.
  have hpos : 0 < (j.expansion usesCounter 0 is).countP (Node.marks l) :=
    List.countP_pos_iff.2 ⟨_, List.mem_of_getElem? hat, by simp [Node.marks]⟩
  rw [honce] at hpos ⊢
  split at hpos
  · rename_i hl
    rw [if_pos hl]
  · contradiction

namespace Tracer

/-- A block of any instructions is translated, and what it is translated to has the shape of the
block, whichever overflow test the injector uses. -/
theorem translate_shaped {ω : Type} {t : Tracer ω} {usesCounter : Bool}
    (ht : t.injector.Uses usesCounter) (b : Block) (session : Session ω)
    (hcount : (b.instructions.map Instruction.memoryOperandCount).sum < 2 ^ 31) :
    ∃ segments nodes, Host.translate t.client b session = .ok nodes session ∧
      Shaped t.injector usesCounter b.instructions segments nodes :=
  ⟨_, _, translate_ok ht b session, t.injector.shaped usesCounter hcount⟩

end Tracer

namespace Sample

/-- Two accesses, one that does not come from the application, and one more. -/
def mixedBlock : Block :=
  ⟨0x400000, [.movs 0x400000 .b8, { Instruction.pop 0 (.memory cell) with address := none },
    .mov 0x400008 (.memory cell) (.register .rax)]⟩

theorem shaped_mixedBlock : traced.1.injector.Uses true ∧
    (mixedBlock.instructions.map Instruction.memoryOperandCount).sum < 2 ^ 31 ∧
    ∃ segments nodes, Host.translate traced.1.client mixedBlock session = .ok nodes session ∧
      Shaped traced.1.injector true mixedBlock.instructions segments nodes := by
  have huses : traced.1.injector.Uses true := rfl
  have hcount : (mixedBlock.instructions.map Instruction.memoryOperandCount).sum < 2 ^ 31 := by
    decide
  exact ⟨huses, hcount, Tracer.translate_shaped huses mixedBlock session hcount⟩

end Sample

end AccessTrace
