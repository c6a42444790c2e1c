import AccessTrace.Code.Cpu
import AccessTrace.Proofs.Machine.Steps

/-!
# Runs of translated code

A run is followed from point to point, one node at a time. `Reaches n p q` says that a run which is
at `p` executes `n` nodes and is at `q` then; whatever it may still execute, it goes on from there.
Code that is executed straight through reaches the point behind it; a run that succeeds does so with
a larger limit as well.
-/

namespace AccessTrace

namespace Fragment

/-- The nodes stand in the fragment from an index on. -/
def Has (f : Fragment) (index : Nat) (nodes : List Node) : Prop :=
  ∀ k < nodes.length, f.nodes[index + k]? = nodes[k]?

variable {f : Fragment} {index : Nat} {node : Node} {xs ys : List Node}

theorem Has.left (h : f.Has index (xs ++ ys)) : f.Has index xs := by
  intro k hk
  rw [h k (by simp; omega), List.getElem?_append_left hk]

theorem Has.right (h : f.Has index (xs ++ ys)) : f.Has (index + xs.length) ys := by
  intro k hk
  have hget := h (xs.length + k) (by simp; omega)
  rw [List.getElem?_append_right (by omega), Nat.add_sub_cancel_left, ← Nat.add_assoc] at hget
  exact hget

theorem Has.head (h : f.Has index (node :: xs)) : f.nodes[index]? = some node :=
  h 0 (by simp)

theorem Has.tail (h : f.Has index (node :: xs)) : f.Has (index + 1) xs := by
  intro k hk
  have hget := h (k + 1) (by simpa using hk)
  rw [List.getElem?_cons_succ, Nat.add_comm k, ← Nat.add_assoc] at hget
  exact hget

theorem has_toArray (base : Nat) (nodes : List Node) :
    (⟨base, nodes.toArray⟩ : Fragment).Has 0 nodes := by
  intro k hk
  rw [Nat.zero_add, List.getElem?_toArray]

end Fragment

namespace Cpu

variable {δ ω : Type}

/-- Where a run is, and what it has done so far. -/
structure Point (δ ω : Type) where
  fragment : Fragment
  index : Nat
  counts : Counts
  state : Running δ ω

/-- Goes on with a run that may execute `remaining` more nodes. -/
def resume (cpu : Cpu δ ω) (remaining : Nat) (p : Point δ ω) :
    EStateM.Result MachineError (Running δ ω) Counts :=
  cpu.runFrom remaining p.fragment p.index p.counts p.state

/-- Where a run goes by the node that it is at, if there is one and it succeeds. -/
def step? (cpu : Cpu δ ω) (p : Point δ ω) : Option (Point δ ω) :=
  p.fragment.nodes[p.index]?.bind fun node =>
    match cpu.executeNode p.fragment node p.state with
    | .ok .next t => some ⟨p.fragment, p.index + 1, p.counts.step node, t⟩
    | .ok (.goto target) t => some ⟨p.fragment, target, p.counts.step node, t⟩
    | .ok (.transfer address) t =>
      (cpu.cache.lookup address.toNat).map fun place => ⟨place.1, place.2, p.counts.step node, t⟩
    | .error _ _ => none

/-- A run that is at `p` executes `n` nodes, and is at `q` then. -/
inductive Reaches (cpu : Cpu δ ω) : Nat → Point δ ω → Point δ ω → Prop where
  | refl (p : Point δ ω) : Reaches cpu 0 p p
  | step {n : Nat} {p q r : Point δ ω} (h : cpu.step? p = some q) (hrest : Reaches cpu n q r) :
    Reaches cpu (n + 1) p r

/-- The nodes are executed one after the other, without a jump. -/
inductive Flows (cpu : Cpu δ ω) (f : Fragment) :
    List Node → Running δ ω → Running δ ω → Prop where
  | nil (s : Running δ ω) : Flows cpu f [] s s
  | cons {node : Node} {nodes : List Node} {s t u : Running δ ω}
    (h : cpu.executeNode f node s = .ok .next t) (hrest : Flows cpu f nodes t u) :
    Flows cpu f (node :: nodes) s u

variable {cpu : Cpu δ ω} {f : Fragment} {index n k : Nat} {counts : Counts}
  {s t u : Running δ ω} {p q r : Point δ ω} {node : Node}

theorem Reaches.trans (h : cpu.Reaches n p q) (h' : cpu.Reaches k q r) :
    cpu.Reaches (n + k) p r := by
  induction h with
  | refl => rwa [Nat.zero_add]
  | step hstep _ ih =>
    rw [Nat.add_right_comm]
    exact .step hstep (ih h')

theorem runFrom_step (hnode : f.nodes[index]? = some node) (remaining : Nat) :
    cpu.runFrom (remaining + 1) f index counts s =
      match cpu.executeNode f node s with
      | .ok .next t => cpu.runFrom remaining f (index + 1) (counts.step node) t
      | .ok (.goto target) t => cpu.runFrom remaining f target (counts.step node) t
      | .ok (.transfer address) t =>
        match cpu.cache.lookup address.toNat with
        | none => .error (.noCodeAt address) t
        | some (f', index') => cpu.runFrom remaining f' index' (counts.step node) t
      | .error e t => .error e t := by
  rw [runFrom.eq_def cpu (remaining + 1) f index counts]
  simp only [hnode]
  rw [Step.bind_apply]
  cases cpu.executeNode f node s with
  | error e t => rfl
  | ok flow t =>
    cases flow with
    | next => rfl
    | goto target => rfl
    | transfer address =>
      simp only
      cases cpu.cache.lookup address.toNat <;> rfl

theorem runFrom_end (hnode : f.nodes[index]? = none) (remaining : Nat) :
    cpu.runFrom remaining f index counts s = .ok counts s := by
  unfold runFrom
  rw [hnode]
  rfl

theorem runFrom_limit (hnode : f.nodes[index]? = some node) :
    cpu.runFrom 0 f index counts s = .error (.stepLimit cpu.stepLimit) s := by
  unfold runFrom
  rw [hnode]
  rfl

theorem reaches_next (counts : Counts) (hnode : f.nodes[index]? = some node)
    (h : cpu.executeNode f node s = .ok .next t) :
    cpu.Reaches 1 ⟨f, index, counts, s⟩ ⟨f, index + 1, counts.step node, t⟩ := by
  refine .step ?_ (.refl _)
  simp only [step?, hnode, Option.bind_some, h]

theorem reaches_goto {target : Nat} (hnode : f.nodes[index]? = some node)
    (h : cpu.executeNode f node s = .ok (.goto target) t) :
    cpu.Reaches 1 ⟨f, index, counts, s⟩ ⟨f, target, counts.step node, t⟩ := by
  refine .step ?_ (.refl _)
  simp only [step?, hnode, Option.bind_some, h]

theorem reaches_transfer {address : Word} {f' : Fragment} {index' : Nat}
    (hnode : f.nodes[index]? = some node)
    (h : cpu.executeNode f node s = .ok (.transfer address) t)
    (hlookup : cpu.cache.lookup address.toNat = some (f', index')) :
    cpu.Reaches 1 ⟨f, index, counts, s⟩ ⟨f', index', counts.step node, t⟩ := by
  refine .step ?_ (.refl _)
  simp only [step?, hnode, Option.bind_some, h, hlookup, Option.map_some]

/-- A run goes on from where it comes to. -/
theorem resume_step (h : cpu.step? p = some q) (remaining : Nat) :
    cpu.resume (remaining + 1) p = cpu.resume remaining q := by
  obtain ⟨node, hnode, h⟩ := Option.bind_eq_some_iff.1 h
  rw [resume, runFrom_step hnode]
  cases hexecute : cpu.executeNode p.fragment node p.state with
  | error e t =>
    rw [hexecute] at h
    contradiction
  | ok flow t =>
    rw [hexecute] at h
    cases flow with
    | next =>
      obtain rfl := Option.some.inj h
      rfl
    | goto target =>
      obtain rfl := Option.some.inj h
      rfl
    | transfer address =>
      obtain ⟨place, hlookup, rfl⟩ := Option.map_eq_some_iff.1 h
      simp only [hlookup]
      rfl

theorem Reaches.resume (h : cpu.Reaches n p q) (remaining : Nat) :
    cpu.resume (n + remaining) p = cpu.resume remaining q := by
  induction h with
  | refl => rw [Nat.zero_add]
  | step hstep _ ih => rw [Nat.add_right_comm, resume_step hstep, ih]

/-- A run that fails at a node fails as a whole. -/
theorem resume_error {e : MachineError} (hnode : f.nodes[index]? = some node)
    (h : cpu.executeNode f node s = .error e t) (remaining : Nat) :
    cpu.resume (remaining + 1) ⟨f, index, counts, s⟩ = .error e t := by
  rw [resume, runFrom_step hnode, h]

theorem Flows.append {xs ys : List Node} (h : cpu.Flows f xs s t) (h' : cpu.Flows f ys t u) :
    cpu.Flows f (xs ++ ys) s u := by
  induction h with
  | nil => exact h'
  | cons hnode _ ih => exact .cons hnode (ih h')

/-- Straight code reaches the point behind it, in as many steps as it has nodes. -/
theorem Flows.reaches {nodes : List Node} (h : cpu.Flows f nodes s t) (counts : Counts)
    (hhas : f.Has index nodes) :
    cpu.Reaches nodes.length ⟨f, index, counts, s⟩
      ⟨f, index + nodes.length, nodes.foldl Counts.step counts, t⟩ := by
  induction h generalizing index counts with
  | nil => exact .refl _
  | @cons node nodes s t u hnode _ ih =>
    have hfirst := reaches_next counts hhas.head hnode
    have hall := hfirst.trans (ih _ hhas.tail)
    rwa [Nat.add_comm 1, Nat.add_assoc, Nat.add_comm 1] at hall

/-! ## Ends -/

variable {remaining : Nat} {result : EStateM.Result MachineError (Running δ ω) Counts}

/-- A run that is at `p` and has no limit executes `n` nodes and ends with `result`. A node that
fails is the last one, and so is one that leaves for an address without code. -/
inductive Ends (cpu : Cpu δ ω) : Nat → Point δ ω →
    EStateM.Result MachineError (Running δ ω) Counts → Prop where
  | behind {p : Point δ ω} (h : p.fragment.nodes[p.index]? = none) :
    Ends cpu 0 p (.ok p.counts p.state)
  | failed {p : Point δ ω} {node : Node} {e : MachineError} {t : Running δ ω}
    (hnode : p.fragment.nodes[p.index]? = some node)
    (h : cpu.executeNode p.fragment node p.state = .error e t) : Ends cpu 1 p (.error e t)
  | lost {p : Point δ ω} {node : Node} {address : Word} {t : Running δ ω}
    (hnode : p.fragment.nodes[p.index]? = some node)
    (h : cpu.executeNode p.fragment node p.state = .ok (.transfer address) t)
    (hlookup : cpu.cache.lookup address.toNat = none) :
    Ends cpu 1 p (.error (.noCodeAt address) t)
  | step {n : Nat} {p q : Point δ ω}
    {result : EStateM.Result MachineError (Running δ ω) Counts}
    (h : cpu.step? p = some q) (hrest : Ends cpu n q result) : Ends cpu (n + 1) p result

/-- A node is the last one, or the run goes on behind it. -/
theorem ends_or_step (cpu : Cpu δ ω) {node : Node}
    (hnode : p.fragment.nodes[p.index]? = some node) :
    (∃ result, cpu.Ends 1 p result) ∨ ∃ q, cpu.step? p = some q := by
  obtain ⟨f, index, counts, s⟩ := p
  cases h : cpu.executeNode f node s with
  | error e t => exact Or.inl ⟨_, .failed hnode h⟩
  | ok flow t =>
    cases flow with
    | next => exact Or.inr ⟨⟨f, index + 1, counts.step node, t⟩, by
        simp only [step?, hnode, Option.bind_some, h]⟩
    | goto target => exact Or.inr ⟨⟨f, target, counts.step node, t⟩, by
        simp only [step?, hnode, Option.bind_some, h]⟩
    | transfer address =>
      cases hlookup : cpu.cache.lookup address.toNat with
      | none => exact Or.inl ⟨_, .lost hnode h hlookup⟩
      | some place => exact Or.inr ⟨⟨place.1, place.2, counts.step node, t⟩, by
          simp only [step?, hnode, Option.bind_some, h, hlookup, Option.map_some]⟩

/-- A limit that a run does not exceed does not show. -/
theorem Ends.resume (h : cpu.Ends n p result) (hn : n ≤ remaining) :
    cpu.resume remaining p = result := by
  induction h generalizing remaining with
  | behind h => exact runFrom_end h remaining
  | failed hnode h =>
    obtain ⟨k, rfl⟩ := Nat.exists_eq_add_of_le' hn
    exact resume_error hnode h k
  | lost hnode h hlookup =>
    obtain ⟨k, rfl⟩ := Nat.exists_eq_add_of_le' hn
    rw [Cpu.resume, runFrom_step hnode, h]
    simp only [hlookup]
  | step h _ ih =>
    obtain ⟨k, rfl⟩ := Nat.exists_eq_add_of_le' hn
    rw [← Nat.add_assoc, resume_step h]
    exact ih (Nat.le_add_left _ _)

/-- So with such a limit the run ends as it does without. -/
theorem Ends.within (h : cpu.Ends n p result) (hn : n ≤ remaining) :
    ∃ k ≤ remaining, cpu.Ends k p (cpu.resume remaining p) := by
  rw [h.resume hn]
  exact ⟨n, hn, h⟩

/-- A run that may execute `remaining` more nodes either ends by itself, with no more of them, or
comes to where it has executed that many and finds another one, and is cut off there. -/
theorem ends_or_cutOff (cpu : Cpu δ ω) (remaining : Nat) (p : Point δ ω) :
    (∃ n ≤ remaining, cpu.Ends n p (cpu.resume remaining p)) ∨
    ∃ q node, cpu.Reaches remaining p q ∧ q.fragment.nodes[q.index]? = some node ∧
      cpu.resume remaining p = .error (.stepLimit cpu.stepLimit) q.state := by
  induction remaining generalizing p with
  | zero =>
    cases hnode : p.fragment.nodes[p.index]? with
    | none => exact Or.inl ((Ends.behind hnode).within (Nat.zero_le _))
    | some node => exact Or.inr ⟨p, node, .refl p, hnode, runFrom_limit hnode⟩
  | succ remaining ih =>
    cases hnode : p.fragment.nodes[p.index]? with
    | none => exact Or.inl ((Ends.behind hnode).within (Nat.zero_le _))
    | some node =>
      obtain ⟨result, hends⟩ | ⟨q, hstep⟩ := ends_or_step cpu hnode
      · exact Or.inl (hends.within (Nat.le_add_left _ _))
      · rw [resume_step hstep]
        obtain ⟨n, hn, hends⟩ | ⟨r, node, hreaches, hmore, hcut⟩ := ih q
        · exact Or.inl ⟨n + 1, Nat.succ_le_succ hn, .step hstep hends⟩
        · exact Or.inr ⟨r, node, .step hstep hreaches, hmore, hcut⟩

/-- With a larger limit a successful run stays the same. -/
theorem resume_mono (h : cpu.resume n p = .ok counts t) (k : Nat) :
    cpu.resume (n + k) p = .ok counts t := by
  obtain ⟨m, hm, hends⟩ | ⟨_, _, _, _, hcut⟩ := ends_or_cutOff cpu n p
  · rw [h] at hends
    exact hends.resume (Nat.le_add_right_of_le hm)
  · rw [h] at hcut
    contradiction

/-! ## Runs to the end -/

variable {limit : Nat}

/-- A limit that is large enough gets a run to its end. -/
theorem Reaches.resume_end (h : cpu.Reaches n p q) (hend : q.fragment.nodes[q.index]? = none)
    (hn : n ≤ limit) : cpu.resume limit p = .ok q.counts q.state := by
  rw [← Nat.add_sub_cancel' hn, h.resume]
  exact runFrom_end hend _

/-- A run that succeeds has come to the end that it reaches, whatever its limit. -/
theorem Reaches.of_resume_ok (h : cpu.Reaches n p q) (hend : q.fragment.nodes[q.index]? = none)
    (hok : cpu.resume limit p = .ok counts s) : counts = q.counts ∧ s = q.state := by
  have hlonger := resume_mono hok n
  rw [h.resume_end hend (Nat.le_add_left n limit)] at hlonger
  injection hlonger with hcounts hs
  exact ⟨hcounts.symm, hs.symm⟩

/-- A run that fails after some nodes does not succeed with a smaller limit either. -/
theorem resume_ne_ok {e : MachineError}
    (hfails : ∀ remaining, cpu.resume (n + remaining) p = .error e t) :
    cpu.resume limit p ≠ .ok counts s := by
  intro hok
  have hlonger := resume_mono hok n
  rw [Nat.add_comm, hfails] at hlonger
  contradiction

end Cpu

end AccessTrace
