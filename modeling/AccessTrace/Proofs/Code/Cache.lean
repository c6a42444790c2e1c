import AccessTrace.Proofs.Code.Run

/-!
# Finding code

Labels are found where they stand, and addresses in the fragment that holds them: fragments are
sorted by falling base, so the first that does not start above an address is the nearest below it.
-/

namespace AccessTrace

namespace Fragment

variable {f : Fragment} {l : Label} {index : Nat}

theorem lastMark?_eq {nodes : Array Node} {count : Nat} (hcount : index < count)
    (hat : nodes[index]? = some (.injected (.label l)))
    (hlast : ∀ k, index < k → ∀ node, nodes[k]? = some node → node.marks l = false) :
    lastMark? nodes l count = some index := by
  induction count with
  | zero => contradiction
  | succ count ih =>
    rw [lastMark?]
    by_cases heq : index = count
    · subst heq
      simp [hat, Node.marks]
    · have hmark : ((nodes[count]?.map (·.marks l)).getD false) = false := by
        cases hnode : nodes[count]? with
        | none => rfl
        | some node => exact hlast count (by omega) node hnode
      rw [hmark]
      exact ih (by omega)

/-- A label is found where it stands, if it does not stand again later. -/
theorem labelIndex_eq (hat : f.nodes[index]? = some (.injected (.label l)))
    (hlast : ∀ k, index < k → ∀ node, f.nodes[k]? = some node → node.marks l = false) :
    f.labelIndex l = .ok index := by
  have hsize : index < f.nodes.size := (Array.getElem?_eq_some_iff.1 hat).1
  rw [labelIndex, lastMark?_eq hsize hat hlast]

/-- As above, with the nodes that follow the label and those behind them. -/
theorem labelIndex_of_has {nodes : List Node} (h : f.Has index (.injected (.label l) :: nodes))
    (hnodes : ∀ node ∈ nodes, node.marks l = false)
    (hbehind : ∀ i, index + 1 + nodes.length ≤ i → ∀ node, f.nodes[i]? = some node →
      node.marks l = false) : f.labelIndex l = .ok index := by
  refine labelIndex_eq h.head fun i hi node hnode => ?_
  by_cases hin : i < index + 1 + nodes.length
  · have hget := h.tail (i - (index + 1)) (by omega)
    rw [Nat.add_sub_cancel' hi, hnode] at hget
    exact hnodes node (List.mem_of_getElem? hget.symm)
  · exact hbehind i (by omega) node hnode

theorem span_pos (f : Fragment) : 0 < f.span := by
  unfold span nodeStride
  omega

theorem addressOf_lt (hindex : index < max f.nodes.size 1) :
    f.addressOf index < f.base + f.span :=
  Nat.add_lt_add_left (Nat.mul_lt_mul_of_pos_right hindex (by decide)) _

end Fragment

namespace CodeCache

variable {c : CodeCache} {f g : Fragment}

/-- Fragments by falling base. -/
def Falling (fragments : List Fragment) : Prop :=
  fragments.Pairwise fun f g => g.base < f.base

/-- No other fragment starts within the fragment. -/
def Clear (c : CodeCache) (f : Fragment) : Prop :=
  ∀ g ∈ c.fragments, g.base ≤ f.base ∨ f.base + f.span ≤ g.base

/-- The nearest fragment that does not start above an address. -/
theorem find?_eq_some {address : Nat} (hfalling : Falling c.fragments) (hf : f ∈ c.fragments)
    (hbase : f.base ≤ address) (hnearest : ∀ g ∈ c.fragments, g.base ≤ f.base ∨ address < g.base) :
    c.fragments.find? (·.base ≤ address) = some f := by
  obtain ⟨xs, ys, hsplit⟩ := List.append_of_mem hf
  rw [List.find?_eq_some_iff_append]
  refine ⟨by simp [hbase], xs, ys, hsplit, fun g hg => ?_⟩
  have hgf : f.base < g.base := by
    have h := hfalling
    unfold Falling at h
    rw [hsplit, List.pairwise_append] at h
    exact h.2.2 g hg f (by simp)
  have hg' : g ∈ c.fragments := by
    rw [hsplit]
    exact List.mem_append_left _ hg
  have hnear := hnearest g hg'
  simp only [Bool.not_eq_eq_eq_not, Bool.not_true, decide_eq_false_iff_not]
  omega

/-- A node is found at its address if and only if no other fragment starts on the way to it. -/
theorem lookup_addressOf_iff (hfalling : Falling c.fragments) (hf : f ∈ c.fragments) {index : Nat}
    (hindex : index < max f.nodes.size 1) : c.lookup (f.addressOf index) = some (f, index) ↔
      ∀ g ∈ c.fragments, g.base ≤ f.base ∨ f.addressOf index < g.base := by
  have hsub : f.addressOf index - f.base = index * nodeStride :=
    Nat.add_sub_cancel_left ..
  unfold lookup
  constructor
  · intro h g hg
    obtain ⟨found, hfind, h⟩ := Option.bind_eq_some_iff.1 h
    dsimp only at h
    split at h
    · obtain ⟨rfl, -⟩ := Prod.mk.inj (Option.some.inj h)
      -- Whatever stands before the fragment that was found starts above the address.
      obtain ⟨-, before, behind, hsplit, habove⟩ := List.find?_eq_some_iff_append.1 hfind
      rw [Falling, hsplit, List.pairwise_append, List.pairwise_cons] at hfalling
      rw [hsplit] at hg
      rcases List.mem_append.1 hg with hg | hg
      · exact Or.inr (by simpa using habove g hg)
      · rcases List.mem_cons.1 hg with rfl | hg
        · exact Or.inl (Nat.le_refl _)
        · exact Or.inl (Nat.le_of_lt (hfalling.2.1.1 g hg))
    · contradiction
  · intro hnearest
    have hoffset : index * nodeStride < f.span :=
      Nat.lt_of_add_lt_add_left (Fragment.addressOf_lt hindex)
    have hbase : f.base ≤ f.addressOf index := Nat.le_add_right _ _
    rw [find?_eq_some hfalling hf hbase hnearest]
    simp only [Option.bind_eq_bind, Option.bind_some, hsub, Nat.mul_mod_left, true_and]
    rw [if_pos hoffset, Nat.mul_div_cancel _ (by decide)]

/-- Every node of a fragment in which no other starts is found at its address. -/
theorem lookup_addressOf (hfalling : Falling c.fragments) (hf : f ∈ c.fragments)
    (hclear : c.Clear f) {index : Nat} (hindex : index < max f.nodes.size 1) :
    c.lookup (f.addressOf index) = some (f, index) := by
  refine (lookup_addressOf_iff hfalling hf hindex).2 fun g hg => (hclear g hg).imp_right ?_
  exact Nat.lt_of_lt_of_le (Fragment.addressOf_lt hindex)

theorem mem_insertSorted {fragments : List Fragment} (h : Falling fragments) :
    g ∈ insertSorted f fragments ↔ g = f ∨ g ∈ fragments ∧ g.base ≠ f.base := by
  induction fragments with
  | nil => simp [insertSorted]
  | cons head tail ih =>
    obtain ⟨hhead, htail⟩ := List.pairwise_cons.1 h
    rw [insertSorted]
    split
    · rename_i hlt
      rw [List.mem_cons, ih htail, List.mem_cons]
      constructor
      · rintro (rfl | rfl | ⟨hg, hne⟩)
        · exact Or.inr ⟨Or.inl rfl, by omega⟩
        · exact Or.inl rfl
        · exact Or.inr ⟨Or.inr hg, hne⟩
      · rintro (rfl | ⟨rfl | hg, hne⟩)
        · exact Or.inr (Or.inl rfl)
        · exact Or.inl rfl
        · exact Or.inr (Or.inr ⟨hg, hne⟩)
    · split
      · rename_i heq
        rw [List.mem_cons, List.mem_cons]
        constructor
        · rintro (rfl | hg)
          · exact Or.inl rfl
          · have hlt := hhead g hg
            exact Or.inr ⟨Or.inr hg, by omega⟩
        · rintro (rfl | ⟨rfl | hg, hne⟩)
          · exact Or.inl rfl
          · exact absurd heq.symm hne
          · exact Or.inr hg
      · rename_i hnlt hne
        rw [List.mem_cons, List.mem_cons]
        constructor
        · rintro (rfl | rfl | hg)
          · exact Or.inl rfl
          · exact Or.inr ⟨Or.inl rfl, by omega⟩
          · have hlt := hhead g hg
            exact Or.inr ⟨Or.inr hg, by omega⟩
        · rintro (rfl | ⟨hg, _⟩)
          · exact Or.inl rfl
          · exact Or.inr hg

theorem falling_insertSorted {fragments : List Fragment} (h : Falling fragments) :
    Falling (insertSorted f fragments) := by
  induction fragments with
  | nil => exact List.pairwise_singleton _ _
  | cons head tail ih =>
    obtain ⟨hhead, htail⟩ := List.pairwise_cons.1 h
    rw [insertSorted]
    split
    · rename_i hlt
      refine List.pairwise_cons.2 ⟨fun g hg => ?_, ih htail⟩
      rcases (mem_insertSorted htail).1 hg with rfl | ⟨hg, _⟩
      · exact hlt
      · exact hhead g hg
    · split
      · rename_i heq
        refine List.pairwise_cons.2 ⟨fun g hg => ?_, htail⟩
        have hlt := hhead g hg
        omega
      · rename_i hnlt hne
        refine List.pairwise_cons.2 ⟨fun g hg => ?_, h⟩
        rcases List.mem_cons.1 hg with rfl | hg
        · omega
        · have hlt := hhead g hg
          omega

/-- How many addresses the translated nodes of a block take, up to the start of the next one. -/
def room (nodes : List Node) : Nat :=
  ((⟨0, nodes.toArray⟩ : Fragment).span + (blockSpan - 1)) / blockSpan * blockSpan

theorem span_le_room (base : Nat) (nodes : List Node) :
    (⟨base, nodes.toArray⟩ : Fragment).span ≤ room nodes := by
  change (⟨0, nodes.toArray⟩ : Fragment).span ≤ _
  unfold room
  generalize (⟨0, nodes.toArray⟩ : Fragment).span = span
  have hdiv := Nat.div_add_mod (span + (blockSpan - 1)) blockSpan
  have hmod : (span + (blockSpan - 1)) % blockSpan < blockSpan := Nat.mod_lt _ (by decide)
  rw [Nat.mul_comm] at hdiv
  omega

/-- A block that is placed changes no other entry. -/
theorem entry?_insertBlock (c : CodeCache) (tag other : Word) (nodes : List Node) :
    CodeCache.entry? (c.insertBlock tag nodes).2 other =
      if other = tag then some c.nextBase else c.entry? other := by
  change List.lookup other ((tag, c.nextBase) :: c.entries.filter (·.1 != tag)) = _
  rw [List.lookup_cons]
  by_cases heq : other = tag
  · rw [if_pos heq, heq, beq_self_eq_true]
  · have hne : (other == tag) = false := beq_eq_false_iff_ne.2 heq
    rw [if_neg heq, hne]
    change List.lookup other (c.entries.filter (·.1 != tag)) = List.lookup other c.entries
    induction c.entries with
    | nil => rfl
    | cons entry entries ih =>
      obtain ⟨key, base⟩ := entry
      by_cases hkey : key = tag
      · have hskip : ((key, base) :: entries).filter (·.1 != tag) =
            entries.filter (·.1 != tag) := by simp [hkey]
        rw [hskip, ih, List.lookup_cons, hkey, hne]
      · have hkeep : ((key, base) :: entries).filter (·.1 != tag) =
            (key, base) :: entries.filter (·.1 != tag) := by simp [hkey]
        rw [hkeep, List.lookup_cons, List.lookup_cons, ih]

end CodeCache

end AccessTrace
