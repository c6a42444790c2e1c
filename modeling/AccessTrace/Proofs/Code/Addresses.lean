import AccessTrace.Proofs.Code.Cache
import Mathlib.Data.List.Induction
import Mathlib.Order.CompletePartialOrder
import Mathlib.Order.Interval.Set.Disjoint

/-!
# Code by address

A cache to which blocks and shared code are added in any order, tags repeated or not, holds all of
it at addresses that nothing else takes. So an address that is found is that of a node, every node
is found at its address, and the entry of a block is that of the code placed last for its tag. The
shared code has to keep out of its own way and out of the area that the blocks fill.
-/

namespace AccessTrace

namespace Fragment

variable {f g : Fragment}

/-- The addresses that the fragment takes. -/
def extent (f : Fragment) : Set Nat :=
  Set.Ico f.base (f.base + f.span)

theorem base_mem_extent (f : Fragment) : f.base ∈ f.extent :=
  ⟨Nat.le_refl _, Nat.lt_add_of_pos_right f.span_pos⟩

/-- Two fragments that have no address in common do not start at the same one. -/
theorem base_ne_of_disjoint (h : Disjoint f.extent g.extent) : f.base ≠ g.base := fun heq =>
  Set.disjoint_left.1 h f.base_mem_extent (heq ▸ g.base_mem_extent)

end Fragment

namespace CodeCache

variable {c : CodeCache} {f : Fragment} {address index : Nat}

/-- What is found at an address is a node of a fragment, and the address is that of the node. -/
theorem of_lookup_eq_some (h : c.lookup address = some (f, index)) :
    f ∈ c.fragments ∧ address = f.addressOf index ∧ index < max f.nodes.size 1 := by
  unfold lookup at h
  obtain ⟨g, hfind, h⟩ := Option.bind_eq_some_iff.1 h
  have hbase : g.base ≤ address := by simpa using List.find?_some hfind
  dsimp only at h
  split at h
  · rename_i hoffset
    obtain ⟨rfl, rfl⟩ := Prod.mk.inj (Option.some.inj h)
    have hspan : g.span = max g.nodes.size 1 * nodeStride := rfl
    have hmul := Nat.div_mul_cancel (Nat.dvd_of_mod_eq_zero hoffset.1)
    refine ⟨List.mem_of_find?_eq_some hfind, ?_, ?_⟩
    · rw [Fragment.addressOf, hmul, Nat.add_sub_cancel' hbase]
    · rw [Nat.div_lt_iff_lt_mul (by decide), ← hspan]
      exact hoffset.2
  · contradiction

/-- Where the extents of all fragments are apart, exactly the addresses of nodes are found. -/
theorem lookup_eq_some_iff (hfalling : Falling c.fragments)
    (hapart : ∀ f ∈ c.fragments, ∀ g ∈ c.fragments, f = g ∨ Disjoint f.extent g.extent) :
    c.lookup address = some (f, index) ↔
      f ∈ c.fragments ∧ address = f.addressOf index ∧ index < max f.nodes.size 1 := by
  refine ⟨of_lookup_eq_some, ?_⟩
  rintro ⟨hf, rfl, hindex⟩
  refine lookup_addressOf hfalling hf (fun g hg => ?_) hindex
  rcases hapart f hf g hg with rfl | hdisjoint
  · exact Or.inl (Nat.le_refl _)
  · have hnot : g.base ∉ f.extent := fun h =>
      Set.disjoint_left.1 hdisjoint h g.base_mem_extent
    simp only [Fragment.extent, Set.mem_Ico, not_and_or, Nat.not_le, Nat.not_lt] at hnot
    exact hnot.imp_left Nat.le_of_lt

/-! ## Insertions -/

/-- What is added to a cache: the translated nodes of a block, or code that has its address. -/
inductive Insertion where
  | block (tag : Word) (nodes : List Node)
  | shared (f : Fragment)

def Insertion.shared? : Insertion → Option Fragment
  | block _ _ => none
  | shared f => some f

/-- A cache together with all that was ever added to it. -/
structure Filled where
  cache : CodeCache
  /-- In the order of insertion, blocks with their tags. -/
  placed : List (Option Word × Fragment)

theorem room_eq (nodes : List Node) : room nodes =
    (max nodes.length 1 * nodeStride + (blockSpan - 1)) / blockSpan * blockSpan :=
  rfl

@[simp]
theorem nextBase_insertBlock (c : CodeCache) (tag : Word) (nodes : List Node) :
    (c.insertBlock tag nodes).2.nextBase = c.nextBase + room nodes :=
  rfl

@[simp]
theorem nextBase_insertShared (c : CodeCache) (f : Fragment) :
    (c.insertShared f).nextBase = c.nextBase :=
  rfl

namespace Filled

def empty : Filled := ⟨.empty, []⟩

def insert (s : Filled) : Insertion → Filled
  | .block tag nodes =>
    let (entry, cache) := s.cache.insertBlock tag nodes
    ⟨cache, s.placed ++ [(some tag, ⟨entry, nodes.toArray⟩)]⟩
  | .shared f => ⟨s.cache.insertShared f, s.placed ++ [(none, f)]⟩

theorem insert_block (s : Filled) (tag : Word) (nodes : List Node) :
    s.insert (.block tag nodes) = ⟨(s.cache.insertBlock tag nodes).2,
      s.placed ++ [(some tag, ⟨s.cache.nextBase, nodes.toArray⟩)]⟩ :=
  rfl

theorem insert_shared (s : Filled) (f : Fragment) :
    s.insert (.shared f) = ⟨s.cache.insertShared f, s.placed ++ [(none, f)]⟩ :=
  rfl

def insertAll (insertions : List Insertion) : Filled :=
  insertions.foldl insert empty

/-- The code that was placed last for a block. -/
def newest? (s : Filled) (tag : Word) : Option Fragment :=
  s.placed.reverse.lookup (some tag)

/-- Nothing that was placed is lost, in the way of something else, or out of the block area if it
is a block. -/
structure Sound (s : Filled) : Prop where
  falling : Falling s.cache.fragments
  held : ∀ f, f ∈ s.cache.fragments ↔ ∃ x ∈ s.placed, x.2 = f
  apart : s.placed.Pairwise fun x y => Disjoint x.2.extent y.2.extent
  area : blockAreaBase ≤ s.cache.nextBase
  blocks : ∀ x ∈ s.placed, x.1.isSome → blockAreaBase ≤ x.2.base ∧
    x.2.base + x.2.span ≤ s.cache.nextBase
  entries : ∀ tag, s.cache.entry? tag = (s.newest? tag).map (·.base)

theorem sound_empty : empty.Sound :=
  ⟨List.Pairwise.nil, by simp [empty, CodeCache.empty], List.Pairwise.nil, Nat.le_refl _,
    by simp [empty], fun _ => rfl⟩

variable {s : Filled} {tag? : Option Word} {f : Fragment} {insertions : List Insertion}

theorem Sound.held_insertSorted (hs : s.Sound)
    (hapart : ∀ x ∈ s.placed, Disjoint x.2.extent f.extent) (g : Fragment) :
    g ∈ insertSorted f s.cache.fragments ↔ ∃ x ∈ s.placed ++ [(tag?, f)], x.2 = g := by
  rw [mem_insertSorted hs.falling, hs.held]
  simp only [List.mem_append, List.mem_singleton, or_and_right, exists_or, exists_eq_left]
  constructor
  · rintro (rfl | ⟨hg, _⟩)
    · exact Or.inr rfl
    · exact Or.inl hg
  · rintro (⟨x, hx, rfl⟩ | rfl)
    · exact Or.inr ⟨⟨x, hx, rfl⟩, Fragment.base_ne_of_disjoint (hapart x hx)⟩
    · exact Or.inl rfl

theorem apart_concat (hapart : s.placed.Pairwise fun x y => Disjoint x.2.extent y.2.extent)
    (hnew : ∀ x ∈ s.placed, Disjoint x.2.extent f.extent) :
    (s.placed ++ [(tag?, f)]).Pairwise fun x y => Disjoint x.2.extent y.2.extent := by
  refine List.pairwise_append.2 ⟨hapart, List.pairwise_singleton _ _, fun x hx y hy => ?_⟩
  rw [List.mem_singleton.1 hy]
  exact hnew x hx

/-- A block takes the addresses behind the area that is filled. -/
theorem Sound.insertBlock (hs : s.Sound) (tag : Word) (nodes : List Node)
    (hapart : ∀ x ∈ s.placed, Disjoint x.2.extent
      (⟨s.cache.nextBase, nodes.toArray⟩ : Fragment).extent) :
    (s.insert (.block tag nodes)).Sound := by
  have hroom := span_le_room s.cache.nextBase nodes
  have hnext : (s.insert (.block tag nodes)).cache.nextBase = s.cache.nextBase + room nodes := rfl
  have harea := hs.area
  refine ⟨falling_insertSorted hs.falling, hs.held_insertSorted hapart,
    apart_concat hs.apart hapart, by omega, fun x hx hblock => ?_, fun other => ?_⟩
  · rcases List.mem_append.1 hx with hx | hx
    · have hold := hs.blocks x hx hblock
      omega
    · rw [List.mem_singleton.1 hx]
      refine ⟨harea, ?_⟩
      change s.cache.nextBase + (⟨s.cache.nextBase, nodes.toArray⟩ : Fragment).span ≤ _
      omega
  · change CodeCache.entry? (s.cache.insertBlock tag nodes).2 other = _
    rw [entry?_insertBlock, hs.entries]
    change _ = Option.map _ ((s.placed ++ [(some tag, _)]).reverse.lookup (some other))
    rw [List.reverse_concat, List.lookup_cons]
    by_cases heq : other = tag
    · rw [if_pos heq, heq, beq_self_eq_true]
      rfl
    · rw [if_neg heq, beq_eq_false_iff_ne.2 fun h => heq (Option.some.inj h)]
      rfl

theorem Sound.insertShared (hs : s.Sound)
    (hapart : ∀ x ∈ s.placed, Disjoint x.2.extent f.extent) :
    (s.insert (.shared f)).Sound := by
  refine ⟨falling_insertSorted hs.falling, hs.held_insertSorted hapart,
    apart_concat hs.apart hapart, hs.area, fun x hx hblock => ?_, fun tag => ?_⟩
  · rcases List.mem_append.1 hx with hx | hx
    · exact hs.blocks x hx hblock
    · rw [List.mem_singleton.1 hx] at hblock
      contradiction
  · change s.cache.entry? tag = Option.map _ ((s.placed ++ [(none, f)]).reverse.lookup (some tag))
    rw [hs.entries, List.reverse_concat, List.lookup_cons]
    rfl

/-- The addresses of blocks placed so far lie in the area that is filled. -/
theorem Sound.block_extent_subset (hs : s.Sound) {x : Option Word × Fragment} (hx : x ∈ s.placed)
    (hblock : x.1.isSome) : x.2.extent ⊆ Set.Ico blockAreaBase s.cache.nextBase := fun _ ha =>
  ⟨Nat.le_trans (hs.blocks x hx hblock).1 ha.1, Nat.lt_of_lt_of_le ha.2 (hs.blocks x hx hblock).2⟩

theorem Sound.eq_or_disjoint (hs : s.Sound) {x y : Option Word × Fragment} (hx : x ∈ s.placed)
    (hy : y ∈ s.placed) : x.2 = y.2 ∨ Disjoint x.2.extent y.2.extent :=
  List.Pairwise.forall_of_forall_of_flip
    (R := fun x y : Option Word × Fragment => x.2 = y.2 ∨ Disjoint x.2.extent y.2.extent)
    (fun _ _ => Or.inl rfl) (hs.apart.imp Or.inr)
    (hs.apart.imp fun h => Or.inr h.symm) hx hy

theorem insertAll_concat (insertions : List Insertion) (i : Insertion) :
    insertAll (insertions ++ [i]) = (insertAll insertions).insert i := by
  rw [insertAll, List.foldl_append]
  rfl

/-- What was placed without a tag is shared code. -/
theorem mem_shared_of_placed {x : Option Word × Fragment}
    (hx : x ∈ (insertAll insertions).placed) (htag : x.1 = none) :
    x.2 ∈ insertions.filterMap Insertion.shared? := by
  induction insertions using List.reverseRecOn with
  | nil => contradiction
  | append_singleton insertions i ih =>
    rw [insertAll_concat] at hx
    rw [List.filterMap_append, List.mem_append]
    cases i with
    | block tag nodes =>
      rcases List.mem_append.1 hx with hx | hx
      · exact Or.inl (ih hx)
      · rw [List.mem_singleton.1 hx] at htag
        contradiction
    | shared g =>
      rcases List.mem_append.1 hx with hx | hx
      · exact Or.inl (ih hx)
      · rw [List.mem_singleton.1 hx]
        exact Or.inr (List.mem_singleton_self _)

/-- Whatever the insertions: every state between two of them is sound, so the last one is. -/
theorem sound_insertAll
    (hshared : (insertions.filterMap Insertion.shared?).Pairwise
      fun f g => Disjoint f.extent g.extent)
    (harea : ∀ f ∈ insertions.filterMap Insertion.shared?,
      Disjoint f.extent (Set.Ico blockAreaBase (insertAll insertions).cache.nextBase)) :
    (insertAll insertions).Sound := by
  induction insertions using List.reverseRecOn with
  | nil => exact sound_empty
  | append_singleton insertions i ih =>
    rw [insertAll_concat] at harea ⊢
    rw [List.filterMap_append] at hshared harea
    obtain ⟨hbefore, -, hlast⟩ := List.pairwise_append.1 hshared
    cases i with
    | block tag nodes =>
      have hnext : ((insertAll insertions).insert (.block tag nodes)).cache.nextBase =
          (insertAll insertions).cache.nextBase + room nodes := rfl
      rw [hnext] at harea
      have hs := ih hbefore fun f hf => (harea f (List.mem_append_left _ hf)).mono_right
        (Set.Ico_subset_Ico_right (Nat.le_add_right _ _))
      refine hs.insertBlock tag nodes fun x hx => ?_
      have hroom : (⟨(insertAll insertions).cache.nextBase, nodes.toArray⟩ : Fragment).extent ⊆
          Set.Ico (insertAll insertions).cache.nextBase
            ((insertAll insertions).cache.nextBase + room nodes) :=
        Set.Ico_subset_Ico_right (Nat.add_le_add_left (span_le_room _ _) _)
      cases htag : x.1 with
      | none =>
        have hf := mem_shared_of_placed hx htag
        exact (harea x.2 (List.mem_append_left _ hf)).mono_right
          (hroom.trans (Set.Ico_subset_Ico_left hs.area))
      | some other =>
        have hold := hs.block_extent_subset hx (by rw [htag]; rfl)
        exact (Set.Ico_disjoint_Ico_same).mono hold hroom
    | shared f =>
      have hs := ih hbefore fun g hg => harea g (List.mem_append_left _ hg)
      refine hs.insertShared fun x hx => ?_
      cases htag : x.1 with
      | none => exact hlast x.2 (mem_shared_of_placed hx htag) f (List.mem_singleton_self _)
      | some other =>
        have hold := hs.block_extent_subset hx (by rw [htag]; rfl)
        exact (harea f (List.mem_append_right _ (List.mem_singleton_self _))).symm.mono_left hold

/-- Whatever is added in whatever order, repeated tags and blocks of no nodes or of many spans
included: no two pieces of code share an address, the addresses that are found are those of the
nodes of all that was ever added, and a block is entered where it was placed last. Addresses are
numbers here, so nothing wraps around, however far the extents reach. -/
theorem insertAll_resolves (insertions : List Insertion)
    (hshared : (insertions.filterMap Insertion.shared?).Pairwise
      fun f g => Disjoint f.extent g.extent)
    (harea : ∀ f ∈ insertions.filterMap Insertion.shared?,
      Disjoint f.extent (Set.Ico blockAreaBase (insertAll insertions).cache.nextBase)) :
    ((insertAll insertions).placed.Pairwise fun x y => Disjoint x.2.extent y.2.extent) ∧
    (∀ address f index, (insertAll insertions).cache.lookup address = some (f, index) ↔
      (∃ x ∈ (insertAll insertions).placed, x.2 = f) ∧ address = f.addressOf index ∧
        index < max f.nodes.size 1) ∧
    ∀ tag, (insertAll insertions).cache.entry? tag =
      ((insertAll insertions).newest? tag).map (·.base) := by
  have hs := sound_insertAll hshared harea
  refine ⟨hs.apart, fun address f index => ?_, hs.entries⟩
  rw [← hs.held f]
  refine lookup_eq_some_iff hs.falling fun f hf g hg => ?_
  obtain ⟨x, hx, rfl⟩ := (hs.held f).1 hf
  obtain ⟨y, hy, rfl⟩ := (hs.held g).1 hg
  exact hs.eq_or_disjoint hx hy

end Filled

end CodeCache

namespace Sample

open CodeCache (Filled Insertion)

/-- The first block is translated twice, with shared code and another block in between. -/
def insertions (nodes : List Node) : List Insertion :=
  [.block 1 [.app (.nop 1)], .shared ⟨0x7fff00000000, #[.app (.nop 0)]⟩, .block 2 nodes,
    .block 1 []]

theorem insertAll_insertions (nodes : List Node) :
    (Filled.insertAll (insertions nodes)).cache.nextBase =
      blockAreaBase + 2 * blockSpan + CodeCache.room nodes ∧
    (Filled.insertAll (insertions nodes)).placed =
      [(some 1, ⟨blockAreaBase, #[.app (.nop 1)]⟩), (none, ⟨0x7fff00000000, #[.app (.nop 0)]⟩),
        (some 2, ⟨blockAreaBase + blockSpan, nodes.toArray⟩),
        (some 1, ⟨blockAreaBase + blockSpan + CodeCache.room nodes, #[]⟩)] := by
  have hone : CodeCache.room [.app (.nop 1)] = blockSpan := by decide
  have hnone : CodeCache.room [] = blockSpan := by decide
  have hnext (c : CodeCache) (f : Fragment) :
      (((c.insertBlock 1 [.app (.nop 1)]).2.insertShared f).insertBlock 2 nodes).2.nextBase =
        c.nextBase + blockSpan + CodeCache.room nodes := by
    rw [CodeCache.nextBase_insertBlock, CodeCache.nextBase_insertShared,
      CodeCache.nextBase_insertBlock, hone]
  rw [insertions, Filled.insertAll, List.foldl_cons, List.foldl_cons, List.foldl_cons,
    List.foldl_cons, List.foldl_nil, Filled.insert_block, Filled.insert_shared,
    Filled.insert_block, Filled.insert_block]
  dsimp only
  rw [CodeCache.nextBase_insertBlock, hnext, CodeCache.nextBase_insertShared,
    CodeCache.nextBase_insertBlock, hone, hnone]
  refine ⟨?_, rfl⟩
  change blockAreaBase + blockSpan + CodeCache.room nodes + blockSpan = _
  omega

/-- One node more than a span has addresses for. -/
def manyNodes : List Node :=
  List.replicate 65537 (.app (.nop 2))

theorem length_manyNodes : manyNodes.length = 65537 :=
  List.length_replicate

theorem room_manyNodes : CodeCache.room manyNodes = 2 * blockSpan := by
  rw [CodeCache.room_eq, length_manyNodes]
  decide

/-- The first translation of the first block can be resumed, although its second one is what is
entered; the second block is found up to its last node. -/
theorem resolves_insertions :
    (Filled.insertAll (insertions manyNodes)).cache.lookup blockAreaBase =
      some (⟨blockAreaBase, #[.app (.nop 1)]⟩, 0) ∧
    (Filled.insertAll (insertions manyNodes)).cache.entry? 1 =
      some (blockAreaBase + 3 * blockSpan) ∧
    (Filled.insertAll (insertions manyNodes)).cache.lookup
        (blockAreaBase + blockSpan + 65536 * nodeStride) =
      some (⟨blockAreaBase + blockSpan, manyNodes.toArray⟩, 65536) := by
  obtain ⟨hnext, hplaced⟩ := insertAll_insertions manyNodes
  rw [room_manyNodes] at hnext hplaced
  obtain ⟨-, hlookup, hentry⟩ := Filled.insertAll_resolves (insertions manyNodes)
    (List.pairwise_singleton _ _) fun f hf => by
      rw [hnext, List.mem_singleton.1 hf]
      exact Set.Ico_disjoint_Ico.2 (by decide)
  refine ⟨(hlookup _ _ _).2 ⟨?_, rfl, by decide⟩, ?_, (hlookup _ _ _).2 ⟨?_, rfl, ?_⟩⟩
  · simp [hplaced]
  · rw [hentry, Filled.newest?, hplaced]
    rfl
  · simp [hplaced]
  · rw [List.size_toArray, length_manyNodes]
    decide

end Sample

end AccessTrace
