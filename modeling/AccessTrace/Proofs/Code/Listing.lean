import AccessTrace.Code.Listing

/-!
# Listings

A listing issues every handle once. Before anything is inserted, the instructions of a block stand
under handles that count up from zero, and nothing else is in its listing. `Listing.At` fixes a
place in a listing: some nodes, then entries that are not touched yet, whose first is the anchor.
Inserting before the anchor adds to the nodes in front of the place and leaves the rest alone.
-/

namespace AccessTrace

namespace Listing

/-- Every entry has a handle of its own, and none of them is issued again. -/
structure Issued (l : Listing) : Prop where
  distinct : l.entries.Pairwise fun s t => s.1 ≠ t.1
  fresh : ∀ t ∈ l.entries, t.1.number < l.nextHandle

/-- Instructions under consecutive handles. -/
def numbered : (handle : Nat) → List Instruction → List (Handle × Node)
  | _, [] => []
  | handle, i :: rest => (⟨handle⟩, .app i) :: numbered (handle + 1) rest

section Numbered

variable {is : List Instruction} {handle : Nat}

theorem foldl_append_app (is : List Instruction) (l : Listing) :
    is.foldl (fun l i => (l.append (.app i)).2) l =
      ⟨l.entries ++ numbered l.nextHandle is, l.nextHandle + is.length, l.nextLabel⟩ := by
  induction is generalizing l with
  | nil => simp [numbered]
  | cons i is ih =>
    rw [List.foldl_cons, ih]
    simp only [append, numbered, List.append_assoc, List.singleton_append, List.length_cons,
      Nat.add_assoc, Nat.add_comm 1]

theorem ofInstructions_eq (is : List Instruction) :
    ofInstructions is = ⟨numbered 0 is, is.length, 0⟩ := by
  rw [ofInstructions, foldl_append_app, empty, List.nil_append, Nat.zero_add]

theorem mem_numbered {t : Handle × Node} (ht : t ∈ numbered handle is) :
    handle ≤ t.1.number ∧ t.1.number < handle + is.length ∧ t.2.isApp = true := by
  induction is generalizing handle with
  | nil => contradiction
  | cons i is ih =>
    rw [List.length_cons]
    rcases List.mem_cons.1 ht with rfl | ht
    · exact ⟨Nat.le_refl _, by simp only; omega, rfl⟩
    · obtain ⟨hlow, hhigh, happ⟩ := ih ht
      exact ⟨by omega, by omega, happ⟩

theorem pairwise_numbered (handle : Nat) (is : List Instruction) :
    (numbered handle is).Pairwise fun s t => s.1 ≠ t.1 := by
  induction is generalizing handle with
  | nil => exact List.Pairwise.nil
  | cons i is ih =>
    refine List.pairwise_cons.2 ⟨fun t ht heq => ?_, ih (handle + 1)⟩
    have hlow := (mem_numbered ht).1
    rw [← heq] at hlow
    exact absurd hlow (Nat.not_succ_le_self handle)

theorem issued_ofInstructions (is : List Instruction) : (ofInstructions is).Issued := by
  rw [ofInstructions_eq]
  refine ⟨pairwise_numbered 0 is, fun t ht => ?_⟩
  have hhigh := (mem_numbered ht).2.1
  rwa [Nat.zero_add] at hhigh

theorem appHandles_ofInstructions (is : List Instruction) :
    (ofInstructions is).appHandles = (numbered 0 is).map (·.1) := by
  rw [ofInstructions_eq, appHandles, List.filter_eq_self.2 fun t ht => (mem_numbered ht).2.2]

theorem fst_numbered (handle : Nat) (is : List Instruction) :
    (numbered handle is).map (·.1) = (List.range' handle is.length).map Handle.mk := by
  induction is generalizing handle with
  | nil => rfl
  | cons i is ih =>
    rw [numbered, List.map_cons, ih, List.length_cons, List.range'_succ, List.map_cons]

theorem snd_numbered (handle : Nat) (is : List Instruction) :
    (numbered handle is).map (·.2) = is.map .app := by
  induction is generalizing handle with
  | nil => rfl
  | cons i is ih => rw [numbered, List.map_cons, ih, List.map_cons]

theorem nodes_ofInstructions (is : List Instruction) :
    (ofInstructions is).nodes = is.map .app := by
  rw [ofInstructions_eq, nodes, snd_numbered]

/-- There is one handle for each instruction. -/
theorem appHandles_eq_range (is : List Instruction) :
    (ofInstructions is).appHandles = (List.range is.length).map Handle.mk := by
  rw [appHandles_ofInstructions, fst_numbered, List.range_eq_range']

end Numbered

/-! ## Places -/

/-- The nodes in front of a place, the entries after it, and the next label. -/
structure At (l : Listing) (before : List Node) (rest : List (Handle × Node)) (label : Nat) :
    Prop where
  issued : l.Issued
  split : ∃ done, l.entries = done ++ rest ∧ done.map (·.2) = before
  label : l.nextLabel = label

variable {l : Listing} {before : List Node} {rest : List (Handle × Node)} {anchor : Handle}
  {node : Node} {label : Nat}

theorem insertIdx_length_append {α : Type} (xs ys : List α) (a : α) :
    (xs ++ ys).insertIdx xs.length a = xs ++ a :: ys := by
  induction xs with
  | nil => rfl
  | cons x xs ih => rw [List.cons_append, List.length_cons, List.insertIdx_succ_cons, ih,
      List.cons_append]

/-- One more entry somewhere, under the next handle. -/
theorem Issued.insert (h : l.Issued) {done : List (Handle × Node)}
    (hentries : l.entries = done ++ rest) (node : Node) (label : Nat) :
    (⟨done ++ (⟨l.nextHandle⟩, node) :: rest, l.nextHandle + 1, label⟩ : Listing).Issued := by
  have hperm : (done ++ (⟨l.nextHandle⟩, node) :: rest).Perm
      ((⟨l.nextHandle⟩, node) :: l.entries) := hentries ▸ List.perm_middle
  constructor
  · refine (hperm.pairwise_iff fun hne => hne.symm).2 (List.pairwise_cons.2 ⟨?_, h.distinct⟩)
    intro t ht heq
    have hlt := h.fresh t ht
    rw [← heq] at hlt
    exact absurd hlt (Nat.lt_irrefl _)
  · intro t ht
    rcases List.mem_cons.1 (hperm.mem_iff.1 ht) with rfl | ht
    · exact Nat.lt_succ_self _
    · exact Nat.lt_succ_of_lt (h.fresh t ht)

/-- The listings that can be built step by step. -/
inductive Built : Listing → Prop where
  | empty : Built .empty
  | append {l : Listing} (h : Built l) (node : Node) : Built (l.append node).2
  | insertBefore {l l' : Listing} {anchor handle : Handle} {i : Injected} (h : Built l)
    (hinsert : l.insertBefore anchor i = .ok (handle, l')) : Built l'
  | newLabel {l : Listing} (h : Built l) : Built l.newLabel.2

/-- An insertion that succeeds adds one entry, right before that of the anchor. -/
theorem insertBefore_ok {l' : Listing} {handle : Handle} {i : Injected}
    (h : l.insertBefore anchor i = .ok (handle, l')) :
    handle = ⟨l.nextHandle⟩ ∧ ∃ front node back, l.entries = front ++ (anchor, node) :: back ∧
      l' = ⟨front ++ (⟨l.nextHandle⟩, .injected i) :: (anchor, node) :: back, l.nextHandle + 1,
        l.nextLabel⟩ := by
  unfold Listing.insertBefore at h
  cases hposition : l.position? anchor with
  | none =>
    rw [hposition] at h
    contradiction
  | some position =>
    rw [hposition] at h
    obtain ⟨rfl, rfl⟩ := Prod.mk.inj (Except.ok.inj h)
    obtain ⟨hlt, hfound, _⟩ := List.findIdx?_eq_some_iff_getElem.1 hposition
    have hsplit : l.entries =
        l.entries.take position ++ l.entries[position] :: l.entries.drop (position + 1) := by
      rw [← List.drop_eq_getElem_cons hlt, List.take_append_drop]
    have hlength : (l.entries.take position).length = position :=
      List.length_take_of_le (Nat.le_of_lt hlt)
    have hinserted := insertIdx_length_append (l.entries.take position)
      (l.entries[position] :: l.entries.drop (position + 1)) (⟨l.nextHandle⟩, .injected i)
    rw [hlength, ← hsplit] at hinserted
    have hanchor : l.entries[position] = (anchor, l.entries[position].2) :=
      Prod.ext (by simpa using hfound) rfl
    rw [hanchor] at hsplit hinserted
    exact ⟨rfl, _, _, _, hsplit, by rw [hinserted]⟩

theorem insertBefore_cases (l : Listing) (anchor : Handle) (i : Injected) :
    (l.position? anchor = none ∧ l.insertBefore anchor i = .error (.unknownHandle anchor)) ∨
      ∃ handle l', l.insertBefore anchor i = .ok (handle, l') := by
  unfold insertBefore
  cases l.position? anchor with
  | none => exact Or.inl ⟨rfl, rfl⟩
  | some position => exact Or.inr ⟨_, _, rfl⟩

theorem Built.issued (h : l.Built) : l.Issued := by
  induction h with
  | empty => exact ⟨List.Pairwise.nil, fun t ht => absurd ht List.not_mem_nil⟩
  | append _ node ih => exact ih.insert (List.append_nil _).symm node _
  | insertBefore _ hinsert ih =>
    obtain ⟨_, _, _, _, hsplit, rfl⟩ := insertBefore_ok hinsert
    exact ih.insert hsplit _ _
  | newLabel _ ih => exact ⟨ih.distinct, ih.fresh⟩

/-- The entry of the anchor is the first of its handle. -/
theorem Issued.front (h : l.Issued) {done : List (Handle × Node)}
    (hentries : l.entries = done ++ (anchor, node) :: rest) : ∀ e ∈ done, e.1 ≠ anchor := by
  have hdistinct := h.distinct
  rw [hentries, List.pairwise_append] at hdistinct
  exact fun e he => hdistinct.2.2 e he _ List.mem_cons_self

/-- The anchor stands at the place. -/
theorem At.position? (h : l.At before ((anchor, node) :: rest) label) :
    l.position? anchor = some before.length := by
  obtain ⟨done, hentries, rfl⟩ := h.split
  have hfront := h.issued.front hentries
  rw [Listing.position?, hentries, List.findIdx?_eq_some_iff_getElem]
  refine ⟨by simp, by simp, fun j hj => ?_⟩
  rw [List.length_map] at hj
  rw [List.getElem_append_left hj]
  simpa using hfront _ (List.getElem_mem hj)

theorem At.insertBefore (h : l.At before ((anchor, node) :: rest) label) (i : Injected) :
    ∃ l', l.insertBefore anchor i = .ok (⟨l.nextHandle⟩, l') ∧
      l'.At (before ++ [.injected i]) ((anchor, node) :: rest) label := by
  obtain ⟨done, hentries, hbefore⟩ := h.split
  have hinsert : l.insertBefore anchor i = .ok (⟨l.nextHandle⟩,
      ⟨done ++ (⟨l.nextHandle⟩, .injected i) :: (anchor, node) :: rest, l.nextHandle + 1,
        l.nextLabel⟩) := by
    rw [Listing.insertBefore, h.position?, hentries, ← hbefore, List.length_map]
    dsimp only
    rw [insertIdx_length_append]
  refine ⟨_, hinsert, h.issued.insert hentries _ _,
    ⟨done ++ [(⟨l.nextHandle⟩, .injected i)], ?_, ?_⟩, h.label⟩
  · rw [List.append_assoc, List.singleton_append]
  · rw [List.map_append, hbefore, List.map_singleton]

theorem At.newLabel (h : l.At before rest label) :
    l.newLabel.1 = ⟨label⟩ ∧ l.newLabel.2.At before rest (label + 1) :=
  ⟨congrArg Label.mk h.label, ⟨h.issued.distinct, h.issued.fresh⟩, h.split,
    congrArg (· + 1) h.label⟩

/-- The node of the anchor can be found. -/
theorem At.node? (h : l.At before ((anchor, node) :: rest) label) :
    l.node? anchor = some node := by
  obtain ⟨done, hentries, _⟩ := h.split
  have hnone : done.find? (fun e => e.1 == anchor) = none := by
    rw [List.find?_eq_none]
    intro e he
    simpa using h.issued.front hentries e he
  rw [Listing.node?, hentries, List.find?_append, hnone]
  simp

/-- Where a node that can be found stands. -/
theorem Issued.at_node? (h : l.Issued) (hnode : l.node? anchor = some node) :
    ∃ before rest, l.At before ((anchor, node) :: rest) l.nextLabel := by
  rw [Listing.node?, Option.map_eq_some_iff] at hnode
  obtain ⟨e, he, rfl⟩ := hnode
  obtain ⟨heq, done, rest, hentries, _⟩ := List.find?_eq_some_iff_append.1 he
  obtain rfl : e.1 = anchor := by simpa using heq
  exact ⟨done.map (·.2), rest, h, ⟨done, hentries, rfl⟩, rfl⟩

/-- The place behind the anchor. -/
theorem At.next (h : l.At before ((anchor, node) :: rest) label) :
    l.At (before ++ [node]) rest label := by
  obtain ⟨done, hentries, hbefore⟩ := h.split
  exact ⟨h.issued, ⟨done ++ [(anchor, node)], by simp [hentries], by simp [hbefore]⟩, h.label⟩

theorem At.nodes (h : l.At before rest label) : l.nodes = before ++ rest.map (·.2) := by
  obtain ⟨done, hentries, hbefore⟩ := h.split
  rw [Listing.nodes, hentries, List.map_append, hbefore]

/-! ## Handles -/

/-- The handles of all entries, from first to last. -/
def handles (l : Listing) : List Handle :=
  l.entries.map (·.1)

variable {handle : Handle} {p : Nat}

theorem Issued.nodup (h : l.Issued) : l.handles.Nodup :=
  List.pairwise_map.2 h.distinct

theorem Issued.fresh_notMem (h : l.Issued) : (⟨l.nextHandle⟩ : Handle) ∉ l.handles := by
  intro hmem
  obtain ⟨e, he, heq⟩ := List.mem_map.1 hmem
  have hlt := h.fresh e he
  rw [heq] at hlt
  exact absurd hlt (Nat.lt_irrefl _)

/-- A position is a place in the order of the handles. -/
theorem Issued.position?_eq_some_iff (h : l.Issued) :
    l.position? handle = some p ↔ l.handles[p]? = some handle := by
  have hget (p : Nat) (hp : p < l.entries.length) : l.handles[p]? = some l.entries[p].1 := by
    rw [handles, List.getElem?_map, List.getElem?_eq_getElem hp, Option.map_some]
  rw [Listing.position?, List.findIdx?_eq_some_iff_getElem]
  constructor
  · rintro ⟨hp, hfound, _⟩
    rw [hget p hp]
    exact congrArg some (by simpa using hfound)
  · intro hfound
    have hlt : p < l.entries.length := by
      obtain ⟨hlt, _⟩ := List.getElem?_eq_some_iff.1 hfound
      rwa [handles, List.length_map] at hlt
    rw [hget p hlt, Option.some_inj] at hfound
    refine ⟨hlt, by simpa using hfound, fun q hq => ?_⟩
    have hne := List.pairwise_iff_getElem.1 h.distinct q p (Nat.lt_trans hq hlt) hlt hq
    rw [hfound] at hne
    simpa using hne

theorem Issued.node?_eq_some_iff (h : l.Issued) :
    l.node? handle = some node ↔ (handle, node) ∈ l.entries := by
  constructor
  · intro hnode
    obtain ⟨_, _, hat⟩ := h.at_node? hnode
    obtain ⟨done, hentries, _⟩ := hat.split
    rw [hentries]
    exact List.mem_append_right _ List.mem_cons_self
  · intro hmem
    obtain ⟨done, rest, hentries⟩ := List.append_of_mem hmem
    have hat : l.At (done.map (·.2)) ((handle, node) :: rest) l.nextLabel :=
      ⟨h, ⟨done, hentries, rfl⟩, rfl⟩
    exact hat.node?

theorem mem_handles_iff : handle ∈ l.handles ↔ ∃ node, (handle, node) ∈ l.entries := by
  simp [handles]

/-- A handle that is not there has no position. -/
theorem position?_eq_none_iff : l.position? handle = none ↔ handle ∉ l.handles := by
  rw [position?, List.findIdx?_eq_none_iff, mem_handles_iff]
  simp only [beq_eq_false_iff_ne, ne_eq, Prod.forall, not_exists]
  exact ⟨fun h node hmem => h handle node hmem rfl,
    fun h other node hmem heq => h node (heq ▸ hmem)⟩

/-- The application instructions are found under their handles. -/
theorem Issued.appHandles_eq (h : l.Issued) :
    l.appHandles = l.handles.filter fun handle => (l.node? handle).any Node.isApp := by
  rw [appHandles, handles, List.filter_map]
  congr 1
  refine List.filter_congr fun e he => ?_
  rw [Function.comp_apply, h.node?_eq_some_iff.2 he]
  rfl

/-- What is inserted takes the position of its anchor, which moves up by one. -/
theorem Issued.insertBefore_of_position? (h : l.Issued) (hp : l.position? anchor = some p)
    (i : Injected) :
    ∃ l', l.insertBefore anchor i = .ok (⟨l.nextHandle⟩, l') ∧
      l'.node? ⟨l.nextHandle⟩ = some (.injected i) ∧
      l'.position? ⟨l.nextHandle⟩ = some p ∧ l'.position? anchor = some (p + 1) := by
  obtain ⟨_, l', hinsert⟩ := (l.insertBefore_cases anchor i).resolve_left fun hnone => by
    rw [hp] at hnone
    exact absurd hnone.1 (Option.some_ne_none p)
  obtain ⟨rfl, front, node, back, hentries, rfl⟩ := insertBefore_ok hinsert
  have hold : l.At (front.map (·.2)) ((anchor, node) :: back) l.nextLabel :=
    ⟨h, ⟨front, hentries, rfl⟩, rfl⟩
  obtain rfl : p = (front.map (·.2)).length := Option.some.inj (hp.symm.trans hold.position?)
  have hnew : At ⟨front ++ (⟨l.nextHandle⟩, .injected i) :: (anchor, node) :: back,
      l.nextHandle + 1, l.nextLabel⟩ (front.map (·.2))
      ((⟨l.nextHandle⟩, .injected i) :: (anchor, node) :: back) l.nextLabel :=
    ⟨h.insert hentries _ _, ⟨front, rfl, rfl⟩, rfl⟩
  refine ⟨_, hinsert, hnew.node?, hnew.position?, ?_⟩
  rw [hnew.next.position?, List.length_append, List.length_singleton]

end Listing

end AccessTrace
