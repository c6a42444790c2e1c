import AccessTrace.Proofs.Code.Cache
import AccessTrace.Proofs.Host.Schedule
import AccessTrace.Proofs.Host.SharedCode

/-!
# The cache in the course of a run

After some blocks of a schedule the cache holds the code of the first block of every tag among
them, each in a place of its own below the shared code, which is there from the start. The next
block is found if its tag has occurred, and placed behind the others if it has not.
-/

namespace AccessTrace

namespace CodeCache

/-- How many addresses the code of some blocks takes. -/
def rooms (code : Block → List Node) (blocks : List Block) : Nat :=
  (blocks.map fun b => room (code b)).sum

/-- The fragment of a block that is placed at `base`. -/
def blockFragment (code : Block → List Node) (base : Nat) (b : Block) : Fragment :=
  ⟨base, (code b).toArray⟩

/-- The blocks `done` of the schedule `all` have been executed. -/
structure Serves (shared : List SharedCode) (code : Block → List Node) (all done : List Block)
    (c : CodeCache) : Prop where
  falling : Falling c.fragments
  nextBase : c.nextBase = blockAreaBase + rooms code (Block.firsts done)
  placed : ∀ f ∈ c.fragments, (∃ s ∈ shared, f = s.fragment) ∨ f.base + f.span ≤ c.nextBase
  shared : ∀ s ∈ shared, s.fragment ∈ c.fragments
  clear : ∀ f ∈ c.fragments, f.base + f.span ≤ c.nextBase → c.Clear f
  entries : ∀ b ∈ done, ∃ base, c.entry? b.tag = some base ∧
    blockFragment code base (b.resolvedIn all) ∈ c.fragments ∧
    base + (blockFragment code base (b.resolvedIn all)).span ≤ c.nextBase
  missing : ∀ tag, (∀ b ∈ done, b.tag ≠ tag) → c.entry? tag = none

variable {δ ω : Type} {h : Host δ ω} {code : Block → List Node} {all done rest : List Block}
  {b : Block} {c : CodeCache}

theorem rooms_append (xs ys : List Block) :
    rooms code (xs ++ ys) = rooms code xs + rooms code ys := by
  rw [rooms, List.map_append, List.sum_append]
  rfl

theorem rooms_firsts_le (code : Block → List Node) (done rest : List Block) :
    rooms code (Block.firsts done) ≤ rooms code (Block.firsts (done ++ rest)) := by
  obtain ⟨others, hothers⟩ := Block.firsts_prefix done rest
  rw [← hothers, rooms_append]
  exact Nat.le_add_right _ _

/-! ## Shared code -/

theorem foldl_insertShared_falling (shared : List SharedCode) (c : CodeCache)
    (hc : Falling c.fragments) :
    Falling (shared.foldl (fun c s => c.insertShared s.fragment) c).fragments := by
  induction shared generalizing c with
  | nil => exact hc
  | cons s shared ih => exact ih _ (falling_insertSorted hc)

/-- Shared code that is apart does not displace each other. -/
theorem mem_foldl_insertShared (shared : List SharedCode) (c : CodeCache)
    (hc : Falling c.fragments)
    (hapart : shared.Pairwise fun x y => x.fragment.base ≠ y.fragment.base)
    (hnew : ∀ s ∈ shared, ∀ f ∈ c.fragments, f.base ≠ s.fragment.base) (f : Fragment) :
    f ∈ (shared.foldl (fun c s => c.insertShared s.fragment) c).fragments ↔
      (∃ s ∈ shared, f = s.fragment) ∨ f ∈ c.fragments := by
  induction shared generalizing c with
  | nil => simp
  | cons s shared ih =>
    obtain ⟨hs, hshared⟩ := List.pairwise_cons.1 hapart
    have hmem (g : Fragment) : g ∈ (c.insertShared s.fragment).fragments ↔
        g = s.fragment ∨ g ∈ c.fragments := by
      rw [insertShared, mem_insertSorted hc]
      constructor
      · rintro (rfl | ⟨hg, _⟩)
        · exact Or.inl rfl
        · exact Or.inr hg
      · rintro (rfl | hg)
        · exact Or.inl rfl
        · exact Or.inr ⟨hg, hnew s (by simp) g hg⟩
    rw [List.foldl_cons, ih (c.insertShared s.fragment) (falling_insertSorted hc) hshared ?_, hmem]
    · simp only [List.mem_cons, exists_eq_or_imp]
      exact or_left_comm.trans or_assoc.symm
    · intro t ht g hg
      rcases (hmem g).1 hg with rfl | hg
      · exact hs t ht
      · exact hnew t (List.mem_cons_of_mem _ ht) g hg

theorem foldl_insertShared_rest (shared : List SharedCode) (c : CodeCache) :
    (shared.foldl (fun c s => c.insertShared s.fragment) c).entries = c.entries ∧
      (shared.foldl (fun c s => c.insertShared s.fragment) c).nextBase = c.nextBase := by
  induction shared generalizing c with
  | nil => exact ⟨rfl, rfl⟩
  | cons s shared ih => exact ih (c.insertShared s.fragment)

theorem pairwise_base_ne (hh : h.Spaced) :
    h.shared.Pairwise fun x y => x.fragment.base ≠ y.fragment.base := by
  refine hh.spaced.imp_of_mem fun {x y} hx hy hxy => ?_
  rw [(hh.above x hx).2, (hh.above y hy).2]
  have hspan : 0 < sharedCodeSpan := by decide
  omega

theorem falling_sharedCache (h : Host δ ω) : Falling h.sharedCache.fragments :=
  foldl_insertShared_falling _ _ List.Pairwise.nil

theorem mem_sharedCache (hh : h.Spaced) (f : Fragment) :
    f ∈ h.sharedCache.fragments ↔ ∃ s ∈ h.shared, f = s.fragment := by
  refine (mem_foldl_insertShared h.shared .empty List.Pairwise.nil (pairwise_base_ne hh) nofun
    f).trans (or_iff_left ?_)
  exact List.not_mem_nil

/-- At the start there is nothing but shared code. -/
theorem serves_sharedCache (hh : h.Spaced) (code : Block → List Node) (all : List Block) :
    h.sharedCache.Serves h.shared code all [] := by
  obtain ⟨hentries, hnext⟩ := foldl_insertShared_rest h.shared .empty
  have harea : blockAreaBase ≤ sharedCodeBase := by decide
  refine ⟨falling_sharedCache h, hnext, fun f hf => Or.inl ((mem_sharedCache hh f).1 hf),
    fun s hs => (mem_sharedCache hh _).2 ⟨s, hs, rfl⟩, fun f hf hbelow => ?_, nofun,
    fun tag _ => ?_⟩
  · -- Shared code stands above the area of the blocks.
    obtain ⟨s, hs, rfl⟩ := (mem_sharedCache hh f).1 hf
    have habove := hh.above s hs
    have hspan := s.fragment.span_pos
    have hbase : h.sharedCache.nextBase = blockAreaBase := hnext
    omega
  · change List.lookup tag h.sharedCache.entries = none
    unfold Host.sharedCache
    rw [hentries]
    rfl

/-! ## Blocks -/

/-- A block whose tag has occurred is there. -/
theorem Serves.known (hc : c.Serves h.shared code (done ++ b :: rest) done)
    (hold : ∃ d ∈ done, d.tag = b.tag) :
    ∃ base, c.entry? b.tag = some base ∧
      c.Serves h.shared code (done ++ b :: rest) (done ++ [b]) := by
  obtain ⟨d, hd, htag⟩ := hold
  obtain ⟨base, hentry, hfragment, hbelow⟩ := hc.entries d hd
  have hresolved := Block.resolvedIn_congr (done ++ b :: rest)
    (List.mem_append_left _ hd) htag
  rw [htag] at hentry
  rw [hresolved] at hfragment hbelow
  refine ⟨base, hentry, hc.falling, ?_, hc.placed, hc.shared, hc.clear, fun x hx => ?_,
    fun tag htag => hc.missing tag fun x hx => htag x (List.mem_append_left _ hx)⟩
  · rw [Block.firsts_concat_known ⟨d, hd, htag⟩]
    exact hc.nextBase
  · rcases List.mem_append.1 hx with hx | hx
    · exact hc.entries x hx
    · rw [List.mem_singleton.1 hx]
      exact ⟨base, hentry, hfragment, hbelow⟩

/-- A block with a new tag gets a place of its own, if there is room below the shared code. -/
theorem Serves.insert (hh : h.Spaced) (hc : c.Serves h.shared code (done ++ b :: rest) done)
    (hnew : ∀ d ∈ done, d.tag ≠ b.tag)
    (hfits : blockAreaBase + rooms code (Block.firsts (done ++ [b])) ≤ sharedCodeBase) :
    (c.insertBlock b.tag (code b)).2.Serves h.shared code (done ++ b :: rest) (done ++ [b]) := by
  let new := blockFragment code c.nextBase b
  have hrooms : rooms code (Block.firsts (done ++ [b])) =
      rooms code (Block.firsts done) + room (code b) := by
    have hone : rooms code [b] = room (code b) := List.sum_singleton
    rw [Block.firsts_concat_new hnew, rooms_append, hone]
  have hspan : new.span ≤ room (code b) := span_le_room _ _
  have hnext := hc.nextBase
  have hpos := new.span_pos
  have hnextBase : (c.insertBlock b.tag (code b)).2.nextBase = c.nextBase + room (code b) := rfl
  -- The new fragment starts between the blocks and the shared code.
  have hside : ∀ f ∈ c.fragments, (f.base + f.span ≤ c.nextBase) ∨
      (∃ s ∈ h.shared, f = s.fragment) ∧ c.nextBase + room (code b) ≤ f.base := by
    intro f hf
    rcases hc.placed f hf with ⟨s, hs, rfl⟩ | hbelow
    · refine Or.inr ⟨⟨s, hs, rfl⟩, ?_⟩
      have habove := hh.above s hs
      omega
    · exact Or.inl hbelow
  have hmem : ∀ f, f ∈ (c.insertBlock b.tag (code b)).2.fragments ↔ f = new ∨ f ∈ c.fragments := by
    intro f
    change f ∈ insertSorted new c.fragments ↔ _
    rw [mem_insertSorted hc.falling]
    refine or_congr_right ⟨fun hf => hf.1, fun hf => ⟨hf, fun heq => ?_⟩⟩
    have hspan' := f.span_pos
    have hbase : new.base = c.nextBase := rfl
    rcases hside f hf with hbelow | ⟨_, habove⟩ <;> omega
  have hbase : new.base = c.nextBase := rfl
  refine ⟨falling_insertSorted hc.falling, by rw [hnextBase, hnext, hrooms, Nat.add_assoc],
    fun f hf => ?_, fun s hs => (hmem _).2 (Or.inr (hc.shared s hs)), fun f hf hbelow => ?_,
    fun x hx => ?_, fun tag htag => ?_⟩
  · rcases (hmem f).1 hf with rfl | hf
    · exact Or.inr (by omega)
    · rcases hside f hf with hbelow | ⟨hshared, _⟩
      · exact Or.inr (by omega)
      · exact Or.inl hshared
  · intro g hg
    have hspan' := f.span_pos
    rcases (hmem f).1 hf with rfl | hf
    · rcases (hmem g).1 hg with rfl | hg
      · exact Or.inl (Nat.le_refl _)
      · have hspan'' := g.span_pos
        rcases hside g hg with hbelow' | ⟨_, habove⟩ <;> omega
    · rcases hside f hf with hbelow' | ⟨_, habove⟩
      · rcases (hmem g).1 hg with rfl | hg
        · exact Or.inr hbelow'
        · exact hc.clear f hf hbelow' g hg
      · omega
  · rw [entry?_insertBlock]
    rcases List.mem_append.1 hx with hx | hx
    · obtain ⟨base, hentry, hfragment, hbelow⟩ := hc.entries x hx
      rw [if_neg (hnew x hx)]
      exact ⟨base, hentry, (hmem _).2 (Or.inr hfragment), by omega⟩
    · rw [List.mem_singleton.1 hx, if_pos rfl, Block.resolvedIn_new hnew]
      exact ⟨c.nextBase, rfl, (hmem _).2 (Or.inl rfl), by
        change new.base + new.span ≤ _
        omega⟩
  · rw [entry?_insertBlock, if_neg (htag b (by simp)).symm]
    exact hc.missing tag fun x hx => htag x (List.mem_append_left _ hx)

/-! ## What can be found -/

/-- The node of a block at every address of its fragment. -/
theorem Serves.lookup_block (hc : c.Serves h.shared code all done) {base : Nat}
    (hfragment : blockFragment code base b ∈ c.fragments)
    (hbelow : base + (blockFragment code base b).span ≤ c.nextBase) (index : Nat)
    (hindex : index < max (blockFragment code base b).nodes.size 1) :
    c.lookup ((blockFragment code base b).addressOf index) =
      some (blockFragment code base b, index) :=
  lookup_addressOf hc.falling hfragment (hc.clear _ hfragment hbelow) hindex

/-- The start of a piece of shared code that is not longer than the distance to the next. -/
theorem Serves.lookup_shared (hh : h.Spaced) (hc : c.Serves h.shared code all done)
    (hfits : c.nextBase ≤ sharedCodeBase) {s : SharedCode} (hs : s ∈ h.shared)
    (hspan : s.fragment.span ≤ sharedCodeSpan) :
    c.lookup s.address = some (s.fragment, 0) := by
  have habove := hh.above s hs
  have hclear : c.Clear s.fragment := by
    intro g hg
    have hspan' := g.span_pos
    rcases hc.placed g hg with ⟨t, ht, rfl⟩ | hbelow
    · have habove' := hh.above t ht
      rcases hh.apart hs ht with rfl | hapart | hapart <;> omega
    · omega
  have hfirst : s.fragment.addressOf 0 = s.address := by
    rw [Fragment.addressOf, Nat.zero_mul, Nat.add_zero, habove.2]
  rw [← hfirst]
  exact lookup_addressOf hc.falling (hc.shared s hs) hclear (by omega)

end CodeCache

namespace Host

open CodeCache (blockFragment rooms)

variable {δ ω : Type} {h : Host δ ω} {client : Client δ ω} {code : Block → List Node}
  {keeps : ω → ω → Prop} {all done rest : List Block} {b : Block} {c : CodeCache}

/-- The client turns every block into its code, and does to the world what `keeps` allows. -/
structure Translates (client : Client δ ω) (code : Block → List Node) (keeps : ω → ω → Prop) :
    Prop where
  ok : ∀ b world, ∃ world', translate client b world = .ok (code b) world' ∧ keeps world world'
  refl : ∀ world, keeps world world

/-- A block whose tag has occurred is entered where it was placed. -/
theorem blockEntry_known (hc : c.Serves h.shared code (done ++ b :: rest) done)
    (hold : ∃ d ∈ done, d.tag = b.tag) (s : Running δ ω) :
    ∃ base, blockEntry client c b s = .ok (base, c) s ∧
      c.Serves h.shared code (done ++ b :: rest) (done ++ [b]) ∧
      blockFragment code base (b.resolvedIn (done ++ b :: rest)) ∈ c.fragments ∧
      base + (blockFragment code base (b.resolvedIn (done ++ b :: rest))).span ≤ c.nextBase := by
  obtain ⟨base, hentry, hc'⟩ := hc.known hold
  obtain ⟨base', hentry', hfragment, hbelow⟩ := hc'.entries b (by simp)
  rw [hentry] at hentry'
  obtain rfl := Option.some.inj hentry'
  refine ⟨base, ?_, hc', hfragment, hbelow⟩
  unfold blockEntry
  simp only [hentry]
  rfl

/-- A block that is not in the cache is translated and placed. -/
theorem blockEntry_insert {nodes : List Node} {s : Running δ ω} {world' : ω}
    (hentry : c.entry? b.tag = none) (htranslate : translate client b s.world = .ok nodes world') :
    blockEntry client c b s = .ok (c.insertBlock b.tag nodes) { s with world := world' } := by
  have hworld : onWorld (translate client b) s = .ok nodes { s with world := world' } := by
    unfold onWorld
    rw [htranslate]
  unfold blockEntry
  simp only [hentry]
  exact Step.bind_of_ok hworld

/-- A block with a new tag is translated and entered behind the others. -/
theorem blockEntry_new (hh : h.Spaced) (hc : c.Serves h.shared code (done ++ b :: rest) done)
    (hnew : ∀ d ∈ done, d.tag ≠ b.tag)
    (hfits : blockAreaBase + rooms code (Block.firsts (done ++ [b])) ≤ sharedCodeBase)
    {s : Running δ ω} {world' : ω} (htranslate : translate client b s.world = .ok (code b) world') :
    let c' := (c.insertBlock b.tag (code b)).2
    blockEntry client c b s = .ok (c.nextBase, c') { s with world := world' } ∧
      c'.Serves h.shared code (done ++ b :: rest) (done ++ [b]) ∧
      blockFragment code c.nextBase (b.resolvedIn (done ++ b :: rest)) ∈ c'.fragments ∧
      c.nextBase + (blockFragment code c.nextBase (b.resolvedIn (done ++ b :: rest))).span ≤
        c'.nextBase := by
  have hc' := hc.insert hh hnew hfits
  obtain ⟨base, hentry, hfragment, hbelow⟩ := hc'.entries b (by simp)
  rw [CodeCache.entry?_insertBlock, if_pos rfl] at hentry
  obtain rfl := Option.some.inj hentry
  exact ⟨blockEntry_insert (hc.missing b.tag hnew) htranslate, hc', hfragment, hbelow⟩

/-- The entry of the next block of a schedule. -/
theorem blockEntry_ok (hh : h.Spaced) (ht : Translates client code keeps)
    (hc : c.Serves h.shared code (done ++ b :: rest) done)
    (hfits : blockAreaBase + rooms code (Block.firsts (done ++ b :: rest)) ≤ sharedCodeBase)
    (s : Running δ ω) :
    ∃ base c' world', blockEntry client c b s = .ok (base, c') { s with world := world' } ∧
      keeps s.world world' ∧ c'.Serves h.shared code (done ++ b :: rest) (done ++ [b]) ∧
      c'.nextBase ≤ sharedCodeBase ∧
      blockFragment code base (b.resolvedIn (done ++ b :: rest)) ∈ c'.fragments ∧
      base + (blockFragment code base (b.resolvedIn (done ++ b :: rest))).span ≤ c'.nextBase := by
  have hsplit : done ++ b :: rest = done ++ [b] ++ rest := by simp
  have hle := CodeCache.rooms_firsts_le code (done ++ [b]) rest
  rw [← hsplit] at hle
  have hend {c' : CodeCache} (hc' : c'.Serves h.shared code (done ++ b :: rest) (done ++ [b])) :
      c'.nextBase ≤ sharedCodeBase := by
    rw [hc'.nextBase]
    omega
  by_cases hold : ∃ d ∈ done, d.tag = b.tag
  · obtain ⟨base, hentry, hc', hplace⟩ := blockEntry_known hc hold s
    exact ⟨base, c, s.world, hentry, ht.refl _, hc', hend hc', hplace⟩
  · have hnew : ∀ d ∈ done, d.tag ≠ b.tag := fun d hd heq => hold ⟨d, hd, heq⟩
    obtain ⟨world', htranslate, hkeeps⟩ := ht.ok b s.world
    obtain ⟨hentry, hc', hplace⟩ := blockEntry_new hh hc hnew (by omega) htranslate
    exact ⟨_, _, world', hentry, hkeeps, hc', hend hc', hplace⟩

/-- Running a block that is in the cache, from its first node on. -/
theorem runCode_eq {base : Nat} (hc : c.Serves h.shared code all done)
    (hfragment : blockFragment code base b ∈ c.fragments)
    (hbelow : base + (blockFragment code base b).span ≤ c.nextBase)
    (hend : c.nextBase ≤ sharedCodeBase) (s : Running δ ω) :
    h.runCode c base s =
      match (⟨c, h.routines, h.stepLimit⟩ : Cpu δ ω).resume h.stepLimit
        ⟨blockFragment code base b, 0, .zero, s⟩ with
      | .ok counts s => .ok counts s
      | .error e s => .error (.machine e) s := by
  have harea : sharedCodeBase < addressBound := by decide
  have hlookup := hc.lookup_block hfragment hbelow 0 (by omega)
  have hfirst : (blockFragment code base b).addressOf 0 = base := by
    rw [Fragment.addressOf, Nat.zero_mul, Nat.add_zero]
    rfl
  rw [hfirst] at hlookup
  have haddress : (UInt64.ofNat base).toNat = base :=
    UInt64.toNat_ofNat_of_lt' (show base < addressBound by omega)
  unfold runCode Cpu.run
  simp only [haddress, hlookup]
  rfl

end Host

end AccessTrace
