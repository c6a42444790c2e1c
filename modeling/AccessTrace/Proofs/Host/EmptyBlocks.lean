import AccessTrace.Proofs.Host.Serving

/-!
# Blocks without instructions

Nothing happens in a block without instructions, but the cache gives it a place. As many of them as
there are places below the shared code fill the area of the blocks, and the next one lands on the
first piece of shared code and displaces it: nothing keeps the blocks below the shared code.
-/

namespace AccessTrace

/-! ## Runs and fragments -/

namespace Cpu

variable {δ ω : Type} {routines : Array (Routine δ ω)} {limit : Nat} {c c' : CodeCache}

theorem lookup_congr (h : c.fragments = c'.fragments) (address : Nat) :
    c.lookup address = c'.lookup address := by
  unfold CodeCache.lookup
  rw [h]

theorem executeNode_congr (c c' : CodeCache) (f : Fragment) (node : Node) :
    (⟨c, routines, limit⟩ : Cpu δ ω).executeNode f node =
      (⟨c', routines, limit⟩ : Cpu δ ω).executeNode f node := by
  cases node <;> rfl

/-- A run sees nothing of the cache but its fragments. -/
theorem runFrom_congr (h : c.fragments = c'.fragments) (remaining : Nat) (f : Fragment)
    (index : Nat) (counts : Counts) (s : Running δ ω) :
    (⟨c, routines, limit⟩ : Cpu δ ω).runFrom remaining f index counts s =
      (⟨c', routines, limit⟩ : Cpu δ ω).runFrom remaining f index counts s := by
  induction remaining generalizing f index counts s with
  | zero =>
    cases hnode : f.nodes[index]? with
    | none => rw [runFrom_end hnode, runFrom_end hnode]
    | some node => rw [runFrom_limit hnode, runFrom_limit hnode]
  | succ remaining ih =>
    cases hnode : f.nodes[index]? with
    | none => rw [runFrom_end hnode, runFrom_end hnode]
    | some node =>
      rw [runFrom_step hnode, runFrom_step hnode, executeNode_congr c c']
      simp only [ih, lookup_congr h]

end Cpu

namespace Host

variable {δ ω : Type} {h : Host δ ω} {c c' : CodeCache}

theorem runCode_congr (hfragments : c.fragments = c'.fragments) (entry : Nat) :
    h.runCode c entry = h.runCode c' entry := by
  have hrun (s : Running δ ω) : (⟨c, h.routines, h.stepLimit⟩ : Cpu δ ω).run (.ofNat entry) s =
      (⟨c', h.routines, h.stepLimit⟩ : Cpu δ ω).run (.ofNat entry) s := by
    unfold Cpu.run
    simp only [Cpu.lookup_congr hfragments]
    cases c'.lookup (UInt64.ofNat entry).toNat with
    | none => rfl
    | some place => exact Cpu.runFrom_congr hfragments _ _ _ _ s
  funext s
  unfold runCode
  simp only [hrun]

end Host

/-! ## The area of the blocks -/

theorem Block.tag_ne_of_nodup {done rest : List Block} {b : Block}
    (h : ((done ++ b :: rest).map (·.tag)).Nodup) : ∀ d ∈ done, d.tag ≠ b.tag := by
  rw [List.map_append, List.nodup_append] at h
  intro d hd
  exact h.2.2 d.tag (List.mem_map_of_mem hd) b.tag (by simp)

namespace CodeCache

/-- The place of a block behind `n` others without instructions. -/
def place (n : Nat) : Nat :=
  blockAreaBase + n * blockSpan

/-- How many blocks without instructions there is room for below the shared code. -/
def areaCapacity : Nat :=
  (sharedCodeBase - blockAreaBase) / blockSpan

theorem place_areaCapacity : place areaCapacity = sharedCodeBase := by
  decide

/-- The fragments of `n` blocks without instructions, by falling base. -/
def emptyFragments : (n : Nat) → List Fragment
  | 0 => []
  | n + 1 => ⟨place n, #[]⟩ :: emptyFragments n

theorem place_succ (n : Nat) : place (n + 1) = place n + blockSpan := by
  rw [place, Nat.succ_mul, ← Nat.add_assoc]
  rfl

theorem place_lt {n k : Nat} (h : n < k) : place n < place k := by
  have hspan : 0 < blockSpan := by decide
  exact Nat.add_lt_add_left (Nat.mul_lt_mul_of_pos_right h hspan) _

theorem base_of_mem_emptyFragments {n : Nat} {f : Fragment} (hf : f ∈ emptyFragments n) :
    f.base < place n := by
  induction n with
  | zero => contradiction
  | succ n ih =>
    rcases List.mem_cons.1 hf with rfl | hf
    · exact place_lt (Nat.lt_succ_self n)
    · exact (ih hf).trans (place_lt (Nat.lt_succ_self n))

variable {f g : Fragment} {above below : List Fragment}

/-- A fragment goes between those above it and those below it. -/
theorem insertSorted_between (habove : ∀ g ∈ above, f.base < g.base)
    (hbelow : ∀ g ∈ below, g.base < f.base) :
    insertSorted f (above ++ below) = above ++ f :: below := by
  induction above with
  | nil =>
    cases below with
    | nil => rfl
    | cons g below =>
      have hg := hbelow g List.mem_cons_self
      rw [List.nil_append, insertSorted, if_neg (by omega), if_neg (by omega), List.nil_append]
  | cons g above ih =>
    rw [List.cons_append, insertSorted, if_pos (habove g List.mem_cons_self),
      ih fun g hg => habove g (List.mem_cons_of_mem _ hg), List.cons_append]

/-- A fragment displaces one that starts where it does. -/
theorem insertSorted_of_base_eq (h : f.base = g.base) :
    insertSorted f (g :: below) = f :: below := by
  rw [insertSorted, if_neg (by omega), if_pos h]

theorem lookup_base {c : CodeCache} (hc : c.fragments = above ++ f :: below)
    (habove : ∀ g ∈ above, f.base < g.base) : c.lookup f.base = some (f, 0) := by
  have hfind : c.fragments.find? (·.base ≤ f.base) = some f := by
    rw [hc, List.find?_eq_some_iff_append]
    refine ⟨by simp, above, below, rfl, fun g hg => ?_⟩
    simpa using habove g hg
  unfold lookup
  rw [hfind]
  simp [f.span_pos]

/-- The blocks `done`, none of which has instructions, are in the cache below the fragments
`above`. -/
structure Hollow (above : List Fragment) (done : List Block) (c : CodeCache) : Prop where
  fragments : c.fragments = above ++ emptyFragments done.length
  nextBase : c.nextBase = place done.length
  missing : ∀ tag, (∀ b ∈ done, b.tag ≠ tag) → c.entry? tag = none

end CodeCache

/-- A block without instructions has nothing to show to a client. -/
theorem Host.translate_empty {δ ω : Type} {client : Client δ ω} {b : Block}
    (hempty : b.instructions = []) (world : ω) : translate client b world = .ok [] world := by
  unfold translate
  rw [hempty]
  rfl

namespace CodeCache.Hollow

open Host (blockEntry blockEntry_insert translate_empty runBlocks_cons)

variable {δ ω : Type} (h : Host δ ω) (client : Client δ ω) {above above' : List Fragment}
  {done : List Block} {b : Block} {c : CodeCache}

theorem enter (hc : Hollow above done c) (hnew : ∀ d ∈ done, d.tag ≠ b.tag)
    (hempty : b.instructions = []) (hbound : place done.length < 2 ^ 64)
    (hplace : insertSorted ⟨place done.length, #[]⟩ c.fragments =
      above' ++ emptyFragments (done.length + 1))
    (habove : ∀ f ∈ above', place done.length < f.base) :
    ∃ c', Hollow above' (done ++ [b]) c' ∧ ∀ rest counts s,
      h.runBlocks client (b :: rest) ⟨c, counts⟩ s = h.runBlocks client rest ⟨c', counts⟩ s := by
  let c' := (c.insertBlock b.tag []).2
  have hfragments : c'.fragments = above' ++ emptyFragments (done.length + 1) := by
    rw [← hplace, ← hc.nextBase]
    rfl
  refine ⟨c', ⟨?_, ?_, fun tag htag => ?_⟩, fun rest counts s => ?_⟩
  · rw [List.length_append]
    exact hfragments
  · have hnext : c'.nextBase = c.nextBase + room [] := rfl
    have hroom : room [] = blockSpan := by decide
    rw [hnext, hroom, hc.nextBase, List.length_append, List.length_singleton, place_succ]
  · rw [CodeCache.entry?_insertBlock, if_neg (htag b (by simp)).symm]
    exact hc.missing tag fun d hd => htag d (List.mem_append_left _ hd)
  · have hentry : blockEntry client c b s = .ok (place done.length, c') s := by
      rw [← hc.nextBase]
      exact blockEntry_insert (hc.missing b.tag hnew) (translate_empty hempty s.world)
    have hrun : h.runCode c' (place done.length) s = .ok .zero s := by
      have hlookup : c'.lookup (place done.length) = some (⟨place done.length, #[]⟩, 0) :=
        CodeCache.lookup_base (f := ⟨place done.length, #[]⟩) hfragments habove
      unfold Host.runCode Cpu.run
      simp only [UInt64.toNat_ofNat_of_lt' hbound, hlookup]
      rw [Cpu.runFrom_end (by rfl)]
    rw [runBlocks_cons hentry, Step.bind_of_ok hrun]
    rfl

/-- While there is room a block without instructions changes nothing but the cache. -/
theorem cons (hc : Hollow above done c) (hnew : ∀ d ∈ done, d.tag ≠ b.tag)
    (hempty : b.instructions = []) (hbound : place done.length < 2 ^ 64)
    (habove : ∀ f ∈ above, place done.length < f.base) :
    ∃ c', Hollow above (done ++ [b]) c' ∧ ∀ rest counts s,
      h.runBlocks client (b :: rest) ⟨c, counts⟩ s = h.runBlocks client rest ⟨c', counts⟩ s := by
  refine hc.enter h client hnew hempty hbound ?_ habove
  rw [hc.fragments, CodeCache.insertSorted_between habove
    fun f hf => CodeCache.base_of_mem_emptyFragments hf]
  rfl

/-- Where the lowest fragment stands in the way it is displaced. -/
theorem displace {f : Fragment} (hc : Hollow [f] done c)
    (hnew : ∀ d ∈ done, d.tag ≠ b.tag) (hempty : b.instructions = [])
    (hbound : place done.length < 2 ^ 64) (hbase : place done.length = f.base) :
    ∃ c', Hollow [] (done ++ [b]) c' ∧ ∀ rest counts s,
      h.runBlocks client (b :: rest) ⟨c, counts⟩ s = h.runBlocks client rest ⟨c', counts⟩ s := by
  refine hc.enter h client hnew hempty hbound ?_ nofun
  rw [hc.fragments]
  exact CodeCache.insertSorted_of_base_eq hbase

/-- Any number of blocks for which there is room. -/
theorem append (hc : Hollow above done c) (blocks : List Block)
    (hdistinct : ((done ++ blocks).map (·.tag)).Nodup) (hempty : ∀ b ∈ blocks, b.instructions = [])
    (hbound : place (done.length + blocks.length) ≤ 2 ^ 64)
    (habove : ∀ f ∈ above, place (done.length + blocks.length) ≤ f.base) :
    ∃ c', Hollow above (done ++ blocks) c' ∧ ∀ rest counts s,
      h.runBlocks client (blocks ++ rest) ⟨c, counts⟩ s =
        h.runBlocks client rest ⟨c', counts⟩ s := by
  induction blocks generalizing done c with
  | nil => exact ⟨c, by rwa [List.append_nil], fun _ _ _ => rfl⟩
  | cons b blocks ih =>
    have hlt : place done.length < place (done.length + (b :: blocks).length) :=
      CodeCache.place_lt (by simp)
    obtain ⟨c₁, hc₁, hfirst⟩ := hc.cons h client (Block.tag_ne_of_nodup hdistinct)
      (hempty b List.mem_cons_self) (hlt.trans_le hbound) fun f hf => hlt.trans_le (habove f hf)
    have hlength : (done ++ [b]).length + blocks.length = done.length + (b :: blocks).length := by
      simp only [List.length_append, List.length_cons, List.length_nil]
      omega
    obtain ⟨c', hc', hrest⟩ := ih hc₁ (by rwa [← List.append_cons])
      (fun b hb => hempty b (List.mem_cons_of_mem _ hb)) (hlength.symm ▸ hbound)
      (hlength.symm ▸ habove)
    refine ⟨c', by rwa [List.append_cons], fun rest counts s => ?_⟩
    rw [List.cons_append, hfirst, hrest]

end CodeCache.Hollow

/-- A program that runs `last` behind one block without instructions more than there is room
for. -/
structure Program.Overruns (p : Program) (blocks : List Block) (last : Block) : Prop where
  schedule : p.schedule = blocks ++ [last]
  distinct : ((blocks ++ [last]).map (·.tag)).Nodup
  empty : ∀ b ∈ blocks, b.instructions = []
  length : blocks.length = CodeCache.areaCapacity + 1

namespace Host

open CodeCache (place areaCapacity Hollow)

variable {δ ω : Type} {h : Host δ ω} (client : Client δ ω) {p : Program} {blocks : List Block}
  {last : Block} {nodes : List Node}

/-- There is no shared code, or one piece of it in the first place. -/
def SharesOne (h : Host δ ω) : Prop :=
  h.sharedCache.fragments = [] ∨ ∃ f, h.sharedCache.fragments = [f] ∧ f.base = sharedCodeBase

/-- One block more than there is room for displaces the piece of shared code; and where there is
none all blocks are placed alike. -/
theorem SharesOne.runBlocks (hshared : h.SharesOne) (hdistinct : (blocks.map (·.tag)).Nodup)
    (hempty : ∀ b ∈ blocks, b.instructions = []) (hlength : blocks.length = areaCapacity + 1) :
    ∃ c, Hollow [] blocks c ∧ ∀ rest counts s,
      h.runBlocks client (blocks ++ rest) ⟨h.sharedCache, counts⟩ s =
        h.runBlocks client rest ⟨c, counts⟩ s := by
  have hstart : Hollow h.sharedCache.fragments [] h.sharedCache := by
    obtain ⟨hentries, hnext⟩ := CodeCache.foldl_insertShared_rest h.shared .empty
    refine ⟨(List.append_nil _).symm, hnext, fun tag _ => ?_⟩
    change List.lookup tag h.sharedCache.entries = none
    unfold sharedCache
    rw [hentries]
    rfl
  rcases hshared with hnone | ⟨f, hone, hbase⟩
  · rw [hnone] at hstart
    refine hstart.append h client blocks hdistinct hempty ?_ nofun
    rw [hlength]
    decide
  · obtain ⟨front, last, rfl⟩ : ∃ front last, blocks = front ++ [last] :=
      ⟨_, _, (List.dropLast_concat_getLast (List.ne_nil_of_length_eq_add_one hlength)).symm⟩
    have hfront : front.length = areaCapacity := by
      rw [List.length_append] at hlength
      exact Nat.succ.inj hlength
    have hplace : place front.length = sharedCodeBase := by
      rw [hfront, CodeCache.place_areaCapacity]
    have hbound : sharedCodeBase < 2 ^ 64 := by decide
    have habove : ∀ g ∈ [f], place (0 + front.length) ≤ g.base := by
      intro g hg
      rw [List.mem_singleton.1 hg, hbase, Nat.zero_add, hplace]
    rw [hone] at hstart
    obtain ⟨c₁, hc₁, hfirst⟩ := hstart.append h client front
      (hdistinct.sublist (by simp)) (fun b hb => hempty b (List.mem_append_left _ hb))
      ((Nat.zero_add front.length).symm ▸ hplace ▸ hbound.le) habove
    obtain ⟨c, hc, hlast⟩ := hc₁.displace h client (Block.tag_ne_of_nodup hdistinct)
      (hempty last (by simp)) (hplace ▸ hbound) (hplace.trans hbase.symm)
    refine ⟨c, hc, fun rest counts s => ?_⟩
    rw [List.append_assoc, hfirst]
    exact hlast rest counts s

/-- The fragments when one more block is placed, with the nodes that it is translated to. -/
def overrun (nodes : List Node) : CodeCache :=
  ⟨⟨place (areaCapacity + 1), nodes.toArray⟩ :: CodeCache.emptyFragments (areaCapacity + 1), [], 0⟩

/-- The first block with instructions, behind more blocks without than there is room for, is run as
if there had never been shared code. -/
theorem execute_overrun (hp : p.Overruns blocks last) (hshared : h.SharesOne) {s : Running δ ω}
    (htranslate : translate client last s.world = .ok nodes s.world) :
    ∃ c, h.execute client p s = (do
      let counts ← h.runCode (overrun nodes) (place (areaCapacity + 1))
      return ⟨c, counts⟩ : TraceM δ ω Progress) s := by
  obtain ⟨c, hc, hrest⟩ :=
    hshared.runBlocks client (hp.distinct.sublist (by simp)) hp.empty hp.length
  let c' := (c.insertBlock last.tag nodes).2
  have hentry : blockEntry client c last s = .ok (place (areaCapacity + 1), c') s := by
    rw [← hp.length, ← hc.nextBase]
    exact blockEntry_insert (hc.missing last.tag (Block.tag_ne_of_nodup hp.distinct)) htranslate
  have hfragments : c'.fragments = (overrun nodes).fragments := by
    change CodeCache.insertSorted ⟨c.nextBase, nodes.toArray⟩ c.fragments = _
    rw [hc.nextBase, hc.fragments, hp.length, List.nil_append]
    exact CodeCache.insertSorted_between (List.forall_mem_nil _)
      fun f hf => CodeCache.base_of_mem_emptyFragments hf
  refine ⟨c', ?_⟩
  rw [execute_eq, hp.schedule, hrest, runBlocks_cons hentry, runCode_congr hfragments]
  cases hrun : h.runCode (overrun nodes) (place (areaCapacity + 1)) s with
  | error e t => rw [Step.bind_of_error hrun, Step.bind_of_error hrun]
  | ok counts t =>
    have hcounts : Counts.zero.add counts = counts := by
      simp [Counts.add, Counts.zero]
    rw [Step.bind_of_ok hrun, Step.bind_of_ok hrun, runBlocks, hcounts]

/-- The life of a thread of which only the last block is seen. -/
def lifeBehind (h : Host δ ω) (client : Client δ ω) (nodes : List Node) : TraceM δ ω Counts := do
  client.threadStart
  let counts ← h.runCode (overrun nodes) (place (areaCapacity + 1))
  client.threadEnd
  return counts

/-- All that a thread with a program of that kind does happens in its last block. -/
theorem runThread_overrun (hp : p.Overruns blocks last) (hshared : h.SharesOne) {id : ThreadId}
    {thread : Thread δ} {world : ω} {counts : Counts} {s : Running δ ω}
    (htranslate : ∀ world, translate client last world = .ok nodes world)
    (hprepare : h.prepare id p = .ok thread)
    (hlife : h.lifeBehind client nodes ⟨thread, world⟩ = .ok counts s) :
    ∃ translated, h.runThread client id p world = .ok ⟨counts, translated, s.thread⟩ s.world := by
  obtain ⟨_, s₁, hstart, hlife⟩ := Step.bind_eq_ok hlife
  obtain ⟨counts', s₂, hrun, hlife⟩ := Step.bind_eq_ok hlife
  obtain ⟨_, s₃, hend, hlife⟩ := Step.bind_eq_ok hlife
  injection hlife with hcounts hs
  subst hcounts
  subst hs
  obtain ⟨c, hexecute⟩ := execute_overrun client hp hshared (htranslate s₁.world)
  rw [Step.bind_of_ok hrun] at hexecute
  have hready : h.runReady client p ⟨thread, world⟩ = .ok ⟨c, counts'⟩ s₃ := by
    unfold runReady
    rw [hstart]
    simp only [hexecute]
    unfold finish
    simp only [Step.pure_apply, hend]
  refine ⟨c.blockCount, ?_⟩
  unfold runThread
  simp only [hprepare, hready]

end Host

end AccessTrace
