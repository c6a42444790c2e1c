import AccessTrace.Proofs.Code.Injected
import AccessTrace.Proofs.Code.Listing
import AccessTrace.Proofs.Host.Serving
import AccessTrace.Proofs.Record.Trace

/-!
# Untraced runs

With a client that inserts nothing, a program does what its instructions do, one after the other:
a run that succeeds has executed them all, and a run that fails for another reason than its limit
fails as they do.
-/

namespace AccessTrace

/-- The client inserts nothing and leaves threads as they are. -/
structure Client.Idle {δ ω : Type} (client : Client δ ω) : Prop where
  threadStart : ∀ s, ∃ world, client.threadStart s = .ok () { s with world }
  instrument : ∀ handle listing world, ∃ world',
    client.instrument handle (listing, world) = .ok () (listing, world')
  threadEnd : ∀ s, ∃ world, client.threadEnd s = .ok () { s with world }

/-- The calls that show a block to the client: one for each instruction, with the listing as it was
before. -/
def Block.calls (b : Block) : List (Handle × Listing) :=
  (List.range b.instructions.length).map fun n => (⟨n⟩, .ofInstructions b.instructions)

/-- What the client makes of the world when it is shown an instruction. -/
def Client.shown {δ ω : Type} (client : Client δ ω) (world : ω) (call : Handle × Listing) : ω :=
  (Step.final (client.instrument call.1) (call.2, world)).2

namespace Host

open CodeCache (blockFragment rooms)
open Instruction (executeAll)

variable {δ ω : Type} {h : Host δ ω} {client : Client δ ω} {all done rest : List Block} {b : Block}
  {c : CodeCache}

/-- The code of a block in which nothing was inserted. -/
def plainCode (b : Block) : List Node :=
  b.instructions.map .app

theorem instrumentAll_idle (hidle : client.Idle) (handles : List Handle) (l : Listing)
    (world : ω) : instrumentAll client handles (l, world) =
      .ok () (l, (handles.map (·, l)).foldl client.shown world) := by
  induction handles generalizing world with
  | nil => rfl
  | cons handle handles ih =>
    obtain ⟨world', hfirst⟩ := hidle.instrument handle l world
    have hshown : client.shown world (handle, l) = world' := by
      unfold Client.shown
      rw [Step.final_of_ok hfirst]
    rw [List.map_cons, List.foldl_cons, hshown]
    exact (Step.bind_of_ok hfirst).trans (ih world')

/-- A translation calls the client once for each instruction of the block. -/
theorem translate_idle (hidle : client.Idle) (b : Block) (world : ω) :
    translate client b world = .ok (plainCode b) (b.calls.foldl client.shown world) := by
  have hcalls : b.calls = (Listing.ofInstructions b.instructions).appHandles.map
      (·, Listing.ofInstructions b.instructions) := by
    rw [Listing.appHandles_eq_range, List.map_map]
    rfl
  unfold translate
  simp only [instrumentAll_idle hidle, ← hcalls, Listing.nodes_ofInstructions]
  rfl

theorem translates_idle (hidle : client.Idle) :
    Translates client plainCode fun _ _ => True :=
  ⟨fun b world => ⟨_, translate_idle hidle b world, trivial⟩, fun _ => trivial⟩

/-- Application code does what the instructions do. -/
theorem resume_plain (cpu : Cpu δ ω) (counts : Counts) {f : Fragment} {index : Nat}
    {is : List Instruction} {s : Running δ ω} (hhas : f.Has index (is.map .app))
    (hend : f.nodes.size = index + is.length) :
    match executeAll is s.thread.guest with
    | .ok _ g => cpu.Reaches is.length ⟨f, index, counts, s⟩
        ⟨f, f.nodes.size, { counts with app := counts.app + is.length },
          s.at g.machine g.memory s.thread.spill⟩
    | .error e g => ∃ n ≤ is.length, ∀ remaining,
        cpu.resume (n + remaining) ⟨f, index, counts, s⟩ =
          .error e (s.at g.machine g.memory s.thread.spill) := by
  induction is generalizing index counts s with
  | nil =>
    rw [hend]
    exact .refl _
  | cons i is ih =>
    rw [List.length_cons] at hend ⊢
    cases hi : i.execute s.thread.guest with
    | error e g =>
      rw [Instruction.executeAll_cons_error hi]
      have hnode := cpu.executeNode_app_error f s _ _ s.thread.spill hi
      refine ⟨1, by omega, fun remaining => ?_⟩
      rw [Nat.add_comm]
      exact Cpu.resume_error hhas.head hnode remaining
    | ok _ g =>
      rw [Instruction.executeAll_cons_ok hi]
      have hnode := cpu.executeNode_app f s _ _ s.thread.spill hi
      have hfirst := Cpu.reaches_next counts hhas.head hnode
      have hrest := ih (counts.step (.app i))
        (s := s.at g.machine g.memory s.thread.spill) hhas.tail (by omega)
      have hguest : (s.at g.machine g.memory s.thread.spill).thread.guest = g := rfl
      rw [hguest] at hrest
      cases hall : executeAll is g with
      | ok _ g' =>
        rw [hall] at hrest
        have hboth := hfirst.trans hrest
        have happ : (counts.step (.app i)).app + is.length = counts.app + (is.length + 1) := by
          rw [Nat.add_comm is.length, ← Nat.add_assoc]
          rfl
        rw [happ, Nat.add_comm 1] at hboth
        exact hboth
      | error e g' =>
        rw [hall] at hrest
        obtain ⟨n, hn, hfails⟩ := hrest
        refine ⟨1 + n, by omega, fun remaining => ?_⟩
        rw [Nat.add_assoc]
        exact (hfirst.resume (n + remaining)).trans (hfails remaining)

theorem has_plainCode (base : Nat) (b : Block) :
    (blockFragment plainCode base b).Has 0 (b.instructions.map .app) :=
  Fragment.has_toArray _ _

theorem size_plainCode (base : Nat) (b : Block) :
    (blockFragment plainCode base b).nodes.size = 0 + b.instructions.length := by
  simp [blockFragment, plainCode]

/-- A block that the limit leaves time for does what its instructions do. -/
theorem runCode_of_limit {base : Nat} (hc : c.Serves h.shared plainCode all done)
    (hfragment : blockFragment plainCode base b ∈ c.fragments)
    (hbelow : base + (blockFragment plainCode base b).span ≤ c.nextBase)
    (hend : c.nextBase ≤ sharedCodeBase) (hlimit : b.instructions.length ≤ h.stepLimit)
    (s : Running δ ω) :
    h.runCode c base s = match executeAll b.instructions s.thread.guest with
      | .ok _ guest =>
        .ok ⟨b.instructions.length, 0, 0⟩ { s with thread := { s.thread with guest } }
      | .error e guest => .error (.machine e) { s with thread := { s.thread with guest } } := by
  have hplain := resume_plain ⟨c, h.routines, h.stepLimit⟩ .zero (s := s)
    (has_plainCode base b) (size_plainCode base b)
  rw [runCode_eq hc hfragment hbelow hend]
  cases hall : executeAll b.instructions s.thread.guest with
  | ok _ guest =>
    rw [hall] at hplain
    have hlast : (blockFragment plainCode base b).nodes[
        (blockFragment plainCode base b).nodes.size]? = none :=
      Array.getElem?_eq_none (Nat.le_refl _)
    have hcount : Counts.zero.app + b.instructions.length = b.instructions.length :=
      Nat.zero_add _
    rw [hplain.resume_end hlast hlimit, hcount]
    rfl
  | error e guest =>
    rw [hall] at hplain
    obtain ⟨n, hn, hfails⟩ := hplain
    have hfailed := hfails (h.stepLimit - n)
    rw [Nat.add_sub_cancel' (Nat.le_trans hn hlimit)] at hfailed
    rw [hfailed]
    rfl

/-- A run of a block, whether its limit cuts it off or not. -/
theorem runCode_plain {base : Nat} (hc : c.Serves h.shared plainCode all done)
    (hfragment : blockFragment plainCode base b ∈ c.fragments)
    (hbelow : base + (blockFragment plainCode base b).span ≤ c.nextBase)
    (hend : c.nextBase ≤ sharedCodeBase) (s : Running δ ω) :
    match h.runCode c base s with
    | .ok counts s' => executeAll b.instructions s.thread.guest = .ok () s'.thread.guest ∧
        counts.app = b.instructions.length
    | .error e s' => b.instructions.length ≤ h.stepLimit →
        ∃ e', e = .machine e' ∧
          executeAll b.instructions s.thread.guest = .error e' s'.thread.guest := by
  by_cases hlimit : b.instructions.length ≤ h.stepLimit
  · rw [runCode_of_limit hc hfragment hbelow hend hlimit]
    cases executeAll b.instructions s.thread.guest with
    | ok _ guest => exact ⟨rfl, rfl⟩
    | error e guest => exact fun _ => ⟨e, rfl, rfl⟩
  · have hplain := resume_plain ⟨c, h.routines, h.stepLimit⟩ .zero (s := s)
      (has_plainCode base b) (size_plainCode base b)
    have hcode := runCode_eq hc hfragment hbelow hend s
    cases hrun : Cpu.resume ⟨c, h.routines, h.stepLimit⟩ h.stepLimit
        ⟨blockFragment plainCode base b, 0, .zero, s⟩ with
    | error e s' =>
      rw [hrun] at hcode
      rw [hcode]
      exact fun hle => absurd hle hlimit
    | ok counts s' =>
      rw [hrun] at hcode
      rw [hcode]
      cases hall : executeAll b.instructions s.thread.guest with
      | ok _ guest =>
        rw [hall] at hplain
        obtain ⟨rfl, rfl⟩ := hplain.of_resume_ok (Array.getElem?_eq_none (Nat.le_refl _)) hrun
        exact ⟨rfl, Nat.zero_add _⟩
      | error e guest =>
        rw [hall] at hplain
        obtain ⟨n, _, hfails⟩ := hplain
        exact absurd hrun (Cpu.resume_ne_ok hfails)

/-- A sequence of blocks executes the instructions of all of them, or fails as they do. -/
theorem runBlocks_plain (hh : h.Spaced) (hidle : client.Idle) {all rest : List Block}
    (hfits : blockAreaBase + rooms plainCode (Block.firsts all) ≤ sharedCodeBase)
    (done : List Block) (counts : Counts) {s : Running δ ω} (hall : done ++ rest = all)
    (hc : c.Serves h.shared plainCode all done) :
    match h.runBlocks client rest ⟨c, counts⟩ s with
    | .ok p s' =>
      executeAll (rest.flatMap fun b => (b.resolvedIn all).instructions) s.thread.guest =
        .ok () s'.thread.guest ∧
      p.counts.app =
        counts.app + (rest.flatMap fun b => (b.resolvedIn all).instructions).length
    | .error e s' => (∀ b ∈ Block.firsts all, b.instructions.length ≤ h.stepLimit) →
      ∃ e', e = .machine e' ∧
        executeAll (rest.flatMap fun b => (b.resolvedIn all).instructions) s.thread.guest =
          .error e' s'.thread.guest := by
  induction rest generalizing done c counts s with
  | nil => exact ⟨rfl, rfl⟩
  | cons b rest ih =>
    obtain ⟨base, c₁, world₁, hentry, _, hc₁, hend, hfragment, hbelow⟩ := blockEntry_ok hh
      (translates_idle hidle) (hall ▸ hc) (by rwa [hall]) s
    rw [hall] at hc₁ hfragment hbelow
    have hmem : b.resolvedIn all ∈ Block.firsts all :=
      Block.resolvedIn_mem_firsts (by rw [← hall]; simp)
    have hblock := runCode_plain hc₁ hfragment hbelow hend { s with world := world₁ }
    rw [runBlocks_cons hentry, List.flatMap_cons]
    cases hcode : h.runCode c₁ base { s with world := world₁ } with
    | error e s₁ =>
      rw [hcode] at hblock
      rw [Step.bind_of_error hcode]
      intro hlimit
      obtain ⟨e', he, hfails⟩ := hblock (hlimit _ hmem)
      exact ⟨e', he, Instruction.executeAll_append_error hfails⟩
    | ok counts₁ s₁ =>
      rw [hcode] at hblock
      obtain ⟨hexecuted, happ⟩ := hblock
      rw [Step.bind_of_ok hcode, Instruction.executeAll_append_ok hexecuted, List.length_append]
      have hrest := ih (done ++ [b]) (counts.add counts₁) (c := c₁) (s := s₁)
        (by rw [← hall, List.append_assoc, List.singleton_append]) hc₁
      have hcounts : (counts.add counts₁).app =
          counts.app + (b.resolvedIn all).instructions.length := by
        rw [← happ]
        rfl
      rw [hcounts, Nat.add_assoc] at hrest
      exact hrest

/-! ## Whole threads -/

variable {p : Program} {id : ThreadId} {thread : Thread δ} {world world' : ω}

/-- A program executes its instructions, or fails as they do. -/
theorem execute_plain (hh : h.Spaced) (hidle : client.Idle)
    (hfits : blockAreaBase + rooms plainCode p.translated ≤ sharedCodeBase) (s : Running δ ω) :
    match h.execute client p s with
    | .ok progress s' => executeAll p.executed s.thread.guest = .ok () s'.thread.guest ∧
        progress.counts.app = p.executed.length
    | .error e s' => (∀ b ∈ p.translated, b.instructions.length ≤ h.stepLimit) →
        ∃ e', e = .machine e' ∧
          executeAll p.executed s.thread.guest = .error e' s'.thread.guest := by
  have hrun := runBlocks_plain hh hidle hfits [] .zero (s := s)
    (show [] ++ p.schedule = p.schedule from rfl)
    (CodeCache.serves_sharedCache hh plainCode p.schedule)
  rw [execute_eq]
  cases hblocks : h.runBlocks client p.schedule ⟨h.sharedCache, .zero⟩ s with
  | ok progress s' =>
    rw [hblocks] at hrun
    exact ⟨hrun.1, hrun.2.trans (Nat.zero_add _)⟩
  | error e s' =>
    rw [hblocks] at hrun
    exact hrun

/-- An idle client makes nothing of a thread's start and end. -/
theorem runReady_idle (hidle : client.Idle) (s : Running δ ω) :
    ∃ world, match h.execute client p { s with world } with
      | .ok progress s' =>
        ∃ world', h.runReady client p s = .ok progress { s' with world := world' }
      | .error e s' => ∃ world', h.runReady client p s = .error e { s' with world := world' } := by
  obtain ⟨world, hstart⟩ := hidle.threadStart s
  refine ⟨world, ?_⟩
  have hready : h.runReady client p s = finish client (h.execute client p { s with world }) := by
    unfold runReady
    rw [hstart]
  rw [hready]
  cases h.execute client p { s with world } with
  | ok progress s' =>
    obtain ⟨world', hend⟩ := hidle.threadEnd s'
    exact ⟨world', by simp only [finish, hend]⟩
  | error e s' =>
    obtain ⟨world', hend⟩ := hidle.threadEnd s'
    exact ⟨world', by simp only [finish, hend]⟩

theorem runThread_plain_ok (hh : h.Spaced) (hidle : client.Idle)
    (hfits : blockAreaBase + rooms plainCode p.translated ≤ sharedCodeBase) {run : ThreadRun δ}
    (hrun : h.runThread client id p world = .ok run world') :
    ∃ thread, h.prepare id p = .ok thread ∧
      executeAll p.executed thread.guest = .ok () run.thread.guest ∧
      run.counts.app = p.executed.length := by
  unfold runThread at hrun
  cases hprepare : h.prepare id p with
  | error e =>
    rw [hprepare] at hrun
    contradiction
  | ok thread =>
    rw [hprepare] at hrun
    obtain ⟨w, hready⟩ := runReady_idle (p := p) (h := h) hidle ⟨thread, world⟩
    have hexecute := execute_plain hh hidle hfits ⟨thread, w⟩
    cases hx : h.execute client p ⟨thread, w⟩ with
    | error e s' =>
      rw [hx] at hready
      obtain ⟨w', hready⟩ := hready
      simp only [hready] at hrun
      contradiction
    | ok progress s' =>
      rw [hx] at hready hexecute
      obtain ⟨w', hready⟩ := hready
      simp only [hready] at hrun
      injection hrun with hrun
      subst hrun
      exact ⟨thread, rfl, hexecute⟩

theorem runThread_plain_error (hh : h.Spaced) (hidle : client.Idle)
    (hfits : blockAreaBase + rooms plainCode p.translated ≤ sharedCodeBase)
    (hlimit : ∀ b ∈ p.translated, b.instructions.length ≤ h.stepLimit)
    (hprepare : h.prepare id p = .ok thread) {e : TraceError}
    (hrun : h.runThread client id p world = .error e world') :
    ∃ e' g, e = .machine e' ∧ executeAll p.executed thread.guest = .error e' g := by
  unfold runThread at hrun
  rw [hprepare] at hrun
  obtain ⟨w, hready⟩ := runReady_idle (p := p) (h := h) hidle ⟨thread, world⟩
  have hexecute := execute_plain hh hidle hfits ⟨thread, w⟩
  cases hx : h.execute client p ⟨thread, w⟩ with
  | ok progress s' =>
    rw [hx] at hready
    obtain ⟨w', hready⟩ := hready
    simp only [hready] at hrun
    contradiction
  | error e₁ s' =>
    rw [hx] at hready hexecute
    obtain ⟨w', hready⟩ := hready
    simp only [hready] at hrun
    injection hrun with he
    subst he
    obtain ⟨e', he', hfails⟩ := hexecute hlimit
    exact ⟨e', s'.thread.guest, he', hfails⟩

end Host

end AccessTrace
