import AccessTrace.Proofs.Session.Setup

/-!
# Traced runs

A traced run of a program goes alongside the untraced one, from block to block: it collects the
records of what is executed, and gets as far as the instructions do if its limit lets it.
-/

namespace AccessTrace

/-- If the result is a success then it is this one, and it is a success if `sure` holds. -/
structure Attains {ε σ α : Type} (r : EStateM.Result ε σ α) (sure : Prop) (a : α) (s : σ) :
    Prop where
  success : sure → r = .ok a s
  only : ∀ a' s', r = .ok a' s' → a' = a ∧ s' = s

theorem Attains.bind {ε σ α β : Type} {x : EStateM ε σ α} {f : α → EStateM ε σ β} {s t u : σ}
    {sure : Prop} {a : α} {b : β} (h : Attains (x s) sure a t) (h' : Attains (f a t) sure b u) :
    Attains ((x >>= f) s) sure b u := by
  refine ⟨fun hsure => (Step.bind_of_ok (h.success hsure)).trans (h'.success hsure),
    fun b' u' hok => ?_⟩
  obtain ⟨a', t', hx, hf⟩ := Step.bind_eq_ok hok
  obtain ⟨rfl, rfl⟩ := h.only a' t' hx
  exact h'.only b' u' hf

/-- How many memory operands the instructions of a block have. -/
def Block.memoryOperandCount (b : Block) : Nat :=
  (b.instructions.map (·.memoryOperandCount)).sum

namespace Tracer

open AddressSpace (ForeignFault)
open CodeCache (blockFragment rooms)
open Instruction (executeAll accessTrace)

variable {ω : Type} {t : Tracer ω} {before h : TracerHost ω} {usesCounter : Bool} {b : TraceBuffer}
  {sink : Sink ω} {start : TraceState ω × Session ω} {m M : AddressSpace} {k : Collected}
  {g : Guest} {s : Running (TraceState ω) (Session ω)} {c : CodeCache}
  {all done rest : List Block} {block : Block}

/-- The nodes of a block once it is translated. -/
def code (t : Tracer ω) (usesCounter : Bool) (block : Block) : List Node :=
  t.injector.expansion usesCounter 0 block.instructions

/-- The limit is large enough for every path of a block to divert. -/
def Suffices (t : Tracer ω) (usesCounter : Bool) (limit : Nat) (block : Block) : Prop :=
  (t.code usesCounter block).length + 2 * block.memoryOperandCount ≤ limit

theorem translates (ht : t.injector.Uses usesCounter) :
    Host.Translates t.client (t.code usesCounter) Eq :=
  ⟨fun block session => ⟨session, translate_ok ht block session, rfl⟩, fun _ => rfl⟩

/-- A run of a block. -/
theorem runCode_traced {base : Nat} (ht : t.Installed before h)
    (hc : c.Serves h.shared (t.code usesCounter) all done) (hend : c.nextBase ≤ sharedCodeBase)
    (hfragment : blockFragment (t.code usesCounter) base block ∈ c.fragments)
    (hbelow : base + (blockFragment (t.code usesCounter) base block).span ≤ c.nextBase)
    (hconstructed : ∀ i ∈ block.instructions, i.Constructed)
    (hs : Alongside t.field b sink start m M k g s) (hpacked : k.Packed b.capacity) :
    match executeAll block.instructions g with
    | .ok _ g' => ∃ counts s',
        Attains (h.runCode c base s) (t.Suffices usesCounter h.stepLimit block) counts s' ∧
        Alongside t.field b sink start m M
          (k.addAll b.capacity (accessTrace block.instructions g)) g' s' ∧
        counts.app = block.instructions.length ∧
        counts.hostCalls + k.batches.length =
          (k.addAll b.capacity (accessTrace block.instructions g)).batches.length
    | .error e g' => ForeignFault m M e ∨ ∃ s',
        (t.Suffices usesCounter h.stepLimit block → h.runCode c base s = .error (.machine e) s') ∧
        Alongside t.field b sink start m M
          (k.addAll b.capacity (accessTrace block.instructions g)) g' s' := by
  have hflush := ht.flushes hc hend hfragment hbelow
  have hsize : (blockFragment (t.code usesCounter) base block).nodes.size =
      0 + (t.code usesCounter block).length := by
    simp [blockFragment]
  have hlast : (blockFragment (t.code usesCounter) base block).nodes[
      (blockFragment (t.code usesCounter) base block).nodes.size]? = none :=
    Array.getElem?_eq_none (Nat.le_refl _)
  have hs' : Alongside t.injector.field b sink start m M k g s := by rwa [ht.field]
  have hexecutes := Injector.executes_expansion .zero hflush hconstructed
    (Fragment.has_toArray base (t.code usesCounter block)) hsize hs' hpacked
  have hcode := Host.runCode_eq hc hfragment hbelow hend s
  cases hall : executeAll block.instructions g with
  | ok _ g' =>
    rw [hall] at hexecutes
    obtain ⟨n, counts, s', hn, hexecuted⟩ := hexecutes
    refine ⟨counts, s', ⟨fun hlimit => ?_, fun counts₁ s₁ hok => ?_⟩, ?_, ?_, ?_⟩
    · rw [hcode, hexecuted.reaches.resume_end hlast (Nat.le_trans hn hlimit)]
    · rw [hcode] at hok
      split at hok
      · rename_i counts₂ s₂ hrun
        obtain ⟨rfl, rfl⟩ := hexecuted.reaches.of_resume_ok hlast hrun
        injection hok with hcounts hs₁
        exact ⟨hcounts.symm, hs₁.symm⟩
      · contradiction
    · have halongside := hexecuted.alongside
      rwa [ht.field] at halongside
    · rw [hexecuted.app]
      exact Nat.zero_add _
    · rw [hexecuted.hostCalls]
      exact Nat.zero_add _
  | error e g' =>
    rw [hall] at hexecutes
    rcases hexecutes with hforeign | ⟨n, s', hn, hfails, halongside⟩
    · exact Or.inl hforeign
    · refine Or.inr ⟨s', fun hlimit => ?_, by rwa [ht.field] at halongside⟩
      have hrun := hfails (h.stepLimit - n)
      rw [Nat.add_sub_cancel' (Nat.le_trans hn hlimit)] at hrun
      rw [hcode, hrun]

/-- A run of a sequence of blocks, after some others of the schedule. -/
theorem runBlocks_traced (ht : t.Installed before h) (huses : t.injector.Uses usesCounter)
    (hfits : blockAreaBase + rooms (t.code usesCounter) (Block.firsts all) ≤ sharedCodeBase)
    (hconstructed : ∀ block ∈ Block.firsts all, ∀ i ∈ block.instructions, i.Constructed)
    (done : List Block) (counts : Counts) (hall : done ++ rest = all)
    (hc : c.Serves h.shared (t.code usesCounter) all done)
    (hs : Alongside t.field b sink start m M k g s) (hpacked : k.Packed b.capacity) :
    match executeAll (rest.flatMap fun b => (b.resolvedIn all).instructions) g with
    | .ok _ g' => ∃ p s',
        Attains (h.runBlocks t.client rest ⟨c, counts⟩ s)
          (∀ block ∈ Block.firsts all, t.Suffices usesCounter h.stepLimit block) p s' ∧
        Alongside t.field b sink start m M (k.addAll b.capacity
          (accessTrace (rest.flatMap fun b => (b.resolvedIn all).instructions) g)) g' s' ∧
        p.counts.app = counts.app +
          (rest.flatMap fun b => (b.resolvedIn all).instructions).length ∧
        p.counts.hostCalls + k.batches.length = counts.hostCalls + (k.addAll b.capacity
          (accessTrace (rest.flatMap fun b => (b.resolvedIn all).instructions) g)).batches.length
    | .error e g' => ForeignFault m M e ∨ ∃ s',
        ((∀ block ∈ Block.firsts all, t.Suffices usesCounter h.stepLimit block) →
          h.runBlocks t.client rest ⟨c, counts⟩ s = .error (.machine e) s') ∧
        Alongside t.field b sink start m M (k.addAll b.capacity
          (accessTrace (rest.flatMap fun b => (b.resolvedIn all).instructions) g)) g' s' := by
  induction rest generalizing done c counts k g s with
  | nil =>
    exact ⟨⟨c, counts⟩, s, ⟨fun _ => rfl, fun p s' hok => by cases hok; exact ⟨rfl, rfl⟩⟩, hs,
      rfl, rfl⟩
  | cons block rest ih =>
    obtain ⟨base, c₁, world₁, hentry, rfl, hc₁, hend, hfragment, hbelow⟩ :=
      Host.blockEntry_ok ht.spaced (t.translates huses) (hall ▸ hc) (by rwa [hall]) s
    rw [hall] at hc₁ hfragment hbelow
    have hmem : block.resolvedIn all ∈ Block.firsts all :=
      Block.resolvedIn_mem_firsts (by rw [← hall]; simp)
    have hblock := runCode_traced ht hc₁ hend hfragment hbelow (hconstructed _ hmem) hs hpacked
    rw [Host.runBlocks_cons hentry, List.flatMap_cons]
    cases hexecute : executeAll (block.resolvedIn all).instructions g with
    | error e g' =>
      rw [hexecute] at hblock
      rw [Instruction.executeAll_append_error hexecute,
        Instruction.accessTrace_append_error hexecute]
      rcases hblock with hforeign | ⟨s', hfails, halongside⟩
      · exact Or.inl hforeign
      · exact Or.inr ⟨s', fun hlimit => Step.bind_of_error (hfails (hlimit _ hmem)), halongside⟩
    | ok _ g₁ =>
      rw [hexecute] at hblock
      obtain ⟨counts₁, s₁, hattains, halongside, happ, hcalls⟩ := hblock
      rw [Instruction.executeAll_append_ok hexecute, Instruction.accessTrace_append_ok hexecute,
        Collected.addAll_append, List.length_append]
      have hrest := ih (done ++ [block]) (counts.add counts₁)
        (by rw [← hall, List.append_assoc, List.singleton_append]) hc₁ halongside
        (hpacked.addAll _)
      have hthis : Attains (h.runCode c₁ base s)
          (∀ block ∈ Block.firsts all, t.Suffices usesCounter h.stepLimit block) counts₁ s₁ :=
        ⟨fun hlimit => hattains.success (hlimit _ hmem), hattains.only⟩
      have happ' : (counts.add counts₁).app = counts.app + counts₁.app := rfl
      have hcalls' : (counts.add counts₁).hostCalls = counts.hostCalls + counts₁.hostCalls := rfl
      cases hexecute' : executeAll (rest.flatMap fun b => (b.resolvedIn all).instructions) g₁ with
      | error e g' =>
        rw [hexecute'] at hrest
        rcases hrest with hforeign | ⟨s', hfails, halongside'⟩
        · exact Or.inl hforeign
        · refine Or.inr ⟨s', fun hlimit => ?_, halongside'⟩
          exact (Step.bind_of_ok (hthis.success hlimit)).trans (hfails hlimit)
      | ok _ g' =>
        rw [hexecute'] at hrest
        obtain ⟨p, s', hrest, halongside', hrestApp, hrestCalls⟩ := hrest
        exact ⟨p, s', hthis.bind hrest, halongside', by omega, by omega⟩

end Tracer

end AccessTrace
