import AccessTrace.Host.Run
import AccessTrace.Proofs.Machine.Steps

/-!
# The schedule of a program

A program runs its blocks in order, a number of times over. A block whose tag has occurred before
is not translated again: what runs for it is the first block with that tag.
-/

namespace AccessTrace

namespace Block

/-- The first of some blocks that has the tag of `b`. -/
def resolvedIn (blocks : List Block) (b : Block) : Block :=
  (blocks.find? (·.tag == b.tag)).getD b

/-- The blocks with a tag that no block before them has. -/
def firsts : List Block → List Block
  | [] => []
  | b :: rest => b :: (firsts rest).filter (·.tag != b.tag)

variable {blocks done rest : List Block} {b b' : Block}

/-- Blocks of one tag stand for the same code. -/
theorem resolvedIn_congr (blocks : List Block) (hb : b ∈ blocks) (htag : b.tag = b'.tag) :
    resolvedIn blocks b = resolvedIn blocks b' := by
  have hfound : (blocks.find? (·.tag == b.tag)).isSome := by
    rw [List.find?_isSome]
    exact ⟨b, hb, beq_self_eq_true _⟩
  obtain ⟨first, hfirst⟩ := Option.isSome_iff_exists.1 hfound
  rw [resolvedIn, resolvedIn, ← htag, hfirst, Option.getD_some, Option.getD_some]

theorem resolvedIn_new (hnew : ∀ d ∈ done, d.tag ≠ b.tag) :
    resolvedIn (done ++ b :: rest) b = b := by
  have hnone : done.find? (·.tag == b.tag) = none := by
    rw [List.find?_eq_none]
    intro d hd
    simpa using hnew d hd
  rw [resolvedIn, List.find?_append, hnone, Option.none_or, List.find?_cons_of_pos]
  · rfl
  · exact beq_self_eq_true _

/-- Where equal tags mean equal instructions, every block stands for its own. -/
theorem instructions_resolvedIn (hb : b ∈ blocks)
    (hequal : ∀ x ∈ blocks, ∀ y ∈ blocks, x.tag = y.tag → x.instructions = y.instructions) :
    (resolvedIn blocks b).instructions = b.instructions := by
  rw [resolvedIn]
  cases hfound : blocks.find? (·.tag == b.tag) with
  | none => rfl
  | some first =>
    exact hequal first (List.mem_of_find?_eq_some hfound) b hb
      (eq_of_beq (List.find?_some hfound :))

theorem tag_resolvedIn (blocks : List Block) (b : Block) : (resolvedIn blocks b).tag = b.tag := by
  rw [resolvedIn]
  cases hfound : blocks.find? (·.tag == b.tag) with
  | none => rfl
  | some first => exact eq_of_beq (List.find?_some hfound :)

/-- What runs for a block is one of the first blocks with their tags. -/
theorem resolvedIn_mem_firsts (hb : b ∈ blocks) : resolvedIn blocks b ∈ firsts blocks := by
  induction blocks with
  | nil => contradiction
  | cons c blocks ih =>
    rw [firsts]
    by_cases hc : c.tag = b.tag
    · have hfirst : resolvedIn (c :: blocks) b = c := by
        rw [resolvedIn, List.find?_cons_of_pos (by simpa using hc), Option.getD_some]
      rw [hfirst]
      exact List.mem_cons_self
    · have hlater : resolvedIn (c :: blocks) b = resolvedIn blocks b := by
        rw [resolvedIn, List.find?_cons_of_neg (by simpa using hc)]
        rfl
      have hmem : b ∈ blocks := by
        rcases List.mem_cons.1 hb with rfl | hb
        · exact absurd rfl hc
        · exact hb
      rw [hlater]
      refine List.mem_cons_of_mem _ (List.mem_filter.2 ⟨ih hmem, ?_⟩)
      simpa [tag_resolvedIn] using Ne.symm hc

theorem mem_of_mem_firsts (h : b ∈ firsts blocks) : b ∈ blocks := by
  induction blocks with
  | nil => contradiction
  | cons c blocks ih =>
    rw [firsts] at h
    rcases List.mem_cons.1 h with rfl | h
    · exact List.mem_cons_self
    · exact List.mem_cons_of_mem _ (ih (List.mem_filter.1 h).1)

/-- A block is new if no block before it has its tag. -/
theorem firsts_concat (done : List Block) (b : Block) :
    firsts (done ++ [b]) =
      if done.any (·.tag == b.tag) then firsts done else firsts done ++ [b] := by
  induction done with
  | nil => rfl
  | cons c done ih =>
    rw [List.cons_append, firsts, firsts, ih, List.any_cons]
    by_cases hc : c.tag = b.tag
    · have hskip : [b].filter (·.tag != c.tag) = [] := by simp [hc]
      rw [beq_iff_eq.2 hc, Bool.true_or, if_pos rfl]
      split
      · rfl
      · rw [List.filter_append, hskip, List.append_nil]
    · have hkeep : [b].filter (·.tag != c.tag) = [b] := by simp [Ne.symm hc]
      rw [beq_eq_false_iff_ne.2 hc, Bool.false_or]
      split
      · rfl
      · rw [List.filter_append, hkeep, List.cons_append]

theorem firsts_concat_known (hold : ∃ d ∈ done, d.tag = b.tag) :
    firsts (done ++ [b]) = firsts done := by
  obtain ⟨d, hd, htag⟩ := hold
  have hany : done.any (·.tag == b.tag) = true := List.any_eq_true.2 ⟨d, hd, beq_iff_eq.2 htag⟩
  rw [firsts_concat, if_pos hany]

theorem firsts_concat_new (hnew : ∀ d ∈ done, d.tag ≠ b.tag) :
    firsts (done ++ [b]) = firsts done ++ [b] := by
  have hany : ¬done.any (·.tag == b.tag) = true := by simpa using hnew
  rw [firsts_concat, if_neg hany]

theorem firsts_prefix (done rest : List Block) : firsts done <+: firsts (done ++ rest) := by
  induction done with
  | nil => exact List.nil_prefix
  | cons b done ih =>
    rw [List.cons_append, firsts, firsts]
    exact List.prefix_cons_inj b |>.2 (ih.filter _)

end Block

namespace Program

/-- The blocks of a whole run, in order. -/
def schedule (p : Program) : List Block :=
  (List.replicate p.iterations p.blocks).flatten

/-- The instructions of a whole run. -/
def executed (p : Program) : List Instruction :=
  p.schedule.flatMap fun b => (b.resolvedIn p.schedule).instructions

/-- The blocks that are translated in the course of a whole run. -/
def translated (p : Program) : List Block :=
  Block.firsts p.schedule

variable {p : Program}

theorem mem_of_mem_schedule {b : Block} (h : b ∈ p.schedule) : b ∈ p.blocks := by
  obtain ⟨blocks, hblocks, hb⟩ := List.mem_flatten.1 h
  rwa [List.eq_of_mem_replicate hblocks] at hb

theorem mem_of_mem_translated {b : Block} (h : b ∈ p.translated) : b ∈ p.blocks :=
  mem_of_mem_schedule (Block.mem_of_mem_firsts h)

theorem mem_of_mem_executed {i : Instruction} (h : i ∈ p.executed) :
    ∃ b ∈ p.blocks, i ∈ b.instructions := by
  obtain ⟨b, hb, hi⟩ := List.mem_flatMap.1 h
  exact ⟨_, mem_of_mem_translated (Block.resolvedIn_mem_firsts hb), hi⟩

/-- Where equal tags mean equal instructions, a run executes its schedule as it is written. -/
theorem executed_eq (hequal : ∀ x ∈ p.blocks, ∀ y ∈ p.blocks, x.tag = y.tag →
    x.instructions = y.instructions) : p.executed = p.schedule.flatMap (·.instructions) := by
  unfold executed
  rw [List.flatMap_def, List.flatMap_def]
  congr 1
  refine List.map_congr_left fun b hb => Block.instructions_resolvedIn hb fun x hx y hy => ?_
  exact hequal x (mem_of_mem_schedule hx) y (mem_of_mem_schedule hy)

section Single

variable {b : Block}

theorem instructions_of_single (hblocks : p.blocks = [b]) : ∀ x ∈ p.blocks, ∀ y ∈ p.blocks,
    x.tag = y.tag → x.instructions = y.instructions := by
  rw [hblocks]
  intro x hx y hy _
  rw [List.mem_singleton.1 hx, List.mem_singleton.1 hy]

/-- A program of one block executes it again and again. -/
theorem executed_of_single (hblocks : p.blocks = [b]) :
    p.executed = (List.replicate p.iterations b.instructions).flatten := by
  rw [executed_eq (instructions_of_single hblocks), schedule, hblocks]
  induction p.iterations with
  | zero => rfl
  | succ n ih =>
    rw [List.replicate_succ, List.replicate_succ, List.flatten_cons, List.flatMap_append, ih,
      List.flatten_cons, List.flatMap_singleton]

/-- It is translated once, if it is executed at all. -/
theorem translated_of_single (hblocks : p.blocks = [b]) :
    p.translated = if p.iterations = 0 then [] else [b] := by
  rw [translated, schedule, hblocks]
  cases p.iterations with
  | zero => rfl
  | succ n =>
    have hrest : ∀ c ∈ (List.replicate n [b]).flatten, c.tag = b.tag := by
      intro c hc
      obtain ⟨blocks, hblocks, hc⟩ := List.mem_flatten.1 hc
      rw [List.eq_of_mem_replicate hblocks] at hc
      rw [List.mem_singleton.1 hc]
    rw [List.replicate_succ, List.flatten_cons, List.singleton_append, Block.firsts,
      List.filter_eq_nil_iff.2, if_neg (Nat.succ_ne_zero n)]
    intro c hc
    simp [hrest c (Block.mem_of_mem_firsts hc)]

end Single

theorem foldl_add_eq_sum {α : Type} (f : α → Nat) (xs : List α) (n : Nat) :
    xs.foldl (fun n a => n + f a) n = n + (xs.map f).sum := by
  induction xs generalizing n with
  | nil => rfl
  | cons a xs ih => rw [List.foldl_cons, ih, List.map_cons, List.sum_cons, Nat.add_assoc]

theorem sum_operandsPerIteration (p : Program) :
    ((p.schedule.flatMap (·.instructions)).map (·.memoryOperandCount)).sum =
      p.operandsPerIteration * p.iterations := by
  rw [operandsPerIteration, foldl_add_eq_sum, Nat.zero_add, schedule]
  induction p.iterations with
  | zero => rfl
  | succ n ih =>
    rw [List.replicate_succ, List.flatten_cons, List.flatMap_append, List.map_append,
      List.sum_append, ih, Nat.mul_succ, Nat.add_comm]

/-- How many memory operands the instructions of a whole run have, up to the size of a word. -/
theorem sum_memoryOperandCount (p : Program) :
    ((p.schedule.flatMap (·.instructions)).map (·.memoryOperandCount)).sum % 2 ^ 64 =
      p.memoryOperandCount := by
  rw [sum_operandsPerIteration, memoryOperandCount, UInt64.toNat_mul, UInt64.toNat_ofNat',
    UInt64.toNat_ofNat', ← Nat.mul_mod]

end Program

namespace Host

variable {δ ω : Type} {h : Host δ ω} {client : Client δ ω}

theorem runBlocks_append (xs ys : List Block) (p : Progress) :
    h.runBlocks client (xs ++ ys) p =
      (do h.runBlocks client ys (← h.runBlocks client xs p) : TraceM δ ω Progress) := by
  induction xs generalizing p with
  | nil => rfl
  | cons b xs ih =>
    simp only [List.cons_append, runBlocks, ih, bind_assoc]

/-- The first block is entered and run before the rest. -/
theorem runBlocks_cons {b : Block} {rest : List Block} {c c' : CodeCache} {counts : Counts}
    {base : Nat} {s s' : Running δ ω} (hentry : blockEntry client c b s = .ok (base, c') s') :
    h.runBlocks client (b :: rest) ⟨c, counts⟩ s =
      (h.runCode c' base >>= fun counts' => h.runBlocks client rest ⟨c', counts.add counts'⟩)
        s' := by
  rw [runBlocks, Step.bind_of_ok hentry]

theorem runIterations_eq (blocks : List Block) (iterations : Nat) (p : Progress) :
    h.runIterations client blocks iterations p =
      h.runBlocks client (List.replicate iterations blocks).flatten p := by
  induction iterations generalizing p with
  | zero => rfl
  | succ iterations ih =>
    rw [runIterations, List.replicate_succ, List.flatten_cons, runBlocks_append]
    simp only [ih]

/-- A program is executed as one sequence of blocks. -/
theorem execute_eq (p : Program) :
    h.execute client p = h.runBlocks client p.schedule ⟨h.sharedCache, .zero⟩ :=
  runIterations_eq _ _ _

end Host

end AccessTrace
