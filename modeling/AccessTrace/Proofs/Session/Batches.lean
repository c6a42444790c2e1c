import AccessTrace.Proofs.Session.Collection

/-!
# Batches

A list of records is cut into full batches and a shorter last one. Cutting it record by record, as
a buffer that is drained whenever it is full does, gives such batches; their number is that of
the full buffers, and one more if something is left. A sink that takes all of them leaves the
counters without a write error.
-/

namespace AccessTrace

/-- The batches are the records in order; only the last may have fewer than `capacity`. -/
structure Cut (capacity : Nat) (records : List Record) (batches : List (List Record)) : Prop where
  flatten : batches.flatten = records
  nonempty : ∀ batch ∈ batches, batch ≠ []
  full : ∀ batch ∈ batches.dropLast, batch.length = capacity
  atMost : ∀ batch ∈ batches, batch.length ≤ capacity

namespace Collected

variable {capacity : Nat} {k : Collected}

theorem flatten_flushed (k : Collected) : k.flushed.flatten = k.all := by
  unfold flushed all
  split
  · rename_i hempty
    rw [hempty, List.append_nil]
  · rw [List.flatten_append, List.flatten_singleton]

theorem Packed.cut (h : k.Packed capacity) : Cut capacity k.all k.flushed := by
  have hroom := h.room
  have hbatch {batch : List Record} (hb : batch ∈ k.flushed) : batch.length = capacity ∨
      batch = k.pending ∧ k.pending ≠ [] := by
    unfold flushed at hb
    split at hb
    · exact Or.inl (h.full batch hb)
    · rename_i hpending
      rcases List.mem_append.1 hb with hb | hb
      · exact Or.inl (h.full batch hb)
      · exact Or.inr ⟨List.mem_singleton.1 hb, hpending⟩
  refine ⟨flatten_flushed k, fun batch hb hnil => ?_, fun batch hb => ?_, fun batch hb => ?_⟩
  · rcases hbatch hb with hlength | ⟨rfl, hpending⟩
    · rw [hnil, List.length_nil] at hlength
      omega
    · exact hpending hnil
  · unfold flushed at hb
    split at hb
    · exact h.full batch (List.dropLast_subset _ hb)
    · rw [List.dropLast_concat] at hb
      exact h.full batch hb
  · rcases hbatch hb with hlength | ⟨rfl, _⟩ <;> omega

theorem length_flatten_of_full {batches : List (List Record)}
    (h : ∀ batch ∈ batches, batch.length = capacity) :
    batches.flatten.length = batches.length * capacity := by
  induction batches with
  | nil => rw [List.flatten_nil, List.length_nil, List.length_nil, Nat.zero_mul]
  | cons batch batches ih =>
    rw [List.flatten_cons, List.length_append, h batch (by simp),
      ih fun b hb => h b (List.mem_cons_of_mem _ hb), List.length_cons, Nat.add_mul, Nat.one_mul,
      Nat.add_comm]

/-- The full batches have all records but those that are pending. -/
theorem Packed.length_all (h : k.Packed capacity) :
    k.all.length = k.batches.length * capacity + k.pending.length := by
  rw [all, List.length_append, length_flatten_of_full h.full]

theorem Packed.length_batches (h : k.Packed capacity) :
    k.batches.length = k.all.length / capacity := by
  have hroom := h.room
  rw [h.length_all, Nat.mul_comm, Nat.mul_add_div (by omega), Nat.div_eq_of_lt hroom, Nat.add_zero]

theorem Packed.length_flushed (h : k.Packed capacity) :
    k.flushed.length = (k.all.length + (capacity - 1)) / capacity := by
  have hroom := h.room
  rw [h.length_all, Nat.mul_comm, Nat.add_assoc, Nat.mul_add_div (by omega)]
  unfold flushed
  split
  · rename_i hempty
    rw [hempty, List.length_nil, Nat.zero_add, Nat.div_eq_of_lt (by omega), Nat.add_zero]
  · rename_i hpending
    have hpos : 0 < k.pending.length := List.length_pos_iff.2 hpending
    have hone : (k.pending.length + (capacity - 1)) / capacity = 1 := by
      rw [Nat.div_eq_iff (by omega)]
      omega
    rw [hone, List.length_append, List.length_singleton]

end Collected

/-! ## Sinks that accept what they get -/

variable {ω : Type}

/-- The sink takes the batches one after the other, and none of them fails. -/
inductive Sink.Writes (sink : Sink ω) : List (List Record) → ω → ω → Prop where
  | nil (world : ω) : Writes sink [] world world
  | cons {batch : List Record} {batches : List (List Record)} {world world₁ world₂ : ω}
    (h : sink.writeBatch batch world = .ok () world₁) (hrest : Writes sink batches world₁ world₂) :
    Writes sink (batch :: batches) world world₂

namespace TraceState

/-- Batches that the sink takes are counted, and nothing else. -/
theorem writeBatches_of_writes {sink : Sink ω} {batches : List (List Record)} {world world' : ω}
    (h : sink.Writes batches world world') (s : TraceState ω) :
    writeBatches sink batches (s, world) =
      ({ s with totals := { s.totals with
          records := s.totals.records + batches.flatten.length
          flushes := s.totals.flushes + batches.length } }, world') := by
  induction h generalizing s with
  | nil => rfl
  | @cons batch batches world world₁ world₂ hbatch _ ih =>
    have hfirst : s.writeBatch sink batch world =
        ({ s with totals := s.totals.count batch.length true }, world₁) := by
      unfold writeBatch
      rw [hbatch]
    change writeBatches sink batches (s.writeBatch sink batch world) = _
    rw [hfirst, ih]
    simp only [ThreadTotals.count, if_true, Nat.add_zero, List.flatten_cons, List.length_append,
      List.length_cons, Nat.add_assoc, Nat.add_comm 1]

end TraceState

end AccessTrace
