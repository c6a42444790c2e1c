import AccessTrace.Proofs.FastPath.Passage
import AccessTrace.Proofs.Session.Collection

/-!
# Collecting with fast paths

The routine that fast paths call is the flush routine. A fast path adds one record to what is
collected, and makes a batch of the pending records if the buffer is full then; an application that
has no access to the buffer does not notice.
-/

namespace AccessTrace

namespace Injector

variable {ω : Type} {cpu : Cpu (TraceState ω) (Session ω)} {f : Fragment} {j : Injector}
  {b : TraceBuffer} {sink : Sink ω} {start : TraceState ω × Session ω} {k : Collected} {index : Nat}
  {s : Running (TraceState ω) (Session ω)} {divert resume : Label}

/-- Fast paths of a fragment divert to the flush routine. -/
abbrev Flushes (cpu : Cpu (TraceState ω) (Session ω)) (j : Injector) (f : Fragment) : Prop :=
  Diverts cpu j (flushRoutine j.field) f

/-- From `counts` and `s` to `counts'` and `s'` records were collected, and nothing was done that
an application which has no access to the buffer could notice. -/
structure Recorded (field : FieldIndex) (b : TraceBuffer) (sink : Sink ω)
    (start : TraceState ω × Session ω) (k k' : Collected) (counts counts' : Counts)
    (s s' : Running (TraceState ω) (Session ω)) : Prop where
  collecting : Collecting field b sink start k' s'
  machine : s'.thread.guest.machine = s.thread.guest.machine
  confined : b.Confined s.thread.guest.memory s'.thread.guest.memory
  app : counts'.app = counts.app
  hostCalls : counts'.hostCalls + k.batches.length = counts.hostCalls + k'.batches.length

theorem Recorded.trans {field : FieldIndex} {k₁ k₂ k₃ : Collected}
    {counts₁ counts₂ counts₃ : Counts} {s₁ s₂ s₃ : Running (TraceState ω) (Session ω)}
    (h : Recorded field b sink start k₁ k₂ counts₁ counts₂ s₁ s₂)
    (h' : Recorded field b sink start k₂ k₃ counts₂ counts₃ s₂ s₃) :
    Recorded field b sink start k₁ k₃ counts₁ counts₃ s₁ s₃ := by
  have hcalls := h.hostCalls
  have hcalls' := h'.hostCalls
  exact ⟨h'.collecting, h'.machine.trans h.machine, h.confined.trans h'.confined,
    h'.app.trans h.app, by omega⟩

/-- A record that was put into the buffer is pending, whatever is in the registers and the spill
slots. -/
theorem collecting_appended {r : Record} {M : AddressSpace}
    (hs : Collecting j.field b sink start k s) (hroom : k.pending.length < b.capacity)
    (happended : b.Appended k.pending.length r s.thread.guest.memory M) (machine : MachineState)
    (spill : Vector Word spillSlotCount) :
    Collecting j.field b sink start ⟨k.batches, k.pending ++ [r]⟩ (s.at machine M spill) ∧
      b.Confined s.thread.guest.memory M := by
  obtain ⟨hholds, hconfined⟩ := happended.holds hs.holds hroom
  exact ⟨⟨hs.active, hs.word, hs.data, hs.world, hholds⟩, hconfined⟩

/-- The flush routine is one of the routines that a path may call: wherever it is called with the
record in the buffer it succeeds, and leaves the spill slots alone. -/
theorem flushRoutine_succeeds {r : Record} (hs : Collecting j.field b sink start k s)
    (hroom : k.pending.length < b.capacity) {machine : MachineState} {M : AddressSpace}
    {spill : Vector Word spillSlotCount}
    (happended : b.Appended k.pending.length r s.thread.guest.memory M) :
    ∃ t, flushRoutine j.field (s.at machine M spill) = .ok () t ∧ t.thread.spill = spill := by
  obtain ⟨hfilled, _⟩ := collecting_appended hs hroom happended machine spill
  obtain ⟨t, ht, _, hspill, _⟩ := hfilled.flush (by simp)
  exact ⟨t, ht, hspill⟩

/-- What a path does, where the routine is the flush routine. -/
theorem Passed.recorded {r : Record} {counts counts' : Counts}
    {s' : Running (TraceState ω) (Session ω)} (hs : Collecting j.field b sink start k s)
    (hpacked : k.Packed b.capacity)
    (hpassed : Passed b k.pending.length r (flushRoutine j.field) counts counts' s s') :
    Recorded j.field b sink start k (k.add b.capacity r) counts counts' s s' := by
  obtain ⟨machine', M', spill', happended, _, houtcome⟩ := hpassed.outcome
  have hcalls := hpassed.hostCalls
  have hmachine := hpassed.machine_eq
  obtain ⟨hfilled, hconfined⟩ := collecting_appended hs hpacked.room happended machine' spill'
  unfold Collected.add
  by_cases hfull : k.pending.length + 1 = b.capacity
  · rw [if_pos hfull] at houtcome hcalls ⊢
    obtain ⟨t, ht, rfl⟩ := houtcome
    obtain ⟨t', ht', hflushed, _, hconfined'⟩ := hfilled.flush (by simp)
    obtain rfl : t = t' := by
      rw [ht] at ht'
      injection ht'
    refine ⟨⟨hflushed.active, hflushed.word, hflushed.data, hflushed.world, hflushed.holds⟩,
      hmachine, hconfined.trans hconfined', hpassed.app, ?_⟩
    rw [hcalls, List.length_append, List.length_singleton]
    omega
  · rw [if_neg hfull] at houtcome hcalls ⊢
    subst houtcome
    exact ⟨⟨hs.active, hs.word, hs.data, hs.world, hfilled.holds⟩, hmachine, hconfined, hpassed.app,
      by rw [hcalls, Nat.add_zero]⟩

/-- A path adds the record of its access to what is collected, and hands a full buffer over. -/
theorem reaches_path {usesCounter : Bool} {pc : Word} {access : Access} (counts : Counts)
    (hflush : Flushes cpu j f)
    (hne : resume ≠ divert)
    (hhas : f.Has index ((j.path usesCounter pc access divert resume).map .injected))
    (hbehind : ∀ i, index + (j.path usesCounter pc access divert resume).length ≤ i →
      ∀ node, f.nodes[i]? = some node → node.marks divert = false ∧ node.marks resume = false)
    (hs : Collecting j.field b sink start k s) (hpacked : k.Packed b.capacity) :
    ∃ n counts' s', n ≤ (j.path usesCounter pc access divert resume).length + 2 ∧
      cpu.Reaches n ⟨f, index, counts, s⟩
        ⟨f, index + (j.path usesCounter pc access divert resume).length, counts', s'⟩ ∧
      Recorded j.field b sink start k
        (k.add b.capacity (access.record pc s.thread.guest.machine)) counts counts' s s' := by
  have hready := hs.holds.ready hpacked.room
  obtain ⟨n, counts', s', hn, hreaches, hpassed⟩ := reaches_passed counts hflush hne hhas hbehind
    hs.word hready fun _ _ _ happended _ => flushRoutine_succeeds hs hpacked.room happended
  exact ⟨n, counts', s', hn, hreaches, hpassed.recorded hs hpacked⟩

end Injector

end AccessTrace
