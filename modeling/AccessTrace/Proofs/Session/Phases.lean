import AccessTrace.Proofs.Machine.Steps
import AccessTrace.Session.TraceState

/-!
# Phases, buffers and sinks

The phase of a trace state, its buffer and its sink are set apart from each other, and each step
changes some of them. They stay in step all the same: between two steps a state is active with a
buffer and a sink, or new or closed without. While a step runs, a state may be flushing or
finalizing, which is not seen from outside: a flush comes back to the active state however it ends,
and a finalized state is closed even if its counters could not be merged.
-/

namespace AccessTrace

namespace Totals

/-- The counters of a thread are added to the totals, and entered once behind those that were
there. -/
structure Gains (before : Totals) (entry : ThreadTotals) (after : Totals) : Prop where
  records : after.records = before.records + entry.records
  flushes : after.flushes = before.flushes + entry.flushes
  writeErrors : after.writeErrors = before.writeErrors + entry.writeErrors
  threads : after.threads = before.threads ++ [entry]
  started : after.started = before.started
  aborted : after.aborted = before.aborted

theorem gains_merge (before : Totals) (entry : ThreadTotals) :
    before.Gains entry (before.merge entry) :=
  ⟨rfl, rfl, rfl, rfl, rfl, rfl⟩

end Totals

namespace TraceState

variable {ω : Type} {s s' : TraceState ω} {x x' : TraceState ω × AddressSpace × Session ω}
  {b : TraceBuffer} {sink : Sink ω} {batch : List Record} {M M' : AddressSpace} {w : ω}
  {e : TraceError} {lock : TotalsLock}

/-- An active state that has the buffer and the sink. -/
structure Active (s : TraceState ω) (b : TraceBuffer) (sink : Sink ω) : Prop where
  phase : s.phase = .active
  buffer : s.buffer? = some b
  sink : s.sink? = some sink

/-- The state with its buffer and its sink given up. -/
def closed (s : TraceState ω) : TraceState ω :=
  { s with phase := .closed, buffer? := none, sink? := none }

/-- A state that was just created and made active. -/
def begun (thread : ThreadId) (b : TraceBuffer) (sink : Sink ω) : TraceState ω :=
  ⟨thread, .active, some b, some sink, .start thread⟩

theorem active_begun (thread : ThreadId) (b : TraceBuffer) (sink : Sink ω) :
    (begun thread b sink).Active b sink :=
  ⟨rfl, rfl, rfl⟩

theorem Active.counted (h : s.Active b sink) (totals : ThreadTotals) :
    ({ s with totals } : TraceState ω).Active b sink :=
  ⟨h.phase, h.buffer, h.sink⟩

theorem expect_of_eq {expected : Phase} (h : s.phase = expected) : s.expect expected = .ok () :=
  if_pos h

theorem expect_of_ne {expected : Phase} (h : s.phase ≠ expected) :
    s.expect expected = .error (.wrongPhase s.thread expected s.phase) :=
  if_neg h

/-! ## What each step does -/

theorem activate_of_uninitialized (hphase : s.phase = .uninitialized) (b : TraceBuffer)
    (sink : Sink ω) : s.activate b sink =
      .ok { s with phase := .active, buffer? := some b, sink? := some sink } := by
  unfold activate
  rw [expect_of_eq hphase]
  rfl

/-- Only a state that is new takes a buffer and a sink. -/
theorem activate_refused (hphase : s.phase ≠ .uninitialized) (b : TraceBuffer) (sink : Sink ω) :
    s.activate b sink = .error (.wrongPhase s.thread .uninitialized s.phase) := by
  unfold activate
  rw [expect_of_ne hphase]
  rfl

/-- A batch is written in every phase alike; nothing changes but the counters. -/
theorem writeBatch_counts (s : TraceState ω) (sink : Sink ω) (batch : List Record) (w : ω) :
    ∃ written w', ∀ phase, writeBatch { s with phase } sink batch w =
      ({ s with phase, totals := s.totals.count batch.length written }, w') := by
  unfold writeBatch
  cases sink.writeBatch batch w with
  | ok _ w' => exact ⟨true, w', fun _ => rfl⟩
  | error e w' => exact ⟨false, w', fun _ => rfl⟩

theorem Active.writeBatch (h : s.Active b sink) (batch : List Record) (w : ω) :
    (s.writeBatch sink batch w).1.Active b sink := by
  obtain ⟨written, w', hwrite⟩ := s.writeBatch_counts sink batch w
  rw [show s.writeBatch sink batch w = _ from hwrite s.phase]
  exact h.counted _

theorem hand_of_some (hsink : s.sink? = some sink) :
    s.hand batch w = s.writeBatch sink batch w := by
  unfold hand
  rw [hsink]

theorem hand_of_none (hsink : s.sink? = none) :
    s.hand batch w = ({ s with totals := s.totals.count batch.length true }, w) := by
  unfold hand
  rw [hsink]

/-- To hand a batch over is to count it, with a sink and without. -/
theorem hand_counts (s : TraceState ω) (batch : List Record) (w : ω) :
    ∃ written w', ∀ phase, hand { s with phase } batch w =
      ({ s with phase, totals := s.totals.count batch.length written }, w') := by
  rcases Option.eq_none_or_eq_some s.sink? with hsink | ⟨sink, hsink⟩
  · exact ⟨true, w, fun phase => hand_of_none (s := { s with phase }) hsink⟩
  · obtain ⟨written, w', hwrite⟩ := s.writeBatch_counts sink batch w
    refine ⟨written, w', fun phase => ?_⟩
    exact (hand_of_some (s := { s with phase }) hsink).trans (hwrite phase)

theorem flush_refused {y : TraceState ω × AddressSpace × ω} (hphase : y.1.phase ≠ .active) :
    flush y = .error (.wrongPhase y.1.thread .active y.1.phase) y := by
  unfold flush
  rw [expect_of_ne hphase]

/-- An active state is flushing while it is drained, and active again afterwards. -/
theorem flush_of_ok {w' : ω} {n : Nat} (hphase : s.phase = .active)
    (h : drainToSink ({ s with phase := .flushing }, M, w) = .ok n (s', M', w')) :
    flush (s, M, w) = .ok n ({ s' with phase := .active }, M', w') := by
  unfold flush during
  simp only [expect_of_eq hphase, h]

theorem flush_of_failed {w' : ω} (hphase : s.phase = .active)
    (h : drainToSink ({ s with phase := .flushing }, M, w) = .error e (s', M', w')) :
    flush (s, M, w) = .error e ({ s' with phase := .active }, M', w') := by
  unfold flush during
  simp only [expect_of_eq hphase, h]

theorem drainToSink_of_none (hbuffer : s.buffer? = none) :
    drainToSink (s, M, w) = .error (.notStarted s.thread) (s, M, w) := by
  unfold drainToSink
  simp only [hbuffer]

theorem drainToSink_of_error (hbuffer : s.buffer? = some b) (hdrain : b.drain M = .error e M') :
    drainToSink (s, M, w) = .error e (s, M', w) := by
  unfold drainToSink
  simp only [hbuffer, hdrain]

theorem drainToSink_of_nothing (hbuffer : s.buffer? = some b) (hdrain : b.drain M = .ok [] M') :
    drainToSink (s, M, w) = .ok 0 (s, M', w) := by
  unfold drainToSink
  simp only [hbuffer, hdrain]
  rfl

theorem drainToSink_of_batch (hbuffer : s.buffer? = some b) (hdrain : b.drain M = .ok batch M')
    (hbatch : batch ≠ []) : drainToSink (s, M, w) =
      .ok batch.length ((s.hand batch w).1, M', (s.hand batch w).2) := by
  have hempty : batch.isEmpty = false := List.isEmpty_eq_false_iff.2 hbatch
  unfold drainToSink
  simp only [hbuffer, hdrain, hempty]
  rfl

/-- An active state that has lost its buffer is told so. -/
theorem flush_of_none (hphase : s.phase = .active) (hbuffer : s.buffer? = none) :
    flush (s, M, w) = .error (.notStarted s.thread) (s, M, w) := by
  rw [flush_of_failed hphase (drainToSink_of_none (s := { s with phase := .flushing }) hbuffer)]
  rw [← hphase]

theorem flush_of_error (hphase : s.phase = .active) (hbuffer : s.buffer? = some b)
    (hdrain : b.drain M = .error e M') : flush (s, M, w) = .error e (s, M', w) := by
  rw [flush_of_failed hphase
    (drainToSink_of_error (s := { s with phase := .flushing }) hbuffer hdrain), ← hphase]

theorem flush_of_nothing (hphase : s.phase = .active) (hbuffer : s.buffer? = some b)
    (hdrain : b.drain M = .ok [] M') : flush (s, M, w) = .ok 0 (s, M', w) := by
  rw [flush_of_ok hphase
    (drainToSink_of_nothing (s := { s with phase := .flushing }) hbuffer hdrain), ← hphase]

/-- What is drained is handed over, and counted also if there is nothing to hand it to. -/
theorem flush_of_batch (hphase : s.phase = .active) (hbuffer : s.buffer? = some b)
    (hdrain : b.drain M = .ok batch M') (hbatch : batch ≠ []) :
    flush (s, M, w) = .ok batch.length ((s.hand batch w).1, M', (s.hand batch w).2) := by
  obtain ⟨written, w', hhand⟩ := s.hand_counts batch w
  have hdrained := drainToSink_of_batch (s := { s with phase := .flushing }) (w := w) hbuffer
    hdrain hbatch
  rw [hhand .flushing] at hdrained
  rw [flush_of_ok hphase hdrained, show s.hand batch w = _ from hhand s.phase, hphase]

theorem Active.flush_of_batch (h : s.Active b sink) (hdrain : b.drain M = .ok batch M')
    (hbatch : batch ≠ []) : flush (s, M, w) = .ok batch.length
      ((s.writeBatch sink batch w).1, M', (s.writeBatch sink batch w).2) := by
  rw [TraceState.flush_of_batch h.phase h.buffer hdrain hbatch, hand_of_some h.sink]

theorem inSession_of_ok {α : Type} (session : Session ω) {step : CollectM ω ω α} {a : α}
    (h : step (s, M, session.world) = .ok a (s', M', w)) :
    inSession step (s, M, session) = .ok a (s', M', { session with world := w }) := by
  unfold inSession
  simp only [h]

theorem inSession_of_error {α : Type} (session : Session ω) {step : CollectM ω ω α}
    (h : step (s, M, session.world) = .error e (s', M', w)) :
    inSession step (s, M, session) = .error e (s', M', { session with world := w }) := by
  unfold inSession
  simp only [h]

theorem finishSink_eq (sink : Sink ω) (w : ω) : finishSink sink w = Step.final sink.finish w := by
  unfold finishSink Step.final
  cases sink.finish w <;> rfl

/-- Steps that need an active state refuse any other, and change nothing. -/
theorem refused_of_not_active (lock : TotalsLock) (hphase : x.1.phase ≠ .active) :
    inSession flush x = .error (.wrongPhase x.1.thread .active x.1.phase) x ∧
      finalizeBehind lock x = .error (.wrongPhase x.1.thread .active x.1.phase) x := by
  have hflush := inSession_of_error x.2.2 (flush_refused (y := (x.1, x.2.1, x.2.2.world)) hphase)
  exact ⟨hflush, Step.bind_of_error (Step.discard_of_error hflush)⟩

@[simp] theorem releaseBuffer_phase (s : TraceState ω) (phase : Phase) :
    releaseBuffer { s with phase } = s.releaseBuffer := rfl

@[simp] theorem closeSink_phase (s : TraceState ω) (phase : Phase) :
    closeSink { s with phase } = s.closeSink := rfl

theorem Active.releaseBuffer (h : s.Active b sink) : s.releaseBuffer = b.release := by
  unfold TraceState.releaseBuffer
  rw [h.buffer]

theorem Active.closeSink (h : s.Active b sink) (w : ω) : s.closeSink w = finishSink sink w := by
  unfold TraceState.closeSink
  rw [h.sink]

/-- A close gives everything up, whatever becomes of the merge and of the buffer. -/
theorem final_close (lock : TotalsLock) (x : TraceState ω × AddressSpace × Session ω) :
    Step.final (close lock) x =
      (x.1.closed, Step.final x.1.releaseBuffer x.2.1,
        ⟨(lock.guard (x.2.2.totals.merge x.1.totals)).toOption.getD x.2.2.totals,
          x.1.closeSink x.2.2.world⟩) := by
  obtain ⟨s, M, session⟩ := x
  unfold Step.final close during giveUp
  cases lock <;> cases hreleased : s.releaseBuffer M <;>
    simp only [TotalsLock.guard, releaseBuffer_phase, hreleased] <;> rfl

/-- Behind a broken lock nothing is merged and everything is given up, and the lock is what is
reported, also if the buffer could not be given back. -/
theorem close_of_broken (cause : TraceError) (x : TraceState ω × AddressSpace × Session ω) :
    close (.broken cause) x = .error cause (x.1.closed, Step.final x.1.releaseBuffer x.2.1,
      ⟨x.2.2.totals, x.1.closeSink x.2.2.world⟩) := by
  obtain ⟨s, M, session⟩ := x
  unfold Step.final close during giveUp
  cases hreleased : s.releaseBuffer M <;>
    simp only [TotalsLock.guard, releaseBuffer_phase, hreleased] <;> rfl

theorem Active.close_of_release (h : s.Active b sink) (hrelease : b.release M = .ok () M')
    (session : Session ω) : close .intact (s, M, session) = .ok s.totals
      (s.closed, M', ⟨session.totals.merge s.totals, finishSink sink session.world⟩) := by
  unfold close during giveUp
  simp only [TotalsLock.guard, releaseBuffer_phase, closeSink_phase, h.releaseBuffer, h.closeSink,
    hrelease]
  rfl

theorem finalizeBehind_of_error (hflush : inSession flush x = .error e x') :
    finalizeBehind lock x = .error e x' :=
  Step.bind_of_error (Step.discard_of_error hflush)

theorem finalizeBehind_of_ok {n : Nat} (hflush : inSession flush x = .ok n x') :
    finalizeBehind lock x = close lock x' :=
  Step.bind_of_ok (Step.discard_of_ok hflush)

/-! ## What becomes of the phase -/

/-- A step that changes the counters of a state and nothing else in it, and keeps the totals of the
session. -/
def Keeps {α : Type} (step : CollectM ω (Session ω) α)
    (x : TraceState ω × AddressSpace × Session ω) : Prop :=
  (∃ totals, (Step.final step x).1 = { x.1 with totals }) ∧
    (Step.final step x).2.2.totals = x.2.2.totals

/-- Every flush, also one that is refused or fails. -/
theorem keeps_flush (x : TraceState ω × AddressSpace × Session ω) : Keeps (inSession flush) x := by
  obtain ⟨s, M, session⟩ := x
  by_cases hphase : s.phase = .active
  · rcases Option.eq_none_or_eq_some s.buffer? with hbuffer | ⟨b, hbuffer⟩
    · unfold Keeps
      rw [Step.final_of_error (inSession_of_error session (flush_of_none hphase hbuffer))]
      exact ⟨⟨s.totals, rfl⟩, rfl⟩
    cases hdrain : b.drain M with
    | error e M' =>
      unfold Keeps
      rw [Step.final_of_error (inSession_of_error session (flush_of_error hphase hbuffer hdrain))]
      exact ⟨⟨s.totals, rfl⟩, rfl⟩
    | ok batch M' =>
      unfold Keeps
      by_cases hbatch : batch = []
      · subst hbatch
        rw [Step.final_of_ok (inSession_of_ok session (flush_of_nothing hphase hbuffer hdrain))]
        exact ⟨⟨s.totals, rfl⟩, rfl⟩
      · rw [Step.final_of_ok
          (inSession_of_ok session (flush_of_batch hphase hbuffer hdrain hbatch))]
        obtain ⟨written, w', hhand⟩ := s.hand_counts batch session.world
        rw [show s.hand batch session.world = _ from hhand s.phase]
        exact ⟨⟨_, rfl⟩, rfl⟩
  · unfold Keeps
    rw [Step.final_of_error (refused_of_not_active .intact hphase).1]
    exact ⟨⟨s.totals, rfl⟩, rfl⟩

/-- A finalization changes nothing but the counters if its flush fails, and else closes the state;
it merges the counters if the lock is intact. -/
theorem final_finalizeBehind (lock : TotalsLock)
    (x : TraceState ω × AddressSpace × Session ω) :
    Keeps (finalizeBehind lock) x ∨ x.1.phase = .active ∧ ∃ totals,
      (Step.final (finalizeBehind lock) x).1 = { x.1 with totals }.closed ∧
      (Step.final (finalizeBehind lock) x).2.2.totals =
        (lock.guard (x.2.2.totals.merge totals)).toOption.getD x.2.2.totals := by
  by_cases hphase : x.1.phase = .active
  · have hkeeps := keeps_flush x
    unfold Keeps at hkeeps ⊢
    cases hflush : inSession flush x with
    | error e x' =>
      rw [Step.final_of_error hflush] at hkeeps
      rw [Step.final_of_error (finalizeBehind_of_error hflush)]
      exact Or.inl hkeeps
    | ok n x' =>
      rw [Step.final_of_ok hflush] at hkeeps
      obtain ⟨⟨totals, hstate⟩, htotals⟩ := hkeeps
      have hfinal : Step.final (finalizeBehind lock) x = Step.final (close lock) x' := by
        unfold Step.final
        rw [finalizeBehind_of_ok hflush]
      rw [hfinal, final_close, hstate, htotals]
      exact Or.inr ⟨hphase, totals, rfl, rfl⟩
  · refine Or.inl ?_
    unfold Keeps
    rw [Step.final_of_error (refused_of_not_active lock hphase).2]
    exact ⟨⟨x.1.totals, rfl⟩, rfl⟩

/-! ## Phase, buffer and sink in step -/

/-- A state between two steps: it has a buffer and a sink exactly while it is active. -/
structure InStep (s : TraceState ω) : Prop where
  phase : s.phase = .uninitialized ∨ s.phase = .active ∨ s.phase = .closed
  buffer : s.buffer?.isSome ↔ s.phase = .active
  sink : s.sink?.isSome ↔ s.phase = .active

theorem inStep_create (thread : ThreadId) : (create thread : TraceState ω).InStep :=
  ⟨Or.inl rfl, by simp [create], by simp [create]⟩

theorem inStep_closed (s : TraceState ω) : s.closed.InStep :=
  ⟨Or.inr (Or.inr rfl), by simp [closed], by simp [closed]⟩

theorem Active.inStep (h : s.Active b sink) : s.InStep := by
  refine ⟨Or.inr (Or.inl h.phase), ?_, ?_⟩
  · rw [h.buffer]
    exact iff_of_true rfl h.phase
  · rw [h.sink]
    exact iff_of_true rfl h.phase

/-- A drain of a state in step finds a buffer, and a sink. -/
theorem InStep.exists_active (h : s.InStep) (hphase : s.phase = .active) :
    ∃ b sink, s.Active b sink := by
  obtain ⟨b, hbuffer⟩ := Option.isSome_iff_exists.1 (h.buffer.2 hphase)
  obtain ⟨sink, hsink⟩ := Option.isSome_iff_exists.1 (h.sink.2 hphase)
  exact ⟨b, sink, hphase, hbuffer, hsink⟩

theorem InStep.counted (h : s.InStep) (totals : ThreadTotals) :
    ({ s with totals } : TraceState ω).InStep :=
  ⟨h.phase, h.buffer, h.sink⟩

theorem active_of_activate (hok : s.activate b sink = .ok s') : s'.Active b sink := by
  by_cases hphase : s.phase = .uninitialized
  · rw [activate_of_uninitialized hphase] at hok
    obtain rfl := Except.ok.inj hok
    exact ⟨rfl, rfl, rfl⟩
  · rw [activate_refused hphase] at hok
    contradiction

theorem InStep.keeps {α : Type} {step : CollectM ω (Session ω) α} (h : x.1.InStep)
    (hkeeps : Keeps step x) : (Step.final step x).1.InStep := by
  obtain ⟨⟨totals, hstate⟩, _⟩ := hkeeps
  rw [hstate]
  exact h.counted totals

theorem InStep.flush (h : x.1.InStep) : (Step.final (inSession flush) x).1.InStep :=
  h.keeps (keeps_flush x)

/-- Finalization keeps phase, buffer and sink in step behind every lock. -/
theorem InStep.finalizeBehind (h : x.1.InStep) (lock : TotalsLock) :
    (Step.final (finalizeBehind lock) x).1.InStep := by
  rcases final_finalizeBehind lock x with hkeeps | ⟨_, totals, hstate, _⟩
  · exact h.keeps hkeeps
  · rw [hstate]
    exact inStep_closed _

end TraceState

end AccessTrace
