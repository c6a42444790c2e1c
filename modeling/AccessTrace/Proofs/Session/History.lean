import AccessTrace.Proofs.Record.Fifo
import AccessTrace.Proofs.Session.Collection

/-!
# What becomes of the records of a thread

The steps of a trace state, in any order and with any sink, between records that go into its
buffer. A journal keeps what the sink is handed and whether the sink took it. The batches of the
journal and what is pending in the buffer are all records that went in, in order; the counters are
those of the journal; and the totals of the session get them once, when the state closes.
-/

namespace AccessTrace

variable {ω : Type}

/-- A world, and the batches that a sink was handed in it, each with whether it was taken. -/
structure Journal (ω : Type) where
  world : ω
  batches : List (List Record × Bool)

namespace Journal

/-- All records that were handed over. -/
def records (j : Journal ω) : List Record :=
  (j.batches.map Prod.fst).flatten

/-- The counters of a thread that has handed over these batches. -/
def totals (j : Journal ω) (thread : ThreadId) : ThreadTotals :=
  ⟨thread, j.records.length, j.batches.length, j.batches.countP fun entry => !entry.2⟩

def note (j : Journal ω) (batch : List Record) (taken : Bool) (world : ω) : Journal ω :=
  ⟨world, j.batches ++ [(batch, taken)]⟩

@[simp] theorem records_note (j : Journal ω) (batch : List Record) (taken : Bool) (world : ω) :
    (j.note batch taken world).records = j.records ++ batch := by
  simp [records, note]

/-- A batch is counted as it is noted. -/
theorem totals_note (j : Journal ω) (thread : ThreadId) (batch : List Record) (taken : Bool)
    (world : ω) :
    (j.note batch taken world).totals thread = (j.totals thread).count batch.length taken := by
  unfold totals
  rw [records_note, List.length_append]
  simp only [note, List.length_append, List.countP_append]
  cases taken <;> rfl

end Journal

/-- The sink that notes in a journal what another sink is handed. -/
def Sink.journaled (sink : Sink ω) : Sink (Journal ω) where
  writeBatch batch := fun j =>
    match sink.writeBatch batch j.world with
    | .ok _ world => .ok () (j.note batch true world)
    | .error e world => .error e (j.note batch false world)
  finish := fun j =>
    match sink.finish j.world with
    | .ok _ world => .ok () { j with world }
    | .error e world => .error e { j with world }
  abandon j := { j with world := sink.abandon j.world }

/-- A trace state with the memory of its thread and the session around it. -/
abbrev Tracing (ω : Type) := TraceState (Journal ω) × AddressSpace × Session (Journal ω)

/-- What can happen to a trace state and its buffer. -/
inductive TraceAction (ω : Type) where
  | activate (buffer : TraceBuffer) (sink : Sink ω)
  | flush
  | finalize
  | append (r : Record)
  /-- An operation on the memory that is not one of the buffer. -/
  | other (op : MemoryOperation)

namespace TraceAction

/-- Records go into the buffer `b`. A state that does not take a sink gives it up. -/
def perform (b : TraceBuffer) : TraceAction ω → Tracing ω → Tracing ω
  | activate buffer sink, (s, memory, session) =>
    match s.activate buffer sink.journaled with
    | .ok s => (s, memory, session)
    | .error _ => (s, memory, { session with world := sink.journaled.abandon session.world })
  | flush, x => Step.final (TraceState.inSession TraceState.flush) x
  | finalize, x => Step.final TraceState.finalize x
  | append r, (s, memory, session) => (s, Step.final (b.append r) memory, session)
  | other op, (s, memory, session) => (s, op.perform memory, session)

/-- All that happens, one after the other. -/
def run (b : TraceBuffer) (actions : List (TraceAction ω)) (x : Tracing ω) : Tracing ω :=
  actions.foldl (fun x a => a.perform b x) x

/-- The record that goes into the buffer. -/
def record? : TraceAction ω → Option Record
  | append r => some r
  | _ => none

/-- All records that go into the buffer, in order. -/
def appended (actions : List (TraceAction ω)) : List Record :=
  actions.filterMap record?

/-- The state takes the buffer `b` if it takes any, and until the state is closed records go into
the buffer only while there is room, and nothing else touches it. -/
def Allowed (b : TraceBuffer) (x : Tracing ω) : TraceAction ω → Prop
  | activate buffer _ => x.1.phase = .uninitialized → buffer = b
  | flush | finalize => True
  | append _ => x.1.phase ≠ .closed ∧ ∃ n, b.pending x.2.1 = .ok n ∧ n < b.capacity
  | other op => x.1.phase ≠ .closed → ¬ op.Touches b.headerAddress BufferHeader.length ∧
      ¬ op.Touches b.base b.storageLength

/-- Every action is allowed where it comes. -/
def AllAllowed (b : TraceBuffer) : (x : Tracing ω) → List (TraceAction ω) → Prop
  | _, [] => True
  | x, a :: rest => a.Allowed b x ∧ AllAllowed b (a.perform b x) rest

/-! ## Phase, buffer and sink -/

variable {b : TraceBuffer} {x : Tracing ω}

/-- Every action keeps phase, buffer and sink in step, whether it is allowed or not. -/
theorem inStep_perform (h : x.1.InStep) (a : TraceAction ω) : (a.perform b x).1.InStep := by
  obtain ⟨s, M, session⟩ := x
  cases a with
  | activate buffer sink =>
    unfold perform
    cases hactivate : s.activate buffer sink.journaled with
    | ok s' =>
      simp only [hactivate]
      exact (TraceState.active_of_activate hactivate).inStep
    | error e =>
      simp only [hactivate]
      exact h
  | flush => exact TraceState.InStep.flush h
  | finalize => exact TraceState.InStep.finalizeBehind h .intact
  | append r => exact h
  | other op => exact h

theorem inStep_run (h : x.1.InStep) (actions : List (TraceAction ω)) :
    (run b actions x).1.InStep := by
  induction actions generalizing x with
  | nil => exact h
  | cons a rest ih => exact ih (inStep_perform h a)

end TraceAction

namespace Tracing

variable {b : TraceBuffer} {thread : ThreadId} {start : Totals} {records pending : List Record}
  {x : Tracing ω}

/-- The records went into the buffer `b`, and the last of them are pending there; `start` are the
totals of the session from before. -/
structure Recorded (b : TraceBuffer) (thread : ThreadId) (start : Totals)
    (records pending : List Record) (x : Tracing ω) : Prop where
  all : x.2.2.world.records ++ pending = records
  nonempty : ∀ entry ∈ x.2.2.world.batches, entry.1 ≠ []
  totals : x.1.totals = x.2.2.world.totals thread
  thread : x.1.thread = thread
  inStep : x.1.InStep
  /-- An active state has the buffer, and a sink that keeps the journal. -/
  active : x.1.phase = .active → ∃ sink : Sink ω, x.1.Active b sink.journaled
  queue : x.1.phase ≠ .closed → b.Queue pending x.2.1 ∧ x.2.2.totals = start
  closed : x.1.phase = .closed → pending = [] ∧ start.Gains x.1.totals x.2.2.totals

/-! ## Handing batches over -/

theorem writeBatch_journaled (s : TraceState (Journal ω)) (sink : Sink ω) (batch : List Record)
    (j : Journal ω) : ∃ taken world, s.writeBatch sink.journaled batch j =
      ({ s with totals := s.totals.count batch.length taken }, j.note batch taken world) := by
  unfold TraceState.writeBatch Sink.journaled
  cases hwrite : sink.writeBatch batch j.world with
  | ok _ world =>
    refine ⟨true, world, ?_⟩
    simp only [hwrite]
  | error e world =>
    refine ⟨false, world, ?_⟩
    simp only [hwrite]

/-- What was pending is a batch of the journal after it was handed over. -/
theorem Recorded.hand {s : TraceState (Journal ω)} {M M' : AddressSpace}
    {session : Session (Journal ω)} (h : Recorded b thread start records pending (s, M, session))
    (hopen : s.phase ≠ .closed) (hpending : pending ≠ []) (hqueue : b.Queue [] M') (taken : Bool)
    (world : ω) : Recorded b thread start records []
      ({ s with totals := s.totals.count pending.length taken }, M',
        { session with world := session.world.note pending taken world }) := by
  constructor
  · rw [List.append_nil, Journal.records_note]
    exact h.all
  · intro entry hentry
    rcases List.mem_append.1 hentry with hentry | hentry
    · exact h.nonempty entry hentry
    · obtain rfl := List.mem_singleton.1 hentry
      exact hpending
  · rw [Journal.totals_note]
    exact congrArg (·.count pending.length taken) h.totals
  · exact h.thread
  · exact h.inStep.counted _
  · intro hphase
    obtain ⟨sink, hactive⟩ := h.active hphase
    exact ⟨sink, hactive.counted _⟩
  · intro _
    exact ⟨hqueue, (h.queue hopen).2⟩
  · intro hclosed
    exact absurd hclosed hopen

/-- A flush hands over what is pending, if anything is. -/
theorem Recorded.flush_ok (h : Recorded b thread start records pending x)
    (hphase : x.1.phase = .active) (hopen : pending = [] → ¬ b.Blocked x.2.1) :
    ∃ x', TraceState.inSession TraceState.flush x = .ok pending.length x' ∧
      x'.1.phase = .active ∧ Recorded b thread start records [] x' := by
  obtain ⟨s, M, session⟩ := x
  obtain ⟨sink, hactive⟩ := h.active hphase
  have hnotClosed : s.phase ≠ .closed := hphase.trans_ne Phase.noConfusion
  obtain ⟨hqueue, htotals⟩ := h.queue hnotClosed
  obtain ⟨M', hdrain, hqueue', _⟩ := hqueue.drain hopen
  by_cases hpending : pending = []
  · subst hpending
    refine ⟨(s, M', session), ?_, hphase, ?_⟩
    · exact TraceState.inSession_of_ok session
        (TraceState.flush_of_nothing hphase hactive.buffer hdrain)
    · exact ⟨h.all, h.nonempty, h.totals, h.thread, h.inStep, h.active,
        fun _ => ⟨hqueue', htotals⟩, h.closed⟩
  · obtain ⟨taken, world, hwrite⟩ := writeBatch_journaled s sink pending session.world
    have hflush := hactive.flush_of_batch (w := session.world) hdrain hpending
    rw [hwrite] at hflush
    exact ⟨_, TraceState.inSession_of_ok session hflush, hphase,
      h.hand hnotClosed hpending hqueue' taken world⟩

/-- Where the empty buffer refuses to be drained, a flush changes nothing. -/
theorem Recorded.flush_of_blocked (h : Recorded b thread start records [] x)
    (hphase : x.1.phase = .active) (hblocked : b.Blocked x.2.1) :
    TraceState.inSession TraceState.flush x = .error (.machine (.fault b.base 0 .read)) x := by
  obtain ⟨s, M, session⟩ := x
  obtain ⟨sink, hactive⟩ := h.active hphase
  have hdrain := (h.queue (hphase.trans_ne Phase.noConfusion)).1.drain_of_blocked hblocked
  exact TraceState.inSession_of_error session
    (TraceState.flush_of_error hphase hactive.buffer hdrain)

/-- Closing merges the counters and keeps them. -/
theorem Recorded.close (h : Recorded b thread start records [] x) (hphase : x.1.phase = .active) :
    ∃ x', TraceState.close .intact x = .ok x.1.totals x' ∧ x'.1.phase = .closed ∧
      x'.1.totals = x.1.totals ∧ Recorded b thread start records [] x' := by
  obtain ⟨s, M, session⟩ := x
  obtain ⟨sink, hactive⟩ := h.active hphase
  obtain ⟨hqueue, htotals⟩ := h.queue (hphase.trans_ne Phase.noConfusion)
  obtain ⟨M', hrelease⟩ := hqueue.release
  have hfinish : (TraceState.finishSink sink.journaled session.world).batches =
      session.world.batches := by
    unfold TraceState.finishSink Sink.journaled
    dsimp only
    split <;> rename_i hresult <;> split at hresult <;> cases hresult <;> rfl
  refine ⟨(s.closed, M', ⟨session.totals.merge s.totals,
    TraceState.finishSink sink.journaled session.world⟩), ?_, rfl, rfl, ?_⟩
  · exact hactive.close_of_release hrelease session
  constructor
  · have hall := h.all
    unfold Journal.records at hall ⊢
    rwa [hfinish]
  · rw [hfinish]
    exact h.nonempty
  · have hcounted := h.totals
    unfold Journal.totals Journal.records at hcounted ⊢
    rwa [hfinish]
  · exact h.thread
  · exact TraceState.inStep_closed s
  · intro hphase'
    contradiction
  · intro hopen
    exact absurd rfl hopen
  · intro _
    rw [← htotals]
    exact ⟨rfl, session.totals.gains_merge s.totals⟩

/-- The last flush and what follows it. -/
theorem Recorded.finalize_ok (h : Recorded b thread start records pending x)
    (hphase : x.1.phase = .active) (hopen : pending = [] → ¬ b.Blocked x.2.1) :
    ∃ x', TraceState.finalize x = .ok x'.1.totals x' ∧ x'.1.phase = .closed ∧
      Recorded b thread start records [] x' := by
  obtain ⟨x₁, hflush, hphase₁, h₁⟩ := h.flush_ok hphase hopen
  obtain ⟨x₂, hclose, hclosed, htotals, h₂⟩ := h₁.close hphase₁
  refine ⟨x₂, ?_, hclosed, h₂⟩
  rw [htotals]
  exact (TraceState.finalizeBehind_of_ok hflush).trans hclose

theorem Recorded.finalize_of_blocked (h : Recorded b thread start records [] x)
    (hphase : x.1.phase = .active) (hblocked : b.Blocked x.2.1) :
    TraceState.finalize x = .error (.machine (.fault b.base 0 .read)) x :=
  TraceState.finalizeBehind_of_error (h.flush_of_blocked hphase hblocked)

/-! ## What the steps answer -/

/-- What the steps of a trace state do in a state of this account. -/
structure Answers (b : TraceBuffer) (thread : ThreadId) (start : Totals)
    (records pending : List Record) (x : Tracing ω) : Prop where
  phase : x.1.phase = .uninitialized ∨ x.1.phase = .active ∨ x.1.phase = .closed
  /-- Buffer and sink are there exactly while the state is active. -/
  present : x.1.buffer? = (if x.1.phase = .active then some b else none) ∧
    (x.1.sink?.isSome ↔ x.1.phase = .active)
  activate : x.1.phase = .uninitialized → ∀ sink : Sink ω,
    ((TraceAction.activate b sink).perform b x).1.phase = .active
  activateRefused : x.1.phase ≠ .uninitialized → ∀ buffer sink, x.1.activate buffer sink =
    .error (.wrongPhase thread .uninitialized x.1.phase)
  refused : x.1.phase ≠ .active →
    TraceState.inSession TraceState.flush x = .error (.wrongPhase thread .active x.1.phase) x ∧
    TraceState.finalize x = .error (.wrongPhase thread .active x.1.phase) x
  flush : x.1.phase = .active → (pending = [] → ¬ b.Blocked x.2.1) →
    ∃ x', TraceState.inSession TraceState.flush x = .ok pending.length x' ∧
      x'.1.phase = .active ∧ Recorded b thread start records [] x'
  finalize : x.1.phase = .active → (pending = [] → ¬ b.Blocked x.2.1) →
    ∃ x', TraceState.finalize x = .ok x'.1.totals x' ∧ x'.1.phase = .closed ∧
      Recorded b thread start records [] x'
  blocked : x.1.phase = .active → pending = [] → b.Blocked x.2.1 →
    TraceState.inSession TraceState.flush x = .error (.machine (.fault b.base 0 .read)) x ∧
    TraceState.finalize x = .error (.machine (.fault b.base 0 .read)) x
  merged : x.1.phase = .closed → x.1.totals.records = records.length

theorem Recorded.present (h : Recorded b thread start records pending x) :
    x.1.buffer? = (if x.1.phase = .active then some b else none) ∧
      (x.1.sink?.isSome ↔ x.1.phase = .active) := by
  refine ⟨?_, h.inStep.sink⟩
  by_cases hphase : x.1.phase = .active
  · obtain ⟨sink, hactive⟩ := h.active hphase
    rw [if_pos hphase, hactive.buffer]
  · rw [if_neg hphase]
    exact Option.not_isSome_iff_eq_none.1 fun hsome => hphase (h.inStep.buffer.1 hsome)

theorem Recorded.answers (h : Recorded b thread start records pending x) :
    Answers b thread start records pending x := by
  constructor
  · exact h.inStep.phase
  · exact h.present
  · intro hphase sink
    have hactivate := TraceState.activate_of_uninitialized hphase b sink.journaled
    obtain ⟨s, M, session⟩ := x
    simp only [TraceAction.perform, hactivate]
  · intro hphase buffer sink
    rw [TraceState.activate_refused hphase, h.thread]
  · intro hphase
    have hrefused := TraceState.refused_of_not_active .intact hphase
    rwa [h.thread] at hrefused
  · exact h.flush_ok
  · exact h.finalize_ok
  · rintro hphase rfl hblocked
    exact ⟨h.flush_of_blocked hphase hblocked, h.finalize_of_blocked hphase hblocked⟩
  · intro hclosed
    have hall := h.all
    rw [(h.closed hclosed).1, List.append_nil] at hall
    rw [h.totals, ← hall]
    rfl

/-! ## Any actions -/

/-- A state that takes a buffer and a sink takes nothing else; one that does not gives up the sink,
which is no batch. -/
theorem Recorded.activate (h : Recorded b thread start records pending x) {buffer : TraceBuffer}
    (sink : Sink ω) (hbuffer : x.1.phase = .uninitialized → buffer = b) :
    Recorded b thread start records pending ((TraceAction.activate buffer sink).perform b x) := by
  obtain ⟨s, M, session⟩ := x
  have hrefused : Recorded b thread start records pending
      (s, M, { session with world := sink.journaled.abandon session.world }) :=
    ⟨h.all, h.nonempty, h.totals, h.thread, h.inStep, h.active, h.queue, h.closed⟩
  by_cases hphase : s.phase = .uninitialized
  · simp only [TraceAction.perform, TraceState.activate_of_uninitialized hphase]
    obtain rfl := hbuffer hphase
    have hactive := TraceState.active_of_activate
      (TraceState.activate_of_uninitialized hphase buffer sink.journaled)
    refine ⟨h.all, h.nonempty, h.totals, h.thread, hactive.inStep, fun _ => ⟨sink, hactive⟩,
      fun _ => ?_, ?_⟩
    · exact h.queue (hphase.trans_ne Phase.noConfusion)
    · intro hclosed
      contradiction
  · simp only [TraceAction.perform, TraceState.activate_refused hphase]
    exact hrefused

/-- A step that only an active state takes leaves nothing pending, unless it is refused and changes
nothing. -/
theorem Recorded.final {α : Type} {step : CollectM (Journal ω) (Session (Journal ω)) α}
    (h : Recorded b thread start records pending x)
    (hrefused : x.1.phase ≠ .active → ∃ e, step x = .error e x)
    (hblocked : x.1.phase = .active → pending = [] → b.Blocked x.2.1 → ∃ e, step x = .error e x)
    (hstep : x.1.phase = .active → (pending = [] → ¬ b.Blocked x.2.1) →
      ∃ a x', step x = .ok a x' ∧ Recorded b thread start records [] x') :
    ∃ pending', Recorded b thread start records pending' (Step.final step x) := by
  by_cases hphase : x.1.phase = .active
  · by_cases hempty : pending = [] ∧ b.Blocked x.2.1
    · obtain ⟨e, herror⟩ := hblocked hphase hempty.1 hempty.2
      rw [Step.final_of_error herror]
      exact ⟨pending, h⟩
    · obtain ⟨a, x', hok, h'⟩ := hstep hphase fun hnone hb => hempty ⟨hnone, hb⟩
      rw [Step.final_of_ok hok]
      exact ⟨[], h'⟩
  · obtain ⟨e, herror⟩ := hrefused hphase
    rw [Step.final_of_error herror]
    exact ⟨pending, h⟩

theorem Recorded.flush (h : Recorded b thread start records pending x) :
    ∃ pending', Recorded b thread start records pending' (TraceAction.flush.perform b x) := by
  refine h.final (fun hphase => ⟨_, (h.answers.refused hphase).1⟩)
    (fun hphase hnone hblocked => ⟨_, (h.answers.blocked hphase hnone hblocked).1⟩) ?_
  intro hphase hopen
  obtain ⟨x', hflush, _, h'⟩ := h.answers.flush hphase hopen
  exact ⟨_, x', hflush, h'⟩

theorem Recorded.finalized (h : Recorded b thread start records pending x) :
    ∃ pending', Recorded b thread start records pending' (TraceAction.finalize.perform b x) := by
  refine h.final (fun hphase => ⟨_, (h.answers.refused hphase).2⟩)
    (fun hphase hnone hblocked => ⟨_, (h.answers.blocked hphase hnone hblocked).2⟩) ?_
  intro hphase hopen
  obtain ⟨x', hfinalize, _, h'⟩ := h.answers.finalize hphase hopen
  exact ⟨_, x', hfinalize, h'⟩

theorem Recorded.append (h : Recorded b thread start records pending x) (r : Record)
    (hopen : x.1.phase ≠ .closed) (hroom : ∃ n, b.pending x.2.1 = .ok n ∧ n < b.capacity) :
    Recorded b thread start (records ++ [r]) (pending ++ [r])
      ((TraceAction.append r).perform b x) := by
  obtain ⟨s, M, session⟩ := x
  obtain ⟨hqueue, htotals⟩ := h.queue hopen
  obtain ⟨n, hn, hroom⟩ := hroom
  have hlength : pending.length < b.capacity := by
    rw [hqueue.pending_eq] at hn
    rwa [Except.ok.inj hn]
  obtain ⟨M', happend, hqueue'⟩ := hqueue.append hlength r
  change Recorded b thread start _ _ (s, Step.final (b.append r) M, session)
  rw [Step.final_of_ok happend]
  refine ⟨?_, h.nonempty, h.totals, h.thread, h.inStep, h.active, fun _ => ⟨hqueue', htotals⟩, ?_⟩
  · rw [← List.append_assoc, h.all]
  · intro hclosed
    exact absurd hclosed hopen

theorem Recorded.other (h : Recorded b thread start records pending x) (op : MemoryOperation)
    (happart : x.1.phase ≠ .closed → ¬ op.Touches b.headerAddress BufferHeader.length ∧
      ¬ op.Touches b.base b.storageLength) :
    Recorded b thread start records pending ((TraceAction.other op).perform b x) := by
  obtain ⟨s, M, session⟩ := x
  refine ⟨h.all, h.nonempty, h.totals, h.thread, h.inStep, h.active, fun hopen => ?_, h.closed⟩
  obtain ⟨hqueue, htotals⟩ := h.queue hopen
  obtain ⟨hheader, hstorage⟩ := happart hopen
  exact ⟨hqueue.other hheader hstorage, htotals⟩

/-- An allowed action keeps the account of all records. -/
theorem Recorded.perform (h : Recorded b thread start records pending x) {a : TraceAction ω}
    (ha : a.Allowed b x) :
    ∃ pending', Recorded b thread start (records ++ a.record?.toList) pending' (a.perform b x) := by
  cases a with
  | append r => exact ⟨_, h.append r ha.1 ha.2⟩
  | activate buffer sink => exact ⟨_, (List.append_nil records).symm ▸ h.activate sink ha⟩
  | flush => exact (List.append_nil records).symm ▸ h.flush
  | finalize => exact (List.append_nil records).symm ▸ h.finalized
  | other op => exact ⟨_, (List.append_nil records).symm ▸ h.other op ha⟩

theorem Recorded.run (h : Recorded b thread start records pending x)
    {actions : List (TraceAction ω)} (hactions : TraceAction.AllAllowed b x actions) :
    ∃ pending', Recorded b thread start (records ++ TraceAction.appended actions) pending'
      (TraceAction.run b actions x) := by
  induction actions generalizing records pending x with
  | nil => exact ⟨pending, (List.append_nil records).symm ▸ h⟩
  | cons a rest ih =>
    obtain ⟨ha, hrest⟩ := hactions
    obtain ⟨pending₁, h₁⟩ := h.perform ha
    obtain ⟨pending', h'⟩ := ih h₁ hrest
    have hall : records ++ TraceAction.appended (a :: rest) =
        records ++ a.record?.toList ++ TraceAction.appended rest := by
      rw [List.append_assoc]
      unfold TraceAction.appended
      cases hrecord : a.record? with
      | none => rw [List.filterMap_cons_none hrecord]; rfl
      | some r => rw [List.filterMap_cons_some hrecord]; rfl
    rw [hall]
    exact ⟨pending', h'⟩

/-- A new trace state, and a journal without batches. -/
def fresh (thread : ThreadId) (memory : AddressSpace) (session : Session ω) : Tracing ω :=
  (.create thread, memory, ⟨session.totals, ⟨session.world, []⟩⟩)

theorem recorded_fresh {M : AddressSpace} (hqueue : b.Queue [] M) (thread : ThreadId)
    (session : Session ω) : Recorded b thread session.totals [] [] (fresh thread M session) := by
  constructor
  · rfl
  · intro entry hentry
    contradiction
  · rfl
  · rfl
  · exact TraceState.inStep_create thread
  · intro hphase
    contradiction
  · intro _
    exact ⟨hqueue, rfl⟩
  · intro hclosed
    contradiction

/-- Whatever happens to a trace state and its buffer, no record is lost, doubled or moved: the
batches that were handed over and what is pending are all records that went in. The counters are
those of the batches, and they are merged once, when all records are counted. -/
theorem records_accounted {capacity : Nat} {M M' : AddressSpace} (hM : M.Reachable)
    (hallocate : TraceBuffer.allocate capacity M = .ok b M')
    (hbound : b.stop < addressBound) (thread : ThreadId) (session : Session ω)
    {actions : List (TraceAction ω)}
    (hactions : TraceAction.AllAllowed b (fresh thread M' session) actions) :
    b.capacity = capacity ∧ ∃ pending,
      Recorded b thread session.totals (TraceAction.appended actions) pending
        (TraceAction.run b actions (fresh thread M' session)) ∧
      Answers b thread session.totals (TraceAction.appended actions) pending
        (TraceAction.run b actions (fresh thread M' session)) := by
  obtain ⟨hcapacity, hqueue⟩ := TraceBuffer.allocate_queue hM.wellFormed hallocate hbound
  obtain ⟨pending, h⟩ := (recorded_fresh hqueue thread session).run hactions
  exact ⟨hcapacity, pending, h, h.answers⟩

end Tracing

namespace Sample

/-- A sink that takes nothing. -/
def fullSink : Sink Unit := ⟨fun _ => throw (.writeFailed .diskFull), pure (), id⟩

def newTracing : Tracing Unit := .fresh ⟨1⟩ queueMemory ⟨.empty, ()⟩

/-- A record comes before the state is active, another fills the buffer; both are lost to the
sink, which is asked once. A third one is taken by no sink either, at the end. -/
def losing : List (TraceAction Unit) :=
  [.flush, .append (record 1), .activate queueBuffer fullSink, .append (record 2), .flush,
    .append (record 3), .activate queueBuffer fullSink, .finalize, .finalize]

theorem account_of_losing : ∃ pending,
    Tracing.Recorded queueBuffer ⟨1⟩ .empty [record 1, record 2, record 3] pending
      (TraceAction.run queueBuffer losing newTracing) ∧
    Tracing.Answers queueBuffer ⟨1⟩ .empty [record 1, record 2, record 3] pending
      (TraceAction.run queueBuffer losing newTracing) := by
  have hallowed : TraceAction.AllAllowed queueBuffer newTracing losing :=
    ⟨trivial, ⟨by decide, 0, rfl, by decide⟩, fun _ => rfl, ⟨by decide, 1, rfl, by decide⟩, trivial,
      ⟨by decide, 0, rfl, by decide⟩, fun _ => rfl, trivial, trivial, trivial⟩
  obtain ⟨_, pending, h⟩ := Tracing.records_accounted (.withLimit ..) allocate_queueBuffer
    (by decide) ⟨1⟩ ⟨.empty, ()⟩ hallowed
  exact ⟨pending, h⟩

end Sample

end AccessTrace
