import Mathlib.Data.List.Perm.Subperm
import AccessTrace.Proofs.Session.Setup
import AccessTrace.Proofs.Session.Summary
import AccessTrace.Proofs.Session.Threads

/-!
# The accounts of a session

Threads start and end in any interleaving, on any contexts: a call may fail, come twice, or come on
a context that was never started. A ledger is kept beside the session. It gives every start that
succeeds a number, and enters a merge, under the number of the start that it ends, whenever a trace
state closes. The totals of the session are those of the ledger; no number is merged twice; and a
shutdown answers by the ledger.
-/

namespace AccessTrace

variable {ω κ : Type} [DecidableEq κ]

/-! ## What the calls do to a thread -/

/-- The totals after a start that failed. -/
def Totals.startFailed (totals : Totals) (e : TraceError) : Totals :=
  match e with
  | .bufferAllocation _ _ => totals.abort e.message
  | _ => totals

namespace Tracer

variable {t : Tracer ω} {s : Running (TraceState ω) (Session ω)}

theorem startBuffer_cases (t : Tracer ω) (s : Running (TraceState ω) (Session ω)) :
    (∃ b M, t.startBuffer s = .ok b { s with thread := s.thread.setMemory M }) ∨
    ∃ e s', t.startBuffer s = .error e s' ∧ t.traceState? s'.thread = t.traceState? s.thread ∧
      s'.world.totals = s.world.totals.startFailed e := by
  unfold startBuffer
  cases hallocate : TraceBuffer.allocate t.config.capacity s.thread.guest.memory with
  | ok b M => exact Or.inl ⟨b, M, rfl⟩
  | error e M => exact Or.inr ⟨_, _, rfl, rfl, rfl⟩

/-- What a start has done, by its answer: it has registered a new active state, or has failed and
left the state that there was. -/
def Started (t : Tracer ω) (s : Running (TraceState ω) (Session ω)) :
    EStateM.Result TraceError (Running (TraceState ω) (Session ω)) Unit → Prop
  | .ok _ s' => (t.traceState? s'.thread).map (·.phase) = some .active ∧
      s'.world.totals = s.world.totals.register
  | .error e s' => t.traceState? s'.thread = t.traceState? s.thread ∧
      s'.world.totals = s.world.totals.startFailed e

/-- A log that is started makes the state active; without a log the buffer is given back. -/
theorem started_startLog (t : Tracer ω) (b : TraceBuffer)
    (s : Running (TraceState ω) (Session ω)) : t.Started s (t.startLog b s) := by
  unfold startLog
  cases t.config.target.start t.config.format s.thread.id s.world.world with
  | ok sink world => exact ⟨congrArg _ (Thread.fieldData?_setFieldData _ _ _), rfl⟩
  | error e world =>
    change t.Started s (returnBuffer b (.log e) _)
    unfold returnBuffer
    cases b.release s.thread.guest.memory with
    | ok _ M => exact ⟨rfl, rfl⟩
    | error e' M => exact ⟨rfl, rfl⟩

/-- A start after it has seen that the session is not aborted. -/
def resumeStart (t : Tracer ω) : SessionM ω Unit :=
  t.startBuffer >>= t.startLog

theorem started_resumeStart (t : Tracer ω) (s : Running (TraceState ω) (Session ω)) :
    t.Started s (t.resumeStart s) := by
  unfold resumeStart
  rcases startBuffer_cases t s with ⟨b, M, hbuffer⟩ | ⟨e, s', hbuffer, hkept, htotals⟩
  · rw [Step.bind_of_ok hbuffer]
    exact started_startLog t b { s with thread := s.thread.setMemory M }
  · rw [Step.bind_of_error hbuffer]
    exact ⟨hkept, htotals⟩

theorem threadStart_eq (t : Tracer ω) (s : Running (TraceState ω) (Session ω)) :
    t.threadStart s = match s.world.totals.aborted with
      | some reason => .error (.aborted reason) s
      | none => t.resumeStart s := by
  unfold threadStart
  cases haborted : s.world.totals.aborted with
  | some reason =>
    simp only [Step.bind_apply, Step.get_apply, haborted]
    rfl
  | none =>
    simp only [Step.bind_apply, Step.get_apply, haborted]
    rfl

theorem started_threadStart (t : Tracer ω) (s : Running (TraceState ω) (Session ω)) :
    t.Started s (t.threadStart s) := by
  rw [threadStart_eq]
  cases s.world.totals.aborted with
  | some reason => exact ⟨rfl, rfl⟩
  | none => exact started_resumeStart t s

/-- A step on the trace state of a thread that has one. -/
theorem final_onTraceState {α : Type} {field : FieldIndex} {step : CollectM ω (Session ω) α}
    {state : TraceState ω} (hdata : s.thread.fieldData? field = some state) :
    let x := Step.final step (state, s.thread.guest.memory, s.world)
    Step.final (onTraceState field step) s =
      ⟨(s.thread.setFieldData field x.1).setMemory x.2.1, x.2.2⟩ := by
  unfold Step.final onTraceState
  simp only [hdata]
  cases step (state, s.thread.guest.memory, s.world) <;> rfl

/-- A step that keeps the totals, and the phase of the trace state. -/
def Kept (t : Tracer ω) (s s' : Running (TraceState ω) (Session ω)) : Prop :=
  s'.world.totals = s.world.totals ∧
    (t.traceState? s'.thread).map (·.phase) = (t.traceState? s.thread).map (·.phase)

/-- A step that closes an active state and merges its counters. -/
def Merged (t : Tracer ω) (s s' : Running (TraceState ω) (Session ω)) : Prop :=
  ∃ state state', t.traceState? s.thread = some state ∧ t.traceState? s'.thread = some state' ∧
    state.phase = .active ∧ state'.phase = .closed ∧
    s'.world.totals = s.world.totals.merge state'.totals

theorem kept_of_keeps {α : Type} {step : CollectM ω (Session ω) α}
    (hstep : ∀ state, s.thread.fieldData? t.field = some state →
      TraceState.Keeps step (state, s.thread.guest.memory, s.world)) :
    t.Kept s (Step.final (onTraceState t.field step) s) := by
  cases hdata : s.thread.fieldData? t.field with
  | none =>
    have hsame : Step.final (onTraceState t.field step) s = s := by
      unfold Step.final onTraceState
      simp only [hdata]
    rw [hsame]
    exact ⟨rfl, rfl⟩
  | some state =>
    obtain ⟨⟨counters, hstate⟩, htotals⟩ := hstep state hdata
    rw [final_onTraceState hdata]
    refine ⟨htotals, ?_⟩
    change ((s.thread.setFieldData t.field _).fieldData? t.field).map _ =
      (s.thread.fieldData? t.field).map _
    rw [Thread.fieldData?_setFieldData, hdata, hstate]
    rfl

theorem kept_flush (t : Tracer ω) (s : Running (TraceState ω) (Session ω)) :
    t.Kept s (Step.final (flushThread t.field) s) :=
  kept_of_keeps fun _ _ => TraceState.keeps_flush _

/-- An end closes the state and merges its counters, or keeps everything. -/
theorem threadEnd_cases (t : Tracer ω) (s : Running (TraceState ω) (Session ω)) :
    t.Kept s (Step.final t.threadEnd s) ∨ t.Merged s (Step.final t.threadEnd s) := by
  unfold threadEnd
  rw [Step.final_discard]
  unfold finalizeThread
  cases hdata : s.thread.fieldData? t.field with
  | none => exact Or.inl (kept_of_keeps fun state hstate => absurd hstate (by simp [hdata]))
  | some state =>
    rcases TraceState.final_finalizeBehind .intact (state, s.thread.guest.memory, s.world) with
      hkeeps | ⟨hactive, counters, hclosed, htotals⟩
    · refine Or.inl (kept_of_keeps fun state' hstate' => ?_)
      rw [hdata] at hstate'
      rwa [← Option.some.inj hstate']
    · unfold TraceState.finalize
      rw [final_onTraceState hdata, hclosed]
      exact Or.inr ⟨state, _, hdata, Thread.fieldData?_setFieldData _ _ _, hactive, rfl, htotals⟩

end Tracer

/-! ## Any calls -/

/-- The contexts that threads run in, and the session that they share. -/
structure Contexts (κ ω : Type) where
  threads : κ → Thread (TraceState ω)
  session : Session ω

/-- What can happen in a session. -/
inductive SessionCall (κ ω : Type) where
  | threadStart (k : κ)
  /-- A start goes on; other calls came after it saw that the session was not aborted. -/
  | resumeStart (k : κ)
  | threadEnd (k : κ)
  /-- The buffer of a thread is drained. -/
  | flush (k : κ)
  /-- The code of a thread changes its registers and its memory. -/
  | execute (k : κ) (guest : Guest)
  /-- Something changes the world that the logs are in. -/
  | outside (change : ω → ω)

/-- The account of the calls. -/
structure Ledger (κ : Type) where
  /-- How many starts have succeeded; they are numbered from zero. -/
  starts : Nat
  /-- The merges, each with the number of the start that it ends and the counters. -/
  merges : List (Nat × ThreadTotals)
  /-- The number of the last start that succeeded on a context. -/
  number : κ → Nat
  /-- The message of the first start that got no buffer. -/
  failure : Option String

namespace Ledger

def empty : Ledger κ := ⟨0, [], fun _ => 0, none⟩

/-- A start that succeeds on a context. -/
def startOk (l : Ledger κ) (k : κ) : Ledger κ :=
  { l with starts := l.starts + 1, number := fun i => if i = k then l.starts else l.number i }

/-- A start that fails; the message of the first one that got no buffer is kept. -/
def startFailed (l : Ledger κ) (e : TraceError) : Ledger κ :=
  match e with
  | .bufferAllocation _ _ => { l with failure := some (l.failure.getD e.message) }
  | _ => l

/-- A start by its answer. -/
def start (l : Ledger κ) (k : κ)
    (answer : EStateM.Result TraceError (Running (TraceState ω) (Session ω)) Unit) : Ledger κ :=
  match answer with
  | .ok _ _ => l.startOk k
  | .error e _ => l.startFailed e

/-- An end that closes the trace state of a context. -/
def merge (l : Ledger κ) (k : κ) (totals : ThreadTotals) : Ledger κ :=
  { l with merges := l.merges ++ [(l.number k, totals)] }

end Ledger

namespace Contexts

def running (c : Contexts κ ω) (k : κ) : Running (TraceState ω) (Session ω) :=
  ⟨c.threads k, c.session⟩

def put (c : Contexts κ ω) (k : κ) (s : Running (TraceState ω) (Session ω)) : Contexts κ ω :=
  ⟨fun i => if i = k then s.thread else c.threads i, s.world⟩

/-- Whether the trace state of a context is active. -/
def IsActive (t : Tracer ω) (c : Contexts κ ω) (k : κ) : Prop :=
  (t.traceState? (c.threads k)).map (·.phase) = some .active

theorem threads_put (c : Contexts κ ω) (k : κ) (s : Running (TraceState ω) (Session ω)) :
    (c.put k s).threads k = s.thread :=
  if_pos rfl

theorem threads_put_of_ne (c : Contexts κ ω) {i k : κ} (s : Running (TraceState ω) (Session ω))
    (h : i ≠ k) : (c.put k s).threads i = c.threads i :=
  if_neg h

/-- The other contexts stay active, or not. -/
theorem isActive_put_of_ne {t : Tracer ω} {c : Contexts κ ω} {i k : κ}
    {s : Running (TraceState ω) (Session ω)} (h : i ≠ k) :
    (c.put k s).IsActive t i ↔ c.IsActive t i := by
  unfold IsActive
  rw [threads_put_of_ne c s h]

end Contexts

namespace SessionCall

/-- The contexts after a call, whether it succeeds or fails. -/
def perform (t : Tracer ω) : SessionCall κ ω → Contexts κ ω → Contexts κ ω
  | threadStart k, c => c.put k (Step.final t.threadStart (c.running k))
  | resumeStart k, c => c.put k (Step.final t.resumeStart (c.running k))
  | threadEnd k, c => c.put k (Step.final t.threadEnd (c.running k))
  | flush k, c => c.put k (Step.final (flushThread t.field) (c.running k))
  | execute k guest, c => c.put k ⟨{ c.threads k with guest }, c.session⟩
  | outside change, c => { c with session := { c.session with world := change c.session.world } }

/-- The counters of a trace state that was active before and is closed after. -/
def merged? (before after : Option (TraceState ω)) : Option ThreadTotals :=
  match before, after with
  | some state, some state' =>
    if state.phase = .active ∧ state'.phase = .closed then some state'.totals else none
  | _, _ => none

omit [DecidableEq κ] in
/-- Nothing is merged while the phase stays. -/
theorem merged?_of_phase {before after : Option (TraceState ω)}
    (h : after.map (·.phase) = before.map (·.phase)) : merged? before after = none := by
  unfold merged?
  split
  · rename_i state state'
    refine if_neg fun hphases => ?_
    have hphase : state'.phase = state.phase := Option.some.inj h
    rw [hphases.1, hphases.2] at hphase
    contradiction
  · rfl

/-- Enters a call into the ledger. A start is entered by its answer, and a merge by what has become
of the trace state. -/
def enter (t : Tracer ω) (c : Contexts κ ω) (l : Ledger κ) (call : SessionCall κ ω) : Ledger κ :=
  match call with
  | threadStart k => l.start k (t.threadStart (c.running k))
  | resumeStart k => l.start k (t.resumeStart (c.running k))
  | threadEnd k =>
    match merged? (t.traceState? (c.threads k)) (t.traceState? ((call.perform t c).threads k)) with
    | some totals => l.merge k totals
    | none => l
  | _ => l

/-- Calls one after the other, with the ledger. -/
def run (t : Tracer ω) (calls : List (SessionCall κ ω)) (start : Contexts κ ω × Ledger κ) :
    Contexts κ ω × Ledger κ :=
  calls.foldl (fun x call => (call.perform t x.1, call.enter t x.1 x.2)) start

end SessionCall

/-! ## The totals are those of the ledger -/

namespace Ledger

/-- The totals that the ledger stands for. -/
def totals (l : Ledger κ) : Totals where
  records := (l.merges.map fun m => m.2.records).sum
  flushes := (l.merges.map fun m => m.2.flushes).sum
  writeErrors := (l.merges.map fun m => m.2.writeErrors).sum
  started := l.starts
  threads := l.merges.map Prod.snd
  aborted := l.failure

omit [DecidableEq κ] in
theorem totals_startFailed (l : Ledger κ) (e : TraceError) :
    (l.startFailed e).totals = l.totals.startFailed e := by
  cases e <;> rfl

omit [DecidableEq κ] in
theorem totals_merge (l : Ledger κ) (k : κ) (counters : ThreadTotals) :
    (l.merge k counters).totals = l.totals.merge counters := by
  unfold totals merge Totals.merge
  simp only [List.map_append, List.sum_append, List.map_cons, List.map_nil, List.sum_singleton]

end Ledger

/-- The session has the totals of the ledger, and every active state has a number of its own that
was not merged. -/
structure Accounted (t : Tracer ω) (c : Contexts κ ω) (l : Ledger κ) : Prop where
  totals : c.session.totals = l.totals
  once : (l.merges.map Prod.fst).Nodup
  begun : ∀ n ∈ l.merges.map Prod.fst, n < l.starts
  pending : ∀ k, c.IsActive t k → l.number k < l.starts ∧ l.number k ∉ l.merges.map Prod.fst
  apart : ∀ i k, c.IsActive t i → c.IsActive t k → l.number i = l.number k → i = k

namespace Accounted

variable {t : Tracer ω} {c c' : Contexts κ ω} {l : Ledger κ} {k : κ}
  {s : Running (TraceState ω) (Session ω)}

omit [DecidableEq κ] in
theorem empty (htotals : c.session.totals = .empty)
    (hnew : ∀ k, t.traceState? (c.threads k) = none) : Accounted t c .empty := by
  have hnone {k : κ} : ¬ c.IsActive t k := by
    unfold Contexts.IsActive
    rw [hnew k]
    intro hactive
    contradiction
  constructor
  · exact htotals
  · exact .nil
  · intro n hn
    contradiction
  · intro k hk
    exact absurd hk hnone
  · intro i k hi
    exact absurd hi hnone

omit [DecidableEq κ] in
/-- The accounts stay in order when no state becomes active and the totals are kept. -/
theorem keep (h : Accounted t c l) (htotals : c'.session.totals = c.session.totals)
    (hactive : ∀ k, c'.IsActive t k → c.IsActive t k) : Accounted t c' l := by
  constructor
  · exact htotals.trans h.totals
  · exact h.once
  · exact h.begun
  · intro k hk
    exact h.pending k (hactive k hk)
  · intro i k hi hk
    exact h.apart i k (hactive i hi) (hactive k hk)

/-- A start that succeeds has the next number. -/
theorem startOk (h : Accounted t c l) (k : κ)
    (htotals : s.world.totals = c.session.totals.register) :
    Accounted t (c.put k s) (l.startOk k) := by
  have hnumber : (l.startOk k).number k = l.starts := if_pos rfl
  have hother {i : κ} (hi : i ≠ k) : (l.startOk k).number i = l.number i := if_neg hi
  have hpending {i : κ} (hi : i ≠ k) (hactive : (c.put k s).IsActive t i) :
      l.number i < l.starts ∧ l.number i ∉ l.merges.map Prod.fst :=
    h.pending i ((Contexts.isActive_put_of_ne hi).1 hactive)
  constructor
  · exact htotals.trans (congrArg Totals.register h.totals)
  · exact h.once
  · intro n hn
    exact Nat.lt_succ_of_lt (h.begun n hn)
  · intro i hi
    change (l.startOk k).number i < l.starts + 1 ∧ _ ∉ l.merges.map Prod.fst
    by_cases hsame : i = k
    · rw [hsame, hnumber]
      exact ⟨Nat.lt_succ_self _, fun hmem => Nat.lt_irrefl _ (h.begun _ hmem)⟩
    · rw [hother hsame]
      obtain ⟨hlt, hnot⟩ := hpending hsame hi
      exact ⟨Nat.lt_succ_of_lt hlt, hnot⟩
  · intro i j hi hj hnumbers
    by_cases hik : i = k <;> by_cases hjk : j = k
    · rw [hik, hjk]
    · rw [hik, hnumber, hother hjk] at hnumbers
      have hlt := (hpending hjk hj).1
      omega
    · rw [hjk, hnumber, hother hik] at hnumbers
      have hlt := (hpending hik hi).1
      omega
    · rw [hother hik, hother hjk] at hnumbers
      exact h.apart i j ((Contexts.isActive_put_of_ne hik).1 hi)
        ((Contexts.isActive_put_of_ne hjk).1 hj) hnumbers

/-- A start that fails is entered if it got no buffer. -/
theorem startFailed (h : Accounted t c l) {e : TraceError}
    (hstate : t.traceState? s.thread = t.traceState? (c.threads k))
    (htotals : s.world.totals = c.session.totals.startFailed e) :
    Accounted t (c.put k s) (l.startFailed e) := by
  have hsame : (l.startFailed e).starts = l.starts ∧ (l.startFailed e).merges = l.merges ∧
      (l.startFailed e).number = l.number := by
    cases e <;> exact ⟨rfl, rfl, rfl⟩
  obtain ⟨hstarts, hmerges, hnumber⟩ := hsame
  have hactive {i : κ} (hi : (c.put k s).IsActive t i) : c.IsActive t i := by
    by_cases hik : i = k
    · subst hik
      unfold Contexts.IsActive at hi ⊢
      rwa [Contexts.threads_put, hstate] at hi
    · exact (Contexts.isActive_put_of_ne hik).1 hi
  constructor
  · rw [Ledger.totals_startFailed, ← h.totals]
    exact htotals
  · rw [hmerges]
    exact h.once
  · rw [hmerges, hstarts]
    exact h.begun
  · intro i hi
    rw [hmerges, hstarts, hnumber]
    exact h.pending i (hactive hi)
  · intro i j hi hj
    rw [hnumber]
    exact h.apart i j (hactive hi) (hactive hj)

/-- A start is entered by its answer. -/
theorem start (h : Accounted t c l) {step : SessionM ω Unit}
    (hstart : t.Started (c.running k) (step (c.running k))) :
    Accounted t (c.put k (Step.final step (c.running k))) (l.start k (step (c.running k))) := by
  cases hanswer : step (c.running k) with
  | ok _ s' =>
    rw [hanswer] at hstart
    rw [Step.final_of_ok hanswer]
    exact h.startOk k hstart.2
  | error e s' =>
    rw [hanswer] at hstart
    rw [Step.final_of_error hanswer]
    exact h.startFailed hstart.1 hstart.2

/-- A merge ends a start that was pending; no other active state has its number. -/
theorem merge (h : Accounted t c l) (hactive : c.IsActive t k)
    (hclosed : ¬ (c.put k s).IsActive t k) {counters : ThreadTotals}
    (htotals : s.world.totals = c.session.totals.merge counters) :
    Accounted t (c.put k s) (l.merge k counters) := by
  obtain ⟨hlt, hnot⟩ := h.pending k hactive
  have hnumbers : (l.merge k counters).merges.map Prod.fst =
      l.merges.map Prod.fst ++ [l.number k] := by
    unfold Ledger.merge
    rw [List.map_append]
    rfl
  have hbefore {i : κ} (hi : (c.put k s).IsActive t i) : i ≠ k ∧ c.IsActive t i := by
    have hik : i ≠ k := by
      rintro rfl
      exact hclosed hi
    exact ⟨hik, (Contexts.isActive_put_of_ne hik).1 hi⟩
  constructor
  · rw [Ledger.totals_merge, ← h.totals]
    exact htotals
  · rw [hnumbers]
    refine List.nodup_append.2 ⟨h.once, List.pairwise_singleton _ _, fun n hn m hm => ?_⟩
    rintro rfl
    obtain rfl := List.mem_singleton.1 hm
    exact hnot hn
  · intro n hn
    rw [hnumbers] at hn
    rcases List.mem_append.1 hn with hn | hn
    · exact h.begun n hn
    · obtain rfl := List.mem_singleton.1 hn
      exact hlt
  · intro i hi
    obtain ⟨hik, hi⟩ := hbefore hi
    obtain ⟨hlt', hnot'⟩ := h.pending i hi
    refine ⟨hlt', fun hmem => ?_⟩
    rw [hnumbers] at hmem
    rcases List.mem_append.1 hmem with hmem | hmem
    · exact hnot' hmem
    · exact hik (h.apart i k hi hactive (List.mem_singleton.1 hmem))
  · intro i j hi hj
    exact h.apart i j (hbefore hi).2 (hbefore hj).2

/-- A step on one context that keeps its phase keeps the accounts. -/
theorem kept (h : Accounted t c l) (hkept : t.Kept (c.running k) s) :
    Accounted t (c.put k s) l := by
  refine h.keep hkept.1 fun i hi => ?_
  by_cases hik : i = k
  · subst hik
    unfold Contexts.IsActive at hi ⊢
    rw [Contexts.threads_put, hkept.2] at hi
    exact hi
  · exact (Contexts.isActive_put_of_ne hik).1 hi

/-- Every call keeps the accounts in order. -/
theorem perform (h : Accounted t c l) (call : SessionCall κ ω) :
    Accounted t (call.perform t c) (call.enter t c l) := by
  cases call with
  | threadStart k => exact h.start (t.started_threadStart (c.running k))
  | resumeStart k => exact h.start (t.started_resumeStart (c.running k))
  | threadEnd k =>
    change Accounted t (c.put k (Step.final t.threadEnd (c.running k)))
      (match SessionCall.merged? (t.traceState? (c.running k).thread) (t.traceState?
          ((c.put k (Step.final t.threadEnd (c.running k))).threads k)) with
        | some totals => l.merge k totals
        | none => l)
    rw [Contexts.threads_put]
    rcases t.threadEnd_cases (c.running k) with
      hkept | ⟨state, state', hbefore, hafter, hactive, hclosed, htotals⟩
    · rw [SessionCall.merged?_of_phase hkept.2]
      exact h.kept hkept
    · have hmerged : SessionCall.merged? (t.traceState? (c.running k).thread)
          (t.traceState? (Step.final t.threadEnd (c.running k)).thread) = some state'.totals := by
        rw [hbefore, hafter]
        exact if_pos ⟨hactive, hclosed⟩
      rw [hmerged]
      refine h.merge ?_ ?_ htotals
      · unfold Contexts.IsActive
        rw [show t.traceState? (c.threads k) = some state from hbefore]
        exact congrArg some hactive
      · unfold Contexts.IsActive
        rw [Contexts.threads_put, hafter]
        intro hopen
        rw [Option.map_some, hclosed] at hopen
        contradiction
  | flush k => exact h.kept (t.kept_flush (c.running k))
  | execute k guest => exact h.kept ⟨rfl, rfl⟩
  | outside change => exact h.keep rfl fun _ hk => hk

/-- Any calls keep the accounts in order. -/
theorem run (h : Accounted t c l) (calls : List (SessionCall κ ω)) :
    Accounted t (SessionCall.run t calls (c, l)).1 (SessionCall.run t calls (c, l)).2 := by
  induction calls generalizing c l with
  | nil => exact h
  | cons call rest ih => exact ih (h.perform call)

omit [DecidableEq κ] in
/-- There are no more merges than starts. -/
theorem length_merges_le (h : Accounted t c l) : l.merges.length ≤ l.starts := by
  have hsubset : l.merges.map Prod.fst ⊆ List.range l.starts := fun n hn =>
    List.mem_range.2 (h.begun n hn)
  have hle := (h.once.subperm hsubset).length_le
  rwa [List.length_map, List.length_range] at hle

end Accounted

/-! ## The summary -/

namespace Summary

/-- The summary of the totals of a ledger. -/
theorem of_ofTotals {κ : Type} (l : Ledger κ) (format : LogFormat) (capacity : Nat)
    (overflowTest : String) :
    (ofTotals l.totals format capacity overflowTest).Of l.merges.length (l.merges.map Prod.snd) := by
  have hsum (counter : ThreadTotals → Nat) : (l.merges.map fun m => counter m.2).sum =
      ((l.merges.map Prod.snd).map counter).sum := by
    rw [List.map_map]
    rfl
  have htally : l.totals.Tally (l.merges.map Prod.snd) := ⟨rfl, hsum _, hsum _, hsum _⟩
  have hof := of_tally htally format capacity overflowTest
  rwa [List.length_map] at hof

end Summary

/-- The answer of a shutdown by the ledger. -/
structure Ledger.ShutsDown (l : Ledger κ) (answer : Except TraceError Summary) : Prop where
  aborted : ∀ reason, l.failure = some reason → answer = .error (.aborted reason)
  unfinalized : l.failure = none → l.merges.length < l.starts →
    answer = .error (.unfinalized (l.starts - l.merges.length))
  ok : l.failure = none → l.starts ≤ l.merges.length →
    ∃ s, answer = .ok s ∧ s.Of l.starts (l.merges.map Prod.snd)

namespace Tracer

omit [DecidableEq κ] in
/-- With the totals of a ledger a shutdown answers by the ledger. -/
theorem shutsDown_summary {t : Tracer ω} {l : Ledger κ} (hle : l.merges.length ≤ l.starts) :
    l.ShutsDown (t.summary l.totals) := by
  have hthreads : l.totals.unfinalized = l.starts - l.merges.length := by
    unfold Totals.unfinalized Ledger.totals
    rw [List.length_map]
  constructor
  · intro reason hfailure
    unfold summary
    rw [show l.totals.aborted = some reason from hfailure]
  · intro hfailure hopen
    have hpos : 0 < l.totals.unfinalized := by omega
    unfold summary
    rw [show l.totals.aborted = none from hfailure]
    exact (if_pos hpos).trans (by rw [hthreads])
  · intro hfailure hdone
    have hnone : ¬ 0 < l.totals.unfinalized := by omega
    refine ⟨.ofTotals l.totals t.config.format t.config.capacity t.injector.test.name, ?_, ?_⟩
    · unfold summary
      rw [show l.totals.aborted = none from hfailure]
      exact if_neg hnone
    · rw [show l.starts = l.merges.length by omega]
      exact Summary.of_ofTotals l _ _ _

omit [DecidableEq κ] in
/-- No summary comes from behind a broken lock, not even of a session that was aborted. -/
theorem shutdown_of_broken {t : Tracer ω} {before h later : TracerHost ω} {config : Config ω}
    {world : ω} (hinit : init before config world = .ok (t, h)) (hkept : h.shared ⊆ later.shared)
    (cause : TraceError) (totals : Totals) :
    shutdownBehind (.broken cause) t later totals = .error cause := by
  obtain ⟨after, huninstall⟩ := uninstall_of_init hinit hkept
  unfold shutdownBehind
  rw [huninstall]
  rfl

/-- Whatever order threads start and end in, a merge ends a start of its own, and at the end the
session answers for all starts: with the first start that got no buffer, with how many starts were
never merged, or with a summary of all of them. -/
theorem shutdown_accounts {t : Tracer ω} {before h later : TracerHost ω} {config : Config ω}
    {world : ω} (hinit : init before config world = .ok (t, h)) (hkept : h.shared ⊆ later.shared)
    {c : Contexts κ ω} (htotals : c.session.totals = .empty)
    (hnew : ∀ k, t.traceState? (c.threads k) = none) (calls : List (SessionCall κ ω)) :
    let r := SessionCall.run t calls (c, .empty)
    r.2.merges.length ≤ r.2.starts ∧
      (r.2.merges.map Prod.fst).Nodup ∧ (∀ n ∈ r.2.merges.map Prod.fst, n < r.2.starts) ∧
      r.2.ShutsDown (t.shutdown later r.1.session.totals) := by
  intro r
  have haccounted : Accounted t r.1 r.2 := (Accounted.empty htotals hnew).run calls
  refine ⟨haccounted.length_merges_le, haccounted.once, haccounted.begun, ?_⟩
  obtain ⟨after, huninstall⟩ := uninstall_of_init hinit hkept
  unfold shutdown shutdownBehind
  rw [huninstall, haccounted.totals]
  exact shutsDown_summary haccounted.length_merges_le

end Tracer

namespace Sample

def contexts : Contexts Bool Batches :=
  ⟨fun k => .create ⟨if k then 1 else 2⟩ (.withLimit none), session⟩

/-- One context is ended before it is started, and started a second time before it is ended; the
other one is ended twice. -/
def overlapping : List (SessionCall Bool Batches) :=
  [.threadEnd false, .threadStart true, .resumeStart false, .flush true, .threadStart false,
    .threadEnd true, .threadEnd true, .threadEnd false]

/-- The ledger of the calls. -/
def overlapped : Ledger Bool :=
  (SessionCall.run traced.1 overlapping (contexts, .empty)).2

theorem counts_overlapped :
    overlapped.failure = none ∧ overlapped.starts = 3 ∧ overlapped.merges.length = 2 := by
  decide +kernel

theorem init_traced : Tracer.init host config [] = .ok (traced.1, traced.2) := rfl

/-- The state that the second start on a context replaces is never merged. -/
theorem unfinalized_overlapping :
    traced.1.shutdown traced.2
      (SessionCall.run traced.1 overlapping (contexts, .empty)).1.session.totals =
        .error (.unfinalized 1) := by
  have haccounts := Tracer.shutdown_accounts init_traced (List.Subset.refl traced.2.shared)
    (show contexts.session.totals = .empty from rfl) (fun _ => rfl) overlapping
  obtain ⟨_, _, _, hshutdown⟩ := haccounts
  change overlapped.ShutsDown _ at hshutdown
  obtain ⟨hfailure, hstarts, hmerges⟩ := counts_overlapped
  have hanswer := hshutdown.unfinalized hfailure (by omega)
  rwa [hstarts, hmerges] at hanswer

end Sample

end AccessTrace
