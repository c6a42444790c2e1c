import AccessTrace.Log.Outputs
import AccessTrace.Proofs.Log.RoundTrip
import AccessTrace.Proofs.Machine.Steps

/-!
# Logs of several threads

Threads open their logs and write batches to them, in any interleaving. In memory every thread has
a log of its own, and reads its own batches back from it. In the shared stream the calls of all
threads stand one behind the other, each as a whole, and all batches are read back in the order of
the calls; a header that a late thread brings stands between batches and is passed over.
-/

namespace AccessTrace

/-- A call of a thread on the target of the logs. -/
inductive LogCall where
  | openLog (thread : ThreadId)
  | write (thread : ThreadId) (batch : List Record)

/-- The outputs, and the sinks of the threads that have opened one. -/
structure Logging where
  outputs : Outputs
  sinks : ThreadId → Option (Sink Outputs)

namespace LogCall

def thread : LogCall → ThreadId
  | openLog thread => thread
  | write thread _ => thread

/-- What the call adds to a log. -/
def part : LogCall → LogPart
  | openLog _ => .header
  | write _ batch => .batch batch

def batch? : LogCall → Option (List Record)
  | openLog _ => none
  | write _ batch => some batch

/-- All batches, in the order of the calls. -/
def batches (calls : List LogCall) : List (List Record) :=
  calls.filterMap batch?

/-- The calls of one thread. -/
def of (thread : ThreadId) (calls : List LogCall) : List LogCall :=
  calls.filter fun call => call.thread = thread

/-- A thread writes to the sink that it has opened last. -/
def perform (target : LogTarget Outputs) (format : LogFormat) :
    LogCall → EStateM LogError Logging Unit
  | openLog thread, s =>
    match target.start format thread s.outputs with
    | .ok sink outputs => .ok () ⟨outputs, fun t => if t = thread then some sink else s.sinks t⟩
    | .error e outputs => .error e { s with outputs }
  | write thread batch, s =>
    match s.sinks thread with
    | none => .ok () s
    | some sink =>
      match sink.writeBatch batch s.outputs with
      | .ok _ outputs => .ok () { s with outputs }
      | .error e outputs => .error e { s with outputs }

/-- The calls one after the other, until one of them fails. -/
def run (target : LogTarget Outputs) (format : LogFormat) :
    List LogCall → EStateM LogError Logging Unit
  | [] => pure ()
  | call :: rest => do
    call.perform target format
    run target format rest

/-- No thread writes before it has opened its log. -/
def Ordered : (opened : List ThreadId) → List LogCall → Prop
  | _, [] => True
  | opened, openLog thread :: rest => Ordered (thread :: opened) rest
  | opened, write thread _ :: rest => thread ∈ opened ∧ Ordered opened rest

theorem flatMap_records (calls : List LogCall) :
    (calls.map part).flatMap LogPart.records = (batches calls).flatten := by
  induction calls with
  | nil => rfl
  | cons call rest ih =>
    rw [List.map_cons, List.flatMap_cons, ih]
    cases call with
    | openLog thread => rfl
    | write thread batch => rfl

end LogCall

/-! ## Targets that keep every write -/

/-- The outputs after some bytes were written, unless there are none. -/
def Outputs.noted (record : List UInt8 → Outputs → Outputs) (bytes : List UInt8) (o : Outputs) :
    Outputs :=
  if bytes.isEmpty then o else record bytes o

theorem Outputs.writeAll_recording (record : List UInt8 → Outputs → Outputs) (bytes : List UInt8)
    (o : Outputs) : (Outputs.recording record).writeAll bytes o = .ok () (noted record bytes o) := by
  unfold Writer.writeAll noted
  split <;> rfl

/-- The log of a thread is a writer that keeps every write. -/
def Destination.Records (d : Destination) (record : ThreadId → List UInt8 → Outputs → Outputs) :
    Prop :=
  ∀ thread, d.writer thread = pure (Outputs.recording (record thread))

namespace LogCall

variable {d : Destination} {record : ThreadId → List UInt8 → Outputs → Outputs}
  {format : LogFormat}

theorem start_of_records (h : d.Records record) (thread : ThreadId) (o : Outputs) :
    d.target.start format thread o = .ok ((Outputs.recording (record thread)).sink format)
      (Outputs.noted (record thread) format.header o) := by
  change (d.writer thread >>= fun w => w.startLog format) o = _
  rw [h thread]
  change (Outputs.recording (record thread)).startLog format o = _
  unfold Writer.startLog
  rw [Outputs.writeAll_recording]

/-- The outputs after a call that succeeds. -/
def noted (record : ThreadId → List UInt8 → Outputs → Outputs) (format : LogFormat) (o : Outputs)
    (call : LogCall) : Outputs :=
  Outputs.noted (record call.thread) (call.part.bytes format) o

/-- The threads in the list have sinks of their logs. -/
def HaveSinks (record : ThreadId → List UInt8 → Outputs → Outputs) (format : LogFormat)
    (opened : List ThreadId) (s : Logging) : Prop :=
  ∀ t ∈ opened, s.sinks t = some ((Outputs.recording (record t)).sink format)

theorem perform_openLog (h : d.Records record) {opened : List ThreadId} {s : Logging}
    (hsinks : HaveSinks record format opened s) (thread : ThreadId) :
    ∃ s', (openLog thread).perform d.target format s = .ok () s' ∧
      s'.outputs = noted record format s.outputs (openLog thread) ∧
      HaveSinks record format (thread :: opened) s' := by
  have hstart : d.target.start format thread s.outputs = _ := start_of_records h thread s.outputs
  refine ⟨⟨noted record format s.outputs (openLog thread), fun t => if t = thread then
    some ((Outputs.recording (record thread)).sink format) else s.sinks t⟩, ?_, rfl, ?_⟩
  · unfold perform
    simp only [hstart]
    rfl
  · intro t ht
    by_cases hsame : t = thread
    · rw [hsame]
      exact if_pos rfl
    · rcases List.mem_cons.1 ht with rfl | ht
      · contradiction
      · exact (if_neg hsame).trans (hsinks t ht)

theorem perform_write {opened : List ThreadId} {s : Logging}
    (hsinks : HaveSinks record format opened s) {thread : ThreadId} (hopened : thread ∈ opened)
    (batch : List Record) : ∃ s', (write thread batch).perform d.target format s = .ok () s' ∧
      s'.outputs = noted record format s.outputs (write thread batch) ∧
      HaveSinks record format opened s' := by
  have hwrite : ((Outputs.recording (record thread)).sink format).writeBatch batch s.outputs =
      .ok () (noted record format s.outputs (write thread batch)) :=
    Outputs.writeAll_recording _ _ _
  refine ⟨{ s with outputs := noted record format s.outputs (write thread batch) }, ?_, rfl, hsinks⟩
  unfold perform
  simp only [hsinks thread hopened, hwrite]

/-- Every call succeeds, and adds its part to the log of its thread. -/
theorem run_of_records (h : d.Records record) {opened : List ThreadId} {calls : List LogCall}
    (hordered : Ordered opened calls) {s : Logging} (hsinks : HaveSinks record format opened s) :
    ∃ s', run d.target format calls s = .ok () s' ∧
      s'.outputs = calls.foldl (noted record format) s.outputs := by
  induction calls generalizing opened s with
  | nil => exact ⟨s, rfl, rfl⟩
  | cons call rest ih =>
    have hcall : ∃ opened' s₁, call.perform d.target format s = .ok () s₁ ∧
        s₁.outputs = noted record format s.outputs call ∧ HaveSinks record format opened' s₁ ∧
        Ordered opened' rest := by
      cases call with
      | openLog thread =>
        obtain ⟨s₁, hperform, houtputs, hsinks₁⟩ := perform_openLog h hsinks thread
        exact ⟨thread :: opened, s₁, hperform, houtputs, hsinks₁, hordered⟩
      | write thread batch =>
        obtain ⟨hopened, hrest⟩ := hordered
        obtain ⟨s₁, hperform, houtputs, hsinks₁⟩ := perform_write hsinks hopened batch
        exact ⟨opened, s₁, hperform, houtputs, hsinks₁, hrest⟩
    obtain ⟨opened', s₁, hperform, houtputs, hsinks₁, hrest⟩ := hcall
    obtain ⟨s', hrun, hfinal⟩ := ih hrest hsinks₁
    refine ⟨s', ?_, ?_⟩
    · change (call.perform d.target format >>= fun _ => run d.target format rest) s = _
      rw [Step.bind_of_ok hperform, hrun]
    · rw [hfinal, houtputs, List.foldl_cons]

end LogCall

/-! ## The logs in memory -/

namespace MemoryLogs

/-- Every thread has one entry, and lower threads come first. -/
def Sorted (logs : MemoryLogs) : Prop :=
  logs.Pairwise fun entry other => entry.1.number < other.1.number

variable {logs : MemoryLogs} {thread : ThreadId}

theorem lt_of_not_lt {a b : ThreadId} (hnot : ¬ a.number < b.number) (hother : a ≠ b) :
    b.number < a.number := by
  refine UInt64.lt_of_le_of_ne (UInt64.not_lt.1 hnot) fun hsame => hother ?_
  exact congrArg ThreadId.mk hsame.symm

theorem mem_push {bytes : List UInt8} {entry : ThreadId × Array (List UInt8)}
    (h : entry ∈ push thread bytes logs) : entry.1 = thread ∨ entry ∈ logs := by
  induction logs with
  | nil => exact Or.inl (by rw [List.mem_singleton.1 h])
  | cons first rest ih =>
    unfold push at h
    split at h
    · rcases List.mem_cons.1 h with rfl | h
      · exact Or.inr List.mem_cons_self
      · exact (ih h).imp_right (List.mem_cons_of_mem _)
    · split at h
      · rcases List.mem_cons.1 h with rfl | h
        · exact Or.inl rfl
        · exact Or.inr (List.mem_cons_of_mem _ h)
      · rcases List.mem_cons.1 h with rfl | h
        · exact Or.inl rfl
        · exact Or.inr h

theorem Sorted.push (h : Sorted logs) (thread : ThreadId) (bytes : List UInt8) :
    Sorted (push thread bytes logs) := by
  induction logs with
  | nil => exact List.pairwise_singleton _ _
  | cons first rest ih =>
    obtain ⟨hfirst, hrest⟩ := List.pairwise_cons.1 h
    unfold MemoryLogs.push
    split
    · rename_i hlower
      refine List.pairwise_cons.2 ⟨fun entry hentry => ?_, ih hrest⟩
      rcases mem_push hentry with hsame | hentry
      · rwa [hsame]
      · exact hfirst entry hentry
    · split
      · rename_i hsame
        refine List.pairwise_cons.2 ⟨fun entry hentry => ?_, hrest⟩
        rw [← hsame]
        exact hfirst entry hentry
      · rename_i hnot hother
        have hhigher := lt_of_not_lt hnot hother
        refine List.pairwise_cons.2 ⟨fun entry hentry => ?_, h⟩
        rcases List.mem_cons.1 hentry with rfl | hentry
        · exact hhigher
        · exact UInt64.lt_trans hhigher (hfirst entry hentry)

theorem writes_cons (entry : ThreadId × Array (List UInt8)) (rest : MemoryLogs) (t : ThreadId) :
    writes (entry :: rest) t = if t = entry.1 then entry.2.toList else writes rest t := by
  unfold writes
  rw [List.lookup_cons]
  by_cases hsame : t = entry.1
  · rw [if_pos hsame, beq_iff_eq.2 hsame]
    rfl
  · rw [if_neg hsame, beq_eq_false_iff_ne.2 hsame]

theorem writes_eq_nil (h : ∀ entry ∈ logs, thread ≠ entry.1) : logs.writes thread = [] := by
  induction logs with
  | nil => rfl
  | cons entry rest ih =>
    rw [writes_cons, if_neg (h entry List.mem_cons_self),
      ih fun e he => h e (List.mem_cons_of_mem _ he)]

/-- A write goes to the end of the log of its thread, and to no other log. -/
theorem Sorted.writes_push (h : Sorted logs) (thread : ThreadId) (bytes : List UInt8)
    (t : ThreadId) : (MemoryLogs.push thread bytes logs).writes t =
      logs.writes t ++ if t = thread then [bytes] else [] := by
  induction logs with
  | nil =>
    unfold MemoryLogs.push
    rw [writes_cons]
    rfl
  | cons first rest ih =>
    obtain ⟨hfirst, hrest⟩ := List.pairwise_cons.1 h
    unfold MemoryLogs.push
    split
    · rename_i hlower
      rw [writes_cons, writes_cons, ih hrest]
      by_cases hsame : t = first.1
      · have hother : t ≠ thread := by
          rintro rfl
          rw [hsame] at hlower
          exact UInt64.lt_irrefl _ hlower
        rw [if_pos hsame, if_pos hsame, if_neg hother, List.append_nil]
      · rw [if_neg hsame, if_neg hsame]
    · split
      · rename_i hsame
        rw [writes_cons, writes_cons, hsame]
        by_cases ht : t = thread
        · rw [if_pos ht, if_pos ht, if_pos ht, Array.toList_push]
        · rw [if_neg ht, if_neg ht, if_neg ht, List.append_nil]
      · rename_i hnot hother
        have hhigher := lt_of_not_lt hnot hother
        rw [writes_cons]
        by_cases ht : t = thread
        · have hnone : writes (first :: rest) t = [] := by
            refine writes_eq_nil fun entry hentry hsame => ?_
            rcases List.mem_cons.1 hentry with rfl | hentry
            · exact hother (hsame.symm.trans ht)
            · have habove := UInt64.lt_trans hhigher (hfirst entry hentry)
              rw [← hsame, ht] at habove
              exact UInt64.lt_irrefl _ habove
          rw [if_pos ht, if_pos ht, hnone, List.nil_append]
        · rw [if_neg ht, if_neg ht, List.append_nil]

/-- The contents of a log are its writes, one behind the other. -/
theorem contents?_getD (logs : MemoryLogs) (t : ThreadId) :
    (logs.contents? t).getD [] = (logs.writes t).flatten := by
  unfold contents? writes
  cases List.lookup t logs <;> rfl

end MemoryLogs

namespace LogCall

/-- A write to the log of a thread in memory. -/
def recordMemory (thread : ThreadId) (bytes : List UInt8) (o : Outputs) : Outputs :=
  { o with memory := o.memory.push thread bytes }

/-- A write to the shared stream, whoever it comes from. -/
def recordShared (_ : ThreadId) (bytes : List UInt8) (o : Outputs) : Outputs :=
  { o with shared := o.shared.push bytes }

variable {format : LogFormat}

/-- What calls add to the log of each thread in memory. -/
theorem writes_foldl_memory (calls : List LogCall) {o : Outputs} (hsorted : o.memory.Sorted)
    (t : ThreadId) : ((calls.foldl (noted recordMemory format) o).memory.writes t).flatten =
      (o.memory.writes t).flatten ++ ((of t calls).map part).flatMap (LogPart.bytes format) := by
  induction calls generalizing o with
  | nil => exact (List.append_nil _).symm
  | cons call rest ih =>
    have hcall : (noted recordMemory format o call).memory.Sorted ∧
        ((noted recordMemory format o call).memory.writes t).flatten =
          (o.memory.writes t).flatten ++
            if t = call.thread then call.part.bytes format else [] := by
      unfold noted Outputs.noted
      split
      · rename_i hempty
        rw [List.isEmpty_iff.1 hempty, ite_self, List.append_nil]
        exact ⟨hsorted, rfl⟩
      · refine ⟨hsorted.push _ _, ?_⟩
        change (MemoryLogs.writes (MemoryLogs.push _ _ _) t).flatten = _
        rw [hsorted.writes_push, List.flatten_append]
        split
        · rw [List.flatten_singleton]
        · rfl
    rw [List.foldl_cons, ih hcall.1, hcall.2, List.append_assoc]
    refine congrArg _ ?_
    unfold of
    by_cases hthread : call.thread = t
    · rw [List.filter_cons_of_pos (by simpa using hthread), List.map_cons, List.flatMap_cons,
        if_pos hthread.symm]
    · rw [List.filter_cons_of_neg (by simpa using hthread), if_neg (Ne.symm hthread),
        List.nil_append]

/-- What calls add to the shared stream. -/
theorem shared_foldl (calls : List LogCall) (o : Outputs) :
    (calls.foldl (noted recordShared format) o).shared.toList.flatten =
      o.shared.toList.flatten ++ (calls.map part).flatMap (LogPart.bytes format) := by
  induction calls generalizing o with
  | nil => exact (List.append_nil _).symm
  | cons call rest ih =>
    have hcall : (noted recordShared format o call).shared.toList.flatten =
        o.shared.toList.flatten ++ call.part.bytes format := by
      unfold noted Outputs.noted
      split
      · rename_i hempty
        rw [List.isEmpty_iff.1 hempty, List.append_nil]
      · change (o.shared.push _).toList.flatten = _
        rw [Array.toList_push, List.flatten_append, List.flatten_singleton]
    rw [List.foldl_cons, ih, hcall, List.map_cons, List.flatMap_cons, List.append_assoc]

/-- The records of all batches are those of accesses. -/
def AllAccesses (calls : List LogCall) : Prop :=
  ∀ batch ∈ batches calls, ∀ r ∈ batch, r.IsAccess

theorem AllAccesses.parts {calls : List LogCall} (h : AllAccesses calls) :
    ∀ p ∈ calls.map part, ∀ r ∈ p.records, r.IsAccess := by
  intro p hp r hr
  obtain ⟨call, hcall, rfl⟩ := List.mem_map.1 hp
  cases call with
  | openLog thread => contradiction
  | write thread batch => exact h batch (List.mem_filterMap.2 ⟨_, hcall, rfl⟩) r hr

/-- In any interleaving of the calls of any threads, all calls succeed. In memory each thread reads
back its own batches. The shared stream is the headers and batches of all threads in the order of
the calls, and all batches are read back in this order. -/
theorem batches_read_back (format : LogFormat) {o : Outputs} (hmemory : o.memory = [])
    (hshared : o.shared = #[]) {calls : List LogCall} (hordered : Ordered [] calls)
    (haccesses : AllAccesses calls) :
    (∃ s, run Destination.memory.target format calls ⟨o, fun _ => none⟩ = .ok () s ∧
      ∀ thread, format.read ((s.outputs.memory.contents? thread).getD []) =
        .ok (batches (of thread calls)).flatten) ∧
    ∃ s, run Destination.shared.target format calls ⟨o, fun _ => none⟩ = .ok () s ∧
      s.outputs.shared.toList.flatten =
        (calls.map fun call => call.part.bytes format).flatten ∧
      format.read s.outputs.shared.toList.flatten = .ok (batches calls).flatten := by
  have hnone (record : ThreadId → List UInt8 → Outputs → Outputs) :
      HaveSinks record format [] ⟨o, fun _ => none⟩ := fun t ht => absurd ht List.not_mem_nil
  constructor
  · obtain ⟨s, hrun, houtputs⟩ := run_of_records
      (show Destination.memory.Records recordMemory from fun _ => rfl) hordered (hnone _)
    refine ⟨s, hrun, fun thread => ?_⟩
    have hown : AllAccesses (of thread calls) := fun batch hbatch => by
      obtain ⟨call, hcall, hcallBatch⟩ := List.mem_filterMap.1 hbatch
      exact haccesses batch (List.mem_filterMap.2 ⟨call, (List.mem_filter.1 hcall).1, hcallBatch⟩)
    rw [MemoryLogs.contents?_getD, houtputs, writes_foldl_memory calls (by rw [hmemory]; exact .nil),
      hmemory, ← flatMap_records]
    exact format.read_parts hown.parts
  · obtain ⟨s, hrun, houtputs⟩ := run_of_records
      (show Destination.shared.Records recordShared from fun _ => rfl) hordered (hnone _)
    have hstream : s.outputs.shared.toList.flatten =
        (calls.map part).flatMap (LogPart.bytes format) := by
      rw [houtputs, shared_foldl, hshared]
      rfl
    refine ⟨s, hrun, ?_, ?_⟩
    · rw [hstream, List.flatMap_map]
      rfl
    · rw [hstream, format.read_parts haccesses.parts, flatMap_records]

end LogCall

namespace Sample

def load : Record := .of false 0x7fff0010 4 0x401000

def store : Record := .of true 0xffffffffffffffff 512 0x401004

/-- Thread 7 has written twice when thread 3 opens its log; then both go on. -/
def late : List LogCall :=
  [.openLog ⟨7⟩, .write ⟨7⟩ [load, store], .write ⟨7⟩ [], .openLog ⟨3⟩, .write ⟨3⟩ [store],
    .write ⟨7⟩ [load]]

/-- Outputs that nothing was written to. -/
def quiet : Outputs := .ofFiles 1 ⟨[], [], [], #[], #[]⟩

theorem late_read_back :
    (∃ s, LogCall.run Destination.memory.target .text late ⟨quiet, fun _ => none⟩ = .ok () s ∧
      LogFormat.text.read ((s.outputs.memory.contents? ⟨7⟩).getD []) = .ok [load, store, load] ∧
      LogFormat.text.read ((s.outputs.memory.contents? ⟨3⟩).getD []) = .ok [store]) ∧
    ∃ s, LogCall.run Destination.shared.target .text late ⟨quiet, fun _ => none⟩ = .ok () s ∧
      LogFormat.text.read s.outputs.shared.toList.flatten = .ok [load, store, store, load] := by
  have hordered : LogCall.Ordered [] late :=
    ⟨List.mem_cons_self, List.mem_cons_self, List.mem_cons_self,
      List.mem_cons_of_mem _ List.mem_cons_self, trivial⟩
  have hload : load.IsAccess := ⟨false, _, _, _, rfl⟩
  have hstore : store.IsAccess := ⟨true, _, _, _, rfl⟩
  have haccesses : LogCall.AllAccesses late := by
    have hrecords : ∀ r ∈ (LogCall.batches late).flatten, r = load ∨ r = store := by
      decide
    intro batch hbatch r hr
    rcases hrecords r (List.mem_flatten.2 ⟨batch, hbatch, hr⟩) with rfl | rfl
    · exact hload
    · exact hstore
  obtain ⟨⟨s, hrun, hread⟩, s', hrun', _, hread'⟩ :=
    LogCall.batches_read_back .text (show quiet.memory = [] from rfl) rfl hordered haccesses
  exact ⟨⟨s, hrun, hread ⟨7⟩, hread ⟨3⟩⟩, s', hrun', hread'⟩

end Sample

end AccessTrace
