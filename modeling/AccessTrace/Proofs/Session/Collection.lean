import AccessTrace.Proofs.Machine.Steps
import AccessTrace.Proofs.Record.Placement
import AccessTrace.Proofs.Session.Phases
import AccessTrace.Session.Tracer

/-!
# Collecting records

What a thread has recorded so far is a list of batches that were drained and the records that are
still pending. `Collecting` says that the buffer, the trace state and the world of a running thread
are in accordance with that: the buffer holds what is pending, and the state and the world are
those after the batches were written to the sink, one after the other.
-/

namespace AccessTrace

namespace Thread

variable {δ : Type} {t : Thread δ} {field : FieldIndex}

theorem getElem?_modifyField (t : Thread δ) (field : FieldIndex)
    (change : ThreadField δ → ThreadField δ) :
    (t.modifyField field change).fields[field.number]? =
      some (change (t.fields[field.number]?.getD ⟨0, none⟩)) := by
  unfold modifyField
  simp only [Array.getElem?_modify, if_true]
  by_cases h : field.number < t.fields.size
  · rw [Array.getElem?_append_left h, Array.getElem?_eq_getElem h]
    rfl
  · rw [Array.getElem?_append_right (by omega), Array.getElem?_replicate, if_pos (by omega),
      Array.getElem?_eq_none (by omega)]
    rfl

theorem fieldWord_setFieldWord (t : Thread δ) (field : FieldIndex) (word : Word) :
    (t.setFieldWord field word).fieldWord field = .ok word := by
  unfold fieldWord setFieldWord
  rw [getElem?_modifyField]

theorem fieldData?_setFieldData (t : Thread δ) (field : FieldIndex) (data : δ) :
    (t.setFieldData field data).fieldData? field = some data := by
  unfold fieldData? setFieldData
  rw [getElem?_modifyField]
  rfl

/-- The word of a field stays when its data change. -/
theorem fieldWord_setFieldData {word : Word} (h : t.fieldWord field = .ok word) (data : δ) :
    (t.setFieldData field data).fieldWord field = .ok word := by
  unfold fieldWord setFieldData at *
  rw [getElem?_modifyField]
  cases hfield : t.fields[field.number]? with
  | none =>
    rw [hfield] at h
    contradiction
  | some f =>
    rw [hfield] at h
    exact h

theorem fieldData?_setFieldWord (t : Thread δ) (field : FieldIndex) (word : Word) :
    (t.setFieldWord field word).fieldData? field = t.fieldData? field := by
  unfold fieldData? setFieldWord
  rw [getElem?_modifyField]
  cases t.fields[field.number]? <;> rfl

end Thread

/-- The batches that were drained, and the records that are pending. -/
structure Collected where
  batches : List (List Record)
  pending : List Record

namespace Collected

def empty : Collected := ⟨[], []⟩

/-- One more record; the one that fills the buffer makes a batch of it. -/
def add (capacity : Nat) (k : Collected) (r : Record) : Collected :=
  if k.pending.length + 1 = capacity then ⟨k.batches ++ [k.pending ++ [r]], []⟩
  else ⟨k.batches, k.pending ++ [r]⟩

def addAll (capacity : Nat) (k : Collected) (rs : List Record) : Collected :=
  rs.foldl (add capacity) k

/-- Full batches, and fewer records than would fill another. -/
structure Packed (capacity : Nat) (k : Collected) : Prop where
  full : ∀ batch ∈ k.batches, batch.length = capacity
  room : k.pending.length < capacity

/-- All records, in the order in which they came. -/
def all (k : Collected) : List Record :=
  k.batches.flatten ++ k.pending

/-- All batches, with what is pending as the last one. -/
def flushed (k : Collected) : List (List Record) :=
  if k.pending = [] then k.batches else k.batches ++ [k.pending]

variable {capacity : Nat} {k : Collected}

theorem packed_empty (h : 0 < capacity) : empty.Packed capacity :=
  ⟨by simp [empty], h⟩

theorem Packed.add (h : k.Packed capacity) (r : Record) : (k.add capacity r).Packed capacity := by
  have hroom := h.room
  unfold Collected.add
  split
  · refine ⟨fun batch hbatch => ?_, by simpa using by omega⟩
    rcases List.mem_append.1 hbatch with hbatch | hbatch
    · exact h.full batch hbatch
    · obtain rfl := List.mem_singleton.1 hbatch
      simpa
  · exact ⟨h.full, by simp; omega⟩

theorem all_add (k : Collected) (r : Record) : (k.add capacity r).all = k.all ++ [r] := by
  unfold Collected.add
  split <;> simp [all]

theorem Packed.addAll (h : k.Packed capacity) (rs : List Record) :
    (k.addAll capacity rs).Packed capacity := by
  induction rs generalizing k with
  | nil => exact h
  | cons r rs ih => exact ih (h.add r)

theorem all_addAll (k : Collected) (rs : List Record) :
    (k.addAll capacity rs).all = k.all ++ rs := by
  induction rs generalizing k with
  | nil => simp [addAll]
  | cons r rs ih =>
    change ((k.add capacity r).addAll capacity rs).all = _
    rw [ih, all_add, List.append_assoc]
    rfl

theorem addAll_append (k : Collected) (xs ys : List Record) :
    k.addAll capacity (xs ++ ys) = (k.addAll capacity xs).addAll capacity ys :=
  List.foldl_append

end Collected

namespace TraceState

variable {ω : Type}

/-- Writes batches one after the other. -/
def writeBatches (sink : Sink ω) (batches : List (List Record)) (start : TraceState ω × ω) :
    TraceState ω × ω :=
  batches.foldl (fun s batch => s.1.writeBatch sink batch s.2) start

theorem writeBatches_append (sink : Sink ω) (xs ys : List (List Record))
    (start : TraceState ω × ω) :
    writeBatches sink (xs ++ ys) start = writeBatches sink ys (writeBatches sink xs start) :=
  List.foldl_append

theorem Active.writeBatches {b : TraceBuffer} {sink : Sink ω} {start : TraceState ω × ω}
    (h : start.1.Active b sink) (batches : List (List Record)) :
    (writeBatches sink batches start).1.Active b sink := by
  induction batches generalizing start with
  | nil => exact h
  | cons batch batches ih => exact ih (h.writeBatch batch start.2)

end TraceState

theorem onTraceState_of_ok {ω α : Type} {field : FieldIndex} {step : CollectM ω (Session ω) α}
    {s : Running (TraceState ω) (Session ω)} {state state' : TraceState ω} {m' : AddressSpace}
    {session : Session ω} {a : α} (hdata : s.thread.fieldData? field = some state)
    (h : step (state, s.thread.guest.memory, s.world) = .ok a (state', m', session)) :
    onTraceState field step s =
      .ok a ⟨(s.thread.setFieldData field state').setMemory m', session⟩ := by
  unfold onTraceState
  simp only [hdata, h]

open AddressSpace (Embeds)

variable {ω : Type}

/-- The thread is collecting into the buffer and the sink, and has collected `k` since it was in
the state `start`. -/
structure Collecting (field : FieldIndex) (b : TraceBuffer) (sink : Sink ω)
    (start : TraceState ω × Session ω) (k : Collected)
    (s : Running (TraceState ω) (Session ω)) : Prop where
  active : start.1.Active b sink
  word : s.thread.fieldWord field = .ok (UInt64.ofNat b.headerAddress)
  data : s.thread.fieldData? field =
    some (TraceState.writeBatches sink k.batches (start.1, start.2.world)).1
  world : s.world = { start.2 with
    world := (TraceState.writeBatches sink k.batches (start.1, start.2.world)).2 }
  holds : b.Holds k.pending s.thread.guest.memory

namespace Collecting

variable {field : FieldIndex} {b : TraceBuffer} {sink : Sink ω}
  {start : TraceState ω × Session ω} {k : Collected} {s : Running (TraceState ω) (Session ω)}

/-- The flush routine makes a batch of what is pending. -/
theorem flush (h : Collecting field b sink start k s) (hpending : k.pending ≠ []) :
    ∃ s', flushRoutine field s = .ok () s' ∧
      Collecting field b sink start ⟨k.batches ++ [k.pending], []⟩ s' ∧
      s'.thread.spill = s.thread.spill ∧
      b.Confined s.thread.guest.memory s'.thread.guest.memory := by
  let before := TraceState.writeBatches sink k.batches (start.1, start.2.world)
  let after := before.1.writeBatch sink k.pending before.2
  obtain ⟨M', hdrain, hholds, hconfined⟩ := h.holds.drain
  have hactive : before.1.Active b sink := h.active.writeBatches k.batches
  have hflush : TraceState.flush (before.1, s.thread.guest.memory, before.2) =
      .ok k.pending.length (after.1, M', after.2) := hactive.flush_of_batch hdrain hpending
  let s' : Running (TraceState ω) (Session ω) :=
    ⟨(s.thread.setFieldData field after.1).setMemory M', { start.2 with world := after.2 }⟩
  have hworld : s.world.world = before.2 := by
    rw [h.world]
  have hthread : flushThread field s = .ok k.pending.length s' := by
    rw [← hworld] at hflush
    have hsession := onTraceState_of_ok h.data (TraceState.inSession_of_ok s.world hflush)
    rw [h.world] at hsession
    exact hsession
  have hbatches : TraceState.writeBatches sink (k.batches ++ [k.pending])
      (start.1, start.2.world) = after := TraceState.writeBatches_append _ _ _ _
  refine ⟨s', ?_, ⟨h.active, ?_, ?_, ?_, hholds⟩, rfl, hconfined⟩
  · unfold flushRoutine
    rw [hthread]
  · exact Thread.fieldWord_setFieldData h.word after.1
  · rw [hbatches]
    exact Thread.fieldData?_setFieldData s.thread field after.1
  · rw [hbatches]

end Collecting

end AccessTrace
