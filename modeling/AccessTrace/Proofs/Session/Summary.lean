import Mathlib.Algebra.GroupWithZero.Nat
import Mathlib.Data.List.Nodup
import AccessTrace.Session.Summary

/-!
# Summaries

Threads end in any order, and while some end others start. The totals of a session are the sums of
the counters that were merged, and a summary has those counters sorted by thread. So it depends on
which counters were merged and not on when: counters of different threads can be sorted in one way
only.
-/

namespace AccessTrace

/-! ## Totals -/

namespace Totals

variable {t : Totals} {merged : List ThreadTotals}

/-- The totals are those of the counters that were merged, in the order of their merges. -/
structure Tally (t : Totals) (merged : List ThreadTotals) : Prop where
  threads : t.threads = merged
  records : t.records = (merged.map (·.records)).sum
  flushes : t.flushes = (merged.map (·.flushes)).sum
  writeErrors : t.writeErrors = (merged.map (·.writeErrors)).sum

theorem tally_empty : Totals.empty.Tally [] :=
  ⟨rfl, rfl, rfl, rfl⟩

theorem Tally.register (h : t.Tally merged) : t.register.Tally merged :=
  ⟨h.threads, h.records, h.flushes, h.writeErrors⟩

theorem Tally.abort (h : t.Tally merged) (reason : String) : (t.abort reason).Tally merged :=
  ⟨h.threads, h.records, h.flushes, h.writeErrors⟩

theorem Tally.merge (h : t.Tally merged) (counters : ThreadTotals) :
    (t.merge counters).Tally (merged ++ [counters]) := by
  have hsum (counter : ThreadTotals → Nat) : ((merged ++ [counters]).map counter).sum =
      (merged.map counter).sum + counter counters := by
    rw [List.map_append, List.sum_append, List.map_singleton, List.sum_singleton]
  constructor
  · exact congrArg (· ++ [counters]) h.threads
  · rw [hsum, ← h.records]
    rfl
  · rw [hsum, ← h.flushes]
    rfl
  · rw [hsum, ← h.writeErrors]
    rfl

end Totals

/-- What can happen to the totals of a session. -/
inductive TotalsCall where
  | register
  | merge (counters : ThreadTotals)
  | abort (reason : String)
deriving DecidableEq

namespace TotalsCall

def perform : TotalsCall → Totals → Totals
  | register, t => t.register
  | merge counters, t => t.merge counters
  | abort reason, t => t.abort reason

def run (calls : List TotalsCall) (t : Totals) : Totals :=
  calls.foldl (fun t call => call.perform t) t

def merged? : TotalsCall → Option ThreadTotals
  | merge counters => some counters
  | _ => none

/-- The counters that some calls merge, in order. -/
def merged (calls : List TotalsCall) : List ThreadTotals :=
  calls.filterMap merged?

variable {t : Totals} {done : List ThreadTotals}

theorem tally_perform (h : t.Tally done) (call : TotalsCall) :
    (call.perform t).Tally (done ++ merged [call]) := by
  cases call with
  | register =>
    rw [show merged [register] = [] from rfl, List.append_nil]
    exact h.register
  | merge counters => exact h.merge counters
  | abort reason =>
    rw [show merged [abort reason] = [] from rfl, List.append_nil]
    exact h.abort reason

/-- Any calls add up what they merge. -/
theorem tally_run (h : t.Tally done) (calls : List TotalsCall) :
    (run calls t).Tally (done ++ merged calls) := by
  induction calls generalizing t done with
  | nil =>
    rw [merged, List.filterMap_nil, List.append_nil]
    exact h
  | cons call rest ih =>
    have hrest := ih (tally_perform h call)
    rwa [List.append_assoc, merged, merged, ← List.filterMap_append] at hrest

theorem tally (calls : List TotalsCall) : (run calls .empty).Tally (merged calls) :=
  tally_run Totals.tally_empty calls

end TotalsCall

/-! ## Sorting -/

namespace Summary

theorem perm_insertByThread (counters : ThreadTotals) (sorted : List ThreadTotals) :
    (insertByThread counters sorted).Perm (counters :: sorted) := by
  induction sorted with
  | nil => exact .refl _
  | cons u rest ih =>
    unfold insertByThread
    split
    · exact (ih.cons u).trans (.swap counters u rest)
    · exact .refl _

theorem perm_sortByThread (counters : List ThreadTotals) :
    (sortByThread counters).Perm counters := by
  induction counters with
  | nil => exact .refl _
  | cons u rest ih => exact (perm_insertByThread u (sortByThread rest)).trans (ih.cons u)

/-- Lower threads come first. -/
def Sorted (counters : List ThreadTotals) : Prop :=
  counters.Pairwise fun u v => u.thread.number ≤ v.thread.number

theorem Sorted.insertByThread {sorted : List ThreadTotals} (h : Sorted sorted)
    (counters : ThreadTotals) : Sorted (insertByThread counters sorted) := by
  induction sorted with
  | nil => exact List.pairwise_singleton _ _
  | cons u rest ih =>
    obtain ⟨hfirst, hrest⟩ := List.pairwise_cons.1 h
    unfold Summary.insertByThread
    split
    · rename_i hlower
      refine List.pairwise_cons.2 ⟨fun v hv => ?_, ih hrest⟩
      rcases List.mem_cons.1 ((perm_insertByThread counters rest).mem_iff.1 hv) with rfl | hv
      · exact UInt64.le_of_lt hlower
      · exact hfirst v hv
    · rename_i hnot
      have hle : counters.thread.number ≤ u.thread.number := UInt64.not_lt.1 hnot
      refine List.pairwise_cons.2 ⟨fun v hv => ?_, h⟩
      rcases List.mem_cons.1 hv with rfl | hv
      · exact hle
      · exact UInt64.le_trans hle (hfirst v hv)

theorem sorted_sortByThread (counters : List ThreadTotals) : Sorted (sortByThread counters) := by
  induction counters with
  | nil => exact .nil
  | cons u rest ih => exact ih.insertByThread u

/-- Sorted counters have the same sum. -/
theorem sum_sortByThread (counter : ThreadTotals → Nat) (counters : List ThreadTotals) :
    ((sortByThread counters).map counter).sum = (counters.map counter).sum :=
  ((perm_sortByThread counters).map counter).sum_nat

/-- Counters of different threads can be sorted in one way only. -/
theorem Sorted.eq_of_perm {xs ys : List ThreadTotals} (hxs : Sorted xs) (hys : Sorted ys)
    (hperm : xs.Perm ys) (hdistinct : (xs.map (·.thread)).Nodup) : xs = ys := by
  refine hperm.eq_of_pairwise (fun u v hu hv huv hvu => ?_) hxs hys
  have hthread : u.thread = v.thread := congrArg ThreadId.mk (UInt64.le_antisymm huv hvu)
  exact List.inj_on_of_nodup_map hdistinct hu (hperm.mem_iff.2 hv) hthread

/-! ## Summaries -/

/-- A summary of threads that have all ended: it counts them, sums their counters up, and has them
sorted by thread. -/
structure Of (s : Summary) (starts : Nat) (merged : List ThreadTotals) : Prop where
  threads : s.perThread.length = starts
  sorted : Sorted s.perThread
  perm : s.perThread.Perm merged
  records : s.records = (merged.map (·.records)).sum ∧
    s.records = (s.perThread.map (·.records)).sum
  flushes : s.flushes = (merged.map (·.flushes)).sum ∧
    s.flushes = (s.perThread.map (·.flushes)).sum
  writeErrors : s.writeErrors = (merged.map (·.writeErrors)).sum ∧
    s.writeErrors = (s.perThread.map (·.writeErrors)).sum

variable {t : Totals} {merged : List ThreadTotals}

/-- The summary of totals is one of the counters that were merged into them. -/
theorem of_tally (h : t.Tally merged) (format : LogFormat) (capacity : Nat)
    (overflowTest : String) :
    (ofTotals t format capacity overflowTest).Of merged.length merged := by
  have hthreads : (ofTotals t format capacity overflowTest).perThread = sortByThread merged :=
    congrArg sortByThread h.threads
  constructor
  · rw [hthreads]
    exact (perm_sortByThread merged).length_eq
  · rw [hthreads]
    exact sorted_sortByThread merged
  · rw [hthreads]
    exact perm_sortByThread merged
  · rw [hthreads, sum_sortByThread]
    exact ⟨h.records, h.records⟩
  · rw [hthreads, sum_sortByThread]
    exact ⟨h.flushes, h.flushes⟩
  · rw [hthreads, sum_sortByThread]
    exact ⟨h.writeErrors, h.writeErrors⟩

end Summary

namespace TotalsCall

open Summary (ofTotals)

/-- No total on the way is greater than at the end. -/
theorem totals_le_of_prefix {done calls : List TotalsCall} (h : done <+: calls) :
    (run done .empty).records ≤ (run calls .empty).records ∧
      (run done .empty).flushes ≤ (run calls .empty).flushes ∧
      (run done .empty).writeErrors ≤ (run calls .empty).writeErrors := by
  obtain ⟨rest, rfl⟩ := h
  have hdone := tally done
  have hall := tally (done ++ rest)
  have hsum (counter : ThreadTotals → Nat) : ((merged done).map counter).sum ≤
      ((merged (done ++ rest)).map counter).sum := by
    rw [merged, merged, List.filterMap_append, List.map_append, List.sum_append]
    exact Nat.le_add_right _ _
  rw [hdone.records, hall.records, hdone.flushes, hall.flushes, hdone.writeErrors, hall.writeErrors]
  exact ⟨hsum _, hsum _, hsum _⟩

/-- Two runs that merge the counters of the same threads, in whatever order and with whatever starts
and aborts between them, end with the same summary. It is the sum of these counters and has them
sorted by thread; and where its sums fit into a word, so did every total on the way. -/
theorem same_summary {calls others : List TotalsCall}
    (hperm : (merged calls).Perm (merged others))
    (hdistinct : ((merged calls).map (·.thread)).Nodup)
    (format : LogFormat) (capacity : Nat) (overflowTest : String) :
    let s := ofTotals (run calls .empty) format capacity overflowTest
    ofTotals (run others .empty) format capacity overflowTest = s ∧
      s.Of (merged calls).length (merged calls) ∧
      ∀ done, done <+: calls → (run done .empty).records ≤ s.records ∧
        (run done .empty).flushes ≤ s.flushes ∧ (run done .empty).writeErrors ≤ s.writeErrors := by
  intro s
  have hs := Summary.of_tally (tally calls) format capacity overflowTest
  have hother := Summary.of_tally (tally others) format capacity overflowTest
  refine ⟨?_, hs, fun done hdone => totals_le_of_prefix hdone⟩
  have hsame (counter : ThreadTotals → Nat) : ((merged others).map counter).sum =
      ((merged calls).map counter).sum := (hperm.symm.map counter).sum_nat
  have hthreads : (ofTotals (run others .empty) format capacity overflowTest).perThread =
      s.perThread := by
    have hboth := (hs.perm.trans hperm).trans hother.perm.symm
    have hnodup : (s.perThread.map (·.thread)).Nodup :=
      (hs.perm.map _).nodup_iff.2 hdistinct
    exact (hs.sorted.eq_of_perm hother.sorted hboth hnodup).symm
  have hrecords := hother.records.1.trans ((hsame _).trans hs.records.1.symm)
  have hflushes := hother.flushes.1.trans ((hsame _).trans hs.flushes.1.symm)
  have herrors := hother.writeErrors.1.trans ((hsame _).trans hs.writeErrors.1.symm)
  unfold ofTotals at hthreads hrecords hflushes herrors ⊢
  simp only at hthreads hrecords hflushes herrors
  rw [hthreads, hrecords, hflushes, herrors]
  rfl

end TotalsCall

namespace Sample

/-- Three threads end in the order in which they started. -/
def inOrder : List TotalsCall :=
  [.register, .register, .register, .merge ⟨⟨2⟩, 5, 3, 0⟩, .merge ⟨⟨7⟩, 0, 0, 0⟩,
    .merge ⟨⟨9⟩, 7, 1, 1⟩]

/-- They end in another order, each before the next one starts, and the session is aborted. -/
def oneByOne : List TotalsCall :=
  [.register, .merge ⟨⟨9⟩, 7, 1, 1⟩, .abort "no memory", .register, .merge ⟨⟨2⟩, 5, 3, 0⟩,
    .register, .merge ⟨⟨7⟩, 0, 0, 0⟩]

theorem summary_oneByOne :
    (TotalsCall.merged inOrder).Perm (TotalsCall.merged oneByOne) ∧
    Summary.ofTotals (TotalsCall.run oneByOne .empty) .binary 64 "lea+jrcxz" =
      ⟨12, 4, 1, .binary, 64, "lea+jrcxz", [⟨⟨2⟩, 5, 3, 0⟩, ⟨⟨7⟩, 0, 0, 0⟩, ⟨⟨9⟩, 7, 1, 1⟩]⟩ := by
  have hperm : (TotalsCall.merged inOrder).Perm (TotalsCall.merged oneByOne) := by decide
  refine ⟨hperm, ?_⟩
  rw [(TotalsCall.same_summary hperm (by decide) .binary 64 "lea+jrcxz").1]
  decide

end Sample

end AccessTrace
