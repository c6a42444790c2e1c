import AccessTrace.Proofs.Code.ListingLog
import AccessTrace.Proofs.Machine.Steps

/-!
# Handles that stay

The calls on a listing as data, so that one can speak of any sequence of them. Some of the calls may
fail; these leave the listing as it was and hand out nothing. Whatever was called, the log of what
was handed out tells the nodes and their places, by `Listing.Recorded`, and `Stable` collects what
follows for a planner that keeps the handles while it goes on inserting.
-/

namespace AccessTrace

open ListingEvent (entries insertedAt)

/-- What can be asked of a listing in the making. -/
inductive ListingCall where
  | append (node : Node)
  | insertBefore (anchor : Handle) (i : Injected)
  | newLabel
deriving DecidableEq

namespace ListingCall

/-- Makes a call. -/
def perform : ListingCall → EStateM MachineError Listing ListingEvent
  | append node => modifyGet fun l => (.appended (l.append node).1 node, (l.append node).2)
  | insertBefore anchor i => do
    match (← get).insertBefore anchor i with
    | .ok (handle, l) =>
      set l
      return .inserted handle anchor i
    | .error e => throw e
  | newLabel => modifyGet fun l => (.labelled l.newLabel.1, l.newLabel.2)

/-- Makes one call after the other, whether they succeed or fail, and notes what they hand out. -/
def run : List ListingCall → Listing → List ListingEvent × Listing
  | [], l => ([], l)
  | call :: rest, l =>
    match call.perform l with
    | .ok event l' => (event :: (run rest l').1, (run rest l').2)
    | .error _ l' => run rest l'

/-- What some calls on an empty listing hand out. -/
def log (calls : List ListingCall) : List ListingEvent :=
  (run calls .empty).1

/-- What some calls make of an empty listing. -/
def listing (calls : List ListingCall) : Listing :=
  (run calls .empty).2

/-! ## Calls -/

section Calls

variable {l l' : Listing} {anchor handle : Handle} {i : Injected}

theorem perform_insertBefore_of_ok (h : l.insertBefore anchor i = .ok (handle, l')) :
    (insertBefore anchor i).perform l = .ok (.inserted handle anchor i) l' := by
  rw [perform, Step.bind_of_ok (Step.get_apply l), h]
  rfl

theorem perform_insertBefore_of_error {e : MachineError} (h : l.insertBefore anchor i = .error e) :
    (insertBefore anchor i).perform l = .error e l := by
  rw [perform, Step.bind_of_ok (Step.get_apply l), h]
  rfl

/-- A call makes the listing grow, or fails and leaves it as it was. -/
theorem perform_cases (call : ListingCall) (l : Listing) :
    (∃ event l', call.perform l = .ok event l' ∧ l.Grows event l' ∧
      l'.nextLabel = l.nextLabel + [call].count .newLabel) ∨
    ∃ e, call.perform l = .error e l ∧ [call].count .newLabel = 0 := by
  cases call with
  | append node => exact .inl ⟨_, _, rfl, .append node, rfl⟩
  | insertBefore anchor i =>
    rcases l.insertBefore_cases anchor i with ⟨_, hinsert⟩ | ⟨handle, l', hinsert⟩
    · exact .inr ⟨_, perform_insertBefore_of_error hinsert, rfl⟩
    · obtain ⟨rfl, front, node, back, hentries, rfl⟩ := Listing.insertBefore_ok hinsert
      exact .inl ⟨_, _, perform_insertBefore_of_ok hinsert, .insert hentries i, rfl⟩
  | newLabel => exact .inl ⟨_, _, rfl, .label, rfl⟩

end Calls

/-! ## Runs -/

section Runs

/-- Calls keep a log up to date and the entries in order, and issue one label each time that one is
asked for. -/
theorem recorded_run {l : Listing} {log : List ListingEvent} (h : l.Recorded log)
    (calls : List ListingCall) :
    (run calls l).2.Recorded (log ++ (run calls l).1) ∧
      l.handles.Sublist (run calls l).2.handles ∧
      (run calls l).2.nextLabel = l.nextLabel + calls.count .newLabel := by
  induction calls generalizing l log with
  | nil => exact ⟨by rwa [run, List.append_nil], .refl _, rfl⟩
  | cons call rest ih =>
    have hcount : (call :: rest).count .newLabel =
        [call].count .newLabel + rest.count .newLabel := by
      rw [← List.count_append, List.singleton_append]
    rw [hcount, run]
    rcases call.perform_cases l with ⟨event, l', hperform, hgrows, hlabel⟩ | ⟨e, hperform, hlabel⟩
    · rw [hperform]
      obtain ⟨hrecorded, hsublist, hnext⟩ := ih (h.grow hgrows)
      refine ⟨?_, hgrows.sublist.trans hsublist, ?_⟩
      · rwa [List.append_assoc] at hrecorded
      · rw [hnext, hlabel, Nat.add_assoc]
    · rw [hperform, hlabel, Nat.zero_add]
      exact ih h

theorem run_append (calls later : List ListingCall) (l : Listing) :
    (run (calls ++ later) l).2 = (run later (run calls l).2).2 := by
  induction calls generalizing l with
  | nil => rfl
  | cons call rest ih =>
    rw [List.cons_append, run, run]
    cases call.perform l with
    | ok event l' => exact ih l'
    | error e l' => exact ih l'

/-- The listing of a block is one that calls make. -/
theorem listing_ofInstructions (block : List Instruction) :
    listing (block.map fun i => .append (.app i)) = .ofInstructions block := by
  have hrun (l : Listing) : (run (block.map fun i => .append (.app i)) l).2 =
      block.foldl (fun l i => (l.append (.app i)).2) l := by
    induction block generalizing l with
    | nil => rfl
    | cons i rest ih => exact ih (l.append (.app i)).2
  exact hrun .empty

variable (calls : List ListingCall)

theorem recorded : (listing calls).Recorded (log calls) :=
  (recorded_run Listing.recorded_empty calls).1

/-- One call more that succeeds. -/
theorem listing_concat_of_ok {call : ListingCall} {event : ListingEvent} {l' : Listing}
    (h : call.perform (listing calls) = .ok event l') : listing (calls ++ [call]) = l' := by
  rw [listing, run_append]
  change (run [call] (listing calls)).2 = l'
  rw [run, h]
  rfl

theorem sublist_handles (later : List ListingCall) :
    (listing calls).handles.Sublist (listing (calls ++ later)).handles := by
  rw [listing, listing, run_append]
  exact (recorded_run (recorded calls) later).2.1

theorem nextLabel_listing : (listing calls).nextLabel = calls.count .newLabel :=
  (recorded_run Listing.recorded_empty calls).2.2.trans (Nat.zero_add _)

end Runs

/-! ## Stability -/

/-- What handles, positions and labels mean after some calls on an empty listing, and what an
insertion will do. -/
structure Stable (calls : List ListingCall) : Prop where
  /-- A listing of a block is one where its instructions were appended. -/
  block : ∀ is : List Instruction, calls = is.map (fun i => append (.app i)) →
    listing calls = .ofInstructions is
  /-- No handle is issued twice. -/
  distinct : (ListingEvent.handles (log calls)).Nodup
  /-- A handle that was issued names the node that it was issued for; others name nothing. -/
  node? : ∀ handle node,
    (listing calls).node? handle = some node ↔ (handle, node) ∈ entries (log calls)
  position? : ∀ handle p,
    (listing calls).position? handle = some p ↔ (listing calls).handles[p]? = some handle
  /-- Whatever is called later, the order of the entries stays the same. -/
  order : ∀ later, ∃ shift : Nat → Nat, StrictMono shift ∧ ∀ handle p,
    (listing calls).position? handle = some p →
      (listing (calls ++ later)).position? handle = some (shift p)
  /-- At a handle that was issued an insertion succeeds, and takes the place right before it. -/
  inserts : ∀ anchor ∈ ListingEvent.handles (log calls), ∀ i, ∃ handle p,
    (listing calls).position? anchor = some p ∧
    (insertBefore anchor i).perform (listing calls) =
      .ok (.inserted handle anchor i) (listing (calls ++ [insertBefore anchor i])) ∧
    (listing (calls ++ [insertBefore anchor i])).node? handle = some (.injected i) ∧
    (listing (calls ++ [insertBefore anchor i])).position? handle = some p ∧
    (listing (calls ++ [insertBefore anchor i])).position? anchor = some (p + 1)
  /-- At a handle that was not issued an insertion fails and changes nothing. -/
  refuses : ∀ anchor, anchor ∉ ListingEvent.handles (log calls) → ∀ i,
    (insertBefore anchor i).perform (listing calls) =
      .error (.unknownHandle anchor) (listing calls)
  gathers : ∀ anchor ∈ ListingEvent.handles (log calls),
    (listing calls).Gathers (log calls) anchor
  /-- With nothing inserted at them in turn, what was inserted at an anchor stands right before it,
  in the order of the calls. -/
  flat : ∀ anchor ∈ ListingEvent.handles (log calls),
    (∀ handle ∈ insertedAt (log calls) anchor, insertedAt (log calls) handle = []) →
    ∃ front back,
      (listing calls).handles = front ++ insertedAt (log calls) anchor ++ anchor :: back
  /-- The application instructions, in the order of the listing. -/
  apps : (listing calls).appHandles = (listing calls).handles.filter fun handle =>
    ((listing calls).node? handle).any Node.isApp
  /-- As long as 32 bits are enough to count the labels, 32 bits tell them apart. -/
  labels : calls.count .newLabel < 2 ^ 32 →
    ((ListingEvent.labels (log calls)).map fun label => UInt32.ofNat label.number).Nodup

section Stability

variable {calls : List ListingCall} {anchor : Handle}

theorem inserts_of_mem (hanchor : anchor ∈ ListingEvent.handles (log calls)) (i : Injected) :
    ∃ handle p, (listing calls).position? anchor = some p ∧
      (insertBefore anchor i).perform (listing calls) =
        .ok (.inserted handle anchor i) (listing (calls ++ [insertBefore anchor i])) ∧
      (listing (calls ++ [insertBefore anchor i])).node? handle = some (.injected i) ∧
      (listing (calls ++ [insertBefore anchor i])).position? handle = some p ∧
      (listing (calls ++ [insertBefore anchor i])).position? anchor = some (p + 1) := by
  have h := recorded calls
  obtain ⟨p, hp⟩ := List.getElem?_of_mem (h.mem_handles_iff.1 hanchor)
  have hposition := h.position?_eq_some_iff.2 hp
  obtain ⟨l', hinsert, hnode, hnew, hmoved⟩ := h.insertBefore_of_position? hposition i
  have hperform := perform_insertBefore_of_ok hinsert
  rw [listing_concat_of_ok calls hperform]
  exact ⟨_, p, hposition, hperform, hnode, hnew, hmoved⟩

theorem refuses_of_notMem (hanchor : anchor ∉ ListingEvent.handles (log calls)) (i : Injected) :
    (insertBefore anchor i).perform (listing calls) =
      .error (.unknownHandle anchor) (listing calls) := by
  have hnone : (listing calls).position? anchor = none :=
    Listing.position?_eq_none_iff.2 fun hmem => hanchor ((recorded calls).mem_handles_iff.2 hmem)
  have hinsert : (listing calls).insertBefore anchor i = .error (.unknownHandle anchor) := by
    rw [Listing.insertBefore, hnone]
  exact perform_insertBefore_of_error hinsert

/-- Numbers below a bound stay apart in 32 bits. -/
theorem nodup_words {n : Nat} (h : n ≤ 2 ^ 32) : ((List.range n).map UInt32.ofNat).Nodup := by
  refine List.Nodup.map_on (fun x hx y hy heq => ?_) List.nodup_range
  have hxlt := Nat.lt_of_lt_of_le (List.mem_range.1 hx) h
  have hylt := Nat.lt_of_lt_of_le (List.mem_range.1 hy) h
  rw [← UInt32.toNat_inj, UInt32.toNat_ofNat_of_lt' hxlt, UInt32.toNat_ofNat_of_lt' hylt] at heq
  exact heq

/-- Handles and labels are stable under any calls on a listing. -/
theorem handles_stable (calls : List ListingCall) : Stable calls where
  block is hcalls := hcalls ▸ listing_ofInstructions is
  distinct := (recorded calls).nodup_handles
  node? _ _ := (recorded calls).node?_eq_some_iff.trans (recorded calls).entries.mem_iff
  position? _ _ := (recorded calls).position?_eq_some_iff
  order later := (recorded calls).exists_shift (recorded (calls ++ later)).toIssued
    (sublist_handles calls later)
  inserts _ hanchor := inserts_of_mem hanchor
  refuses _ hanchor := refuses_of_notMem hanchor
  gathers anchor hanchor :=
    (recorded calls).gathers anchor ((recorded calls).mem_handles_iff.1 hanchor)
  flat anchor hanchor hflat :=
    ((recorded calls).gathers anchor ((recorded calls).mem_handles_iff.1 hanchor)).flat hflat
  apps := (recorded calls).appHandles_eq
  labels hlabels := by
    rw [(recorded calls).labels, List.map_map, nextLabel_listing]
    exact nodup_words (Nat.le_of_lt hlabels)

end Stability

end ListingCall

namespace Sample

/-- A block of two instructions, three insertions at the second one, and one at the first of
these. -/
def nestedInsertions : List ListingCall :=
  [Instruction.nop 0x10, .nop 0x11].map (fun i => .append (.app i)) ++
    [.insertBefore ⟨1⟩ (.testZero .rax), .insertBefore ⟨1⟩ (.testZero .rbx),
      .insertBefore ⟨2⟩ (.testZero .rcx), .newLabel, .insertBefore ⟨9⟩ (.testZero .rdx),
      .insertBefore ⟨1⟩ (.testZero .rsi)]

theorem nested_insertions_gathered :
    (ListingCall.listing nestedInsertions).handles = [⟨0⟩, ⟨4⟩, ⟨2⟩, ⟨3⟩, ⟨5⟩, ⟨1⟩] ∧
      insertedAt (ListingCall.log nestedInsertions) ⟨1⟩ = [⟨2⟩, ⟨3⟩, ⟨5⟩] ∧
      (ListingCall.listing nestedInsertions).Gathers (ListingCall.log nestedInsertions) ⟨1⟩ :=
  ⟨by decide, by decide, (ListingCall.handles_stable nestedInsertions).gathers ⟨1⟩ (by decide)⟩

end Sample

end AccessTrace
