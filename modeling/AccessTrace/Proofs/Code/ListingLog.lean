import Mathlib.Data.List.NodupEquivFin
import Mathlib.Logic.Relation
import AccessTrace.Proofs.Code.Listing

/-!
# Logs of listings

What a listing hands out in the course of its making, as a log. `Listing.Grows` is one step: an
entry is added under a new handle, at the end or right before an anchor, or a label is taken. The
entries that are there never change their order, and a log says where each of them stands: what was
inserted at an anchor, or at something inserted there, fills one block right before the anchor, and
the entries that were inserted at the anchor itself are in it in the order of the calls.
-/

namespace AccessTrace

/-- What a call that succeeds hands out. -/
inductive ListingEvent where
  | appended (handle : Handle) (node : Node)
  | inserted (handle anchor : Handle) (i : Injected)
  | labelled (label : Label)
deriving DecidableEq

namespace ListingEvent

/-- The node that was added, under the handle that was issued for it. -/
def entry? : ListingEvent → Option (Handle × Node)
  | appended handle node => some (handle, node)
  | inserted handle _ i => some (handle, .injected i)
  | labelled _ => none

def label? : ListingEvent → Option Label
  | labelled label => some label
  | _ => none

/-- The handle of what was inserted right before an anchor. -/
def insertedAt? (anchor : Handle) : ListingEvent → Option Handle
  | inserted handle place _ => if place = anchor then some handle else none
  | _ => none

/-- The entries that some calls added, in the order of the calls. -/
def entries (log : List ListingEvent) : List (Handle × Node) :=
  log.filterMap entry?

/-- The handles that were issued, in the order of the calls. -/
def handles (log : List ListingEvent) : List Handle :=
  (entries log).map (·.1)

def labels (log : List ListingEvent) : List Label :=
  log.filterMap label?

/-- The handles of what was inserted right before an anchor, in the order of the calls. -/
def insertedAt (log : List ListingEvent) (anchor : Handle) : List Handle :=
  log.filterMap (insertedAt? anchor)

/-- The entry was inserted at the anchor, or at something that was. -/
def Under (log : List ListingEvent) : Handle → Handle → Prop :=
  Relation.TransGen fun handle anchor => handle ∈ insertedAt log anchor

variable {log : List ListingEvent} {event : ListingEvent} {handle anchor place new : Handle}
  {i : Injected}

theorem filterMap_concat {α : Type} (select : ListingEvent → Option α) (log : List ListingEvent)
    (event : ListingEvent) :
    (log ++ [event]).filterMap select = log.filterMap select ++ (select event).toList := by
  rw [List.filterMap_append, List.filterMap_cons]
  cases select event <;> rfl

theorem handles_concat (log : List ListingEvent) (event : ListingEvent) :
    handles (log ++ [event]) = handles log ++ (event.entry?.map (·.1)).toList := by
  rw [handles, entries, filterMap_concat, List.map_append, Option.toList_map]
  rfl

theorem insertedAt_concat (log : List ListingEvent) (event : ListingEvent) (anchor : Handle) :
    insertedAt (log ++ [event]) anchor =
      insertedAt log anchor ++ (event.insertedAt? anchor).toList :=
  filterMap_concat _ log event

/-- What was inserted somewhere was issued. -/
theorem mem_handles_of_insertedAt (h : handle ∈ insertedAt log anchor) : handle ∈ handles log := by
  obtain ⟨event, hevent, hinserted⟩ := List.mem_filterMap.1 h
  cases event with
  | inserted new place i =>
    rw [insertedAt?, Option.ite_none_right_eq_some] at hinserted
    obtain ⟨_, hnew⟩ := hinserted
    obtain rfl := Option.some.inj hnew
    have hentry : (new, Node.injected i) ∈ entries log := List.mem_filterMap.2 ⟨_, hevent, rfl⟩
    exact List.mem_map_of_mem hentry
  | _ => contradiction

theorem not_under_of_nil (h : insertedAt log anchor = []) : ¬ Under log handle anchor := by
  intro hunder
  obtain ⟨_, _, hlast⟩ := Relation.TransGen.tail'_iff.1 hunder
  rw [h] at hlast
  exact absurd hlast List.not_mem_nil

/-- One more insertion adds the new entry under its anchor and what the anchor is under. -/
theorem under_insert_iff (hnew : insertedAt log new = []) (hne : place ≠ new) :
    Under (log ++ [.inserted new place i]) handle anchor ↔
      Under log handle anchor ∨ handle = new ∧ (anchor = place ∨ Under log place anchor) := by
  have hmem (handle anchor : Handle) :
      handle ∈ insertedAt (log ++ [.inserted new place i]) anchor ↔
        handle ∈ insertedAt log anchor ∨ handle = new ∧ anchor = place := by
    rw [insertedAt_concat, List.mem_append, insertedAt?, Option.mem_toList,
      Option.ite_none_right_eq_some, Option.some_inj]
    exact or_congr_right ⟨fun ⟨hplace, hhandle⟩ => ⟨hhandle.symm, hplace.symm⟩,
      fun ⟨hhandle, hplace⟩ => ⟨hplace.symm, hhandle.symm⟩⟩
  constructor
  · intro h
    induction h with
    | single h =>
      exact ((hmem _ _).1 h).imp .single fun ⟨hhandle, hanchor⟩ => ⟨hhandle, .inl hanchor⟩
    | tail _ hlast ih =>
      rcases (hmem _ _).1 hlast with hold | ⟨rfl, _⟩
      · rcases ih with hunder | ⟨hhandle, rfl | hunder⟩
        · exact .inl (hunder.tail hold)
        · exact .inr ⟨hhandle, .inr (.single hold)⟩
        · exact .inr ⟨hhandle, .inr (hunder.tail hold)⟩
      · -- Nothing stands under the new entry yet.
        rcases ih with hunder | ⟨_, heq | hunder⟩
        · exact absurd hunder (not_under_of_nil hnew)
        · exact absurd heq.symm hne
        · exact absurd hunder (not_under_of_nil hnew)
  · have hold {handle anchor : Handle} (h : Under log handle anchor) :
        Under (log ++ [.inserted new place i]) handle anchor :=
      Relation.TransGen.mono (fun handle anchor h => (hmem handle anchor).2 (.inl h)) _ _ h
    rintro (h | ⟨rfl, rfl | h⟩)
    · exact hold h
    · exact .single ((hmem _ _).2 (.inr ⟨rfl, rfl⟩))
    · exact .head ((hmem _ _).2 (.inr ⟨rfl, rfl⟩)) (hold h)

end ListingEvent

open ListingEvent (entries insertedAt Under)

namespace Listing

variable {l l' : Listing} {handle anchor : Handle} {node : Node}
  {event : ListingEvent}

/-! ## Steps -/

/-- What a call that succeeds makes of a listing. -/
inductive Grows (l : Listing) : ListingEvent → Listing → Prop where
  | append (node : Node) : Grows l (.appended ⟨l.nextHandle⟩ node)
      ⟨l.entries ++ [(⟨l.nextHandle⟩, node)], l.nextHandle + 1, l.nextLabel⟩
  | insert {front back : List (Handle × Node)} {anchor : Handle} {node : Node}
    (hentries : l.entries = front ++ (anchor, node) :: back) (i : Injected) :
    Grows l (.inserted ⟨l.nextHandle⟩ anchor i)
      ⟨front ++ (⟨l.nextHandle⟩, .injected i) :: (anchor, node) :: back, l.nextHandle + 1,
        l.nextLabel⟩
  | label : Grows l (.labelled ⟨l.nextLabel⟩) ⟨l.entries, l.nextHandle, l.nextLabel + 1⟩

theorem Grows.issued (h : l.Grows event l') (hl : l.Issued) : l'.Issued := by
  cases h with
  | append node => exact hl.insert (List.append_nil _).symm node _
  | insert hentries i => exact hl.insert hentries _ _
  | label => exact ⟨hl.distinct, hl.fresh⟩

/-- The entries that are there stay in their order. -/
theorem Grows.sublist (h : l.Grows event l') : l.handles.Sublist l'.handles := by
  refine List.Sublist.map _ ?_
  cases h with
  | append node => exact List.sublist_append_left _ _
  | insert hentries i =>
    rw [hentries]
    exact (List.sublist_cons_self _ _).append_left _
  | label => exact List.Sublist.refl _

/-- Where the handles stay in their order, the positions move up and keep theirs. -/
theorem Issued.exists_shift (h : l.Issued) (h' : l'.Issued)
    (hsublist : l.handles.Sublist l'.handles) :
    ∃ shift : Nat → Nat, StrictMono shift ∧ ∀ handle p,
      l.position? handle = some p → l'.position? handle = some (shift p) := by
  obtain ⟨shift, hshift⟩ := List.sublist_iff_exists_orderEmbedding_getElem?_eq.1 hsublist
  refine ⟨shift, shift.strictMono, fun handle p hp => ?_⟩
  rw [h'.position?_eq_some_iff, ← hshift]
  exact h.position?_eq_some_iff.1 hp

/-- One entry at most is new. -/
theorem Grows.perm (h : l.Grows event l') :
    l'.entries.Perm (l.entries ++ event.entry?.toList) := by
  cases h with
  | append node => exact .refl _
  | insert hentries i =>
    rw [hentries]
    exact List.perm_middle.trans (List.perm_append_singleton _ _).symm
  | label => exact .of_eq (List.append_nil _).symm

/-- Handles are issued in the order of their numbers. -/
theorem Grows.range_nextHandle (h : l.Grows event l') :
    (List.range l'.nextHandle).map Handle.mk =
      (List.range l.nextHandle).map Handle.mk ++ (event.entry?.map (·.1)).toList := by
  cases h with
  | label => exact (List.append_nil _).symm
  | _ =>
    rw [List.range_succ, List.map_append]
    rfl

/-- So are labels. -/
theorem Grows.range_nextLabel (h : l.Grows event l') :
    (List.range l'.nextLabel).map Label.mk =
      (List.range l.nextLabel).map Label.mk ++ event.label?.toList := by
  cases h with
  | label =>
    rw [List.range_succ, List.map_append]
    rfl
  | _ => exact (List.append_nil _).symm

/-- What is inserted has its anchor in the listing. -/
theorem Grows.anchor_mem (h : l.Grows event l') (hinserted : event.insertedAt? anchor ≠ none) :
    anchor ∈ l.handles := by
  cases h with
  | @insert front back place node hentries i =>
    rw [ListingEvent.insertedAt?, ite_ne_right_iff] at hinserted
    obtain rfl := hinserted.1
    rw [handles, hentries]
    simp
  | _ => contradiction

/-! ## Blocks -/

/-- A handle, with a new one in front of it if it is the anchor. -/
def withNew (new anchor handle : Handle) : List Handle :=
  if handle = anchor then [new, handle] else [handle]

theorem flatMap_withNew_of_notMem {new anchor : Handle} {hs : List Handle} (h : anchor ∉ hs) :
    hs.flatMap (withNew new anchor) = hs := by
  induction hs with
  | nil => rfl
  | cons x hs ih =>
    rw [List.mem_cons, not_or] at h
    rw [List.flatMap_cons, ih h.2, withNew, if_neg (Ne.symm h.1), List.singleton_append]

theorem mem_withNew {new anchor x : Handle} :
    handle ∈ withNew new anchor x ↔ handle = x ∨ handle = new ∧ x = anchor := by
  unfold withNew
  split
  · simp [*, or_comm]
  · simp [*]

theorem mem_flatMap_withNew {new anchor : Handle} {hs : List Handle} :
    handle ∈ hs.flatMap (withNew new anchor) ↔ handle ∈ hs ∨ handle = new ∧ anchor ∈ hs := by
  simp only [List.mem_flatMap, mem_withNew]
  constructor
  · rintro ⟨x, hx, rfl | ⟨hnew, rfl⟩⟩
    · exact .inl hx
    · exact .inr ⟨hnew, hx⟩
  · rintro (hx | ⟨hnew, hx⟩)
    · exact ⟨handle, hx, .inl rfl⟩
    · exact ⟨anchor, hx, .inr ⟨hnew, rfl⟩⟩

/-- An entry that is inserted stands in front of its anchor alone. -/
theorem Issued.handles_insert (h : l.Issued) {front back : List (Handle × Node)}
    (hentries : l.entries = front ++ (anchor, node) :: back) (new : Handle × Node)
    (nextHandle nextLabel : Nat) :
    (⟨front ++ new :: (anchor, node) :: back, nextHandle, nextLabel⟩ : Listing).handles =
      l.handles.flatMap (withNew new.1 anchor) := by
  have hhandles : l.handles = front.map (·.1) ++ anchor :: back.map (·.1) := by
    rw [handles, hentries, List.map_append, List.map_cons]
  have hnodup := h.nodup
  rw [hhandles, List.nodup_middle, List.nodup_cons, List.mem_append, not_or] at hnodup
  rw [hhandles, List.flatMap_append, List.flatMap_cons, flatMap_withNew_of_notMem hnodup.1.1,
    flatMap_withNew_of_notMem hnodup.1.2, withNew, if_pos rfl, handles, List.map_append]
  rfl

/-- A selection without the new handle is the same as before. -/
theorem filter_flatMap_withNew {new anchor : Handle} {hs : List Handle} {keep : Handle → Bool}
    (h : keep new = false) : (hs.flatMap (withNew new anchor)).filter keep = hs.filter keep := by
  induction hs with
  | nil => rfl
  | cons x hs ih =>
    rw [List.flatMap_cons, List.filter_append, ih, withNew]
    split
    · rw [List.filter_cons_of_neg (by rw [h]; decide), ← List.filter_append, List.singleton_append]
    · rw [← List.filter_append, List.singleton_append]

/-- What was inserted at an anchor, or at something inserted there, fills the places right before
it; the handles of what was inserted at the anchor itself are among these in the order of the
calls. -/
def Gathers (log : List ListingEvent) (l : Listing) (anchor : Handle) : Prop :=
  ∃ front own back, l.handles = front ++ own ++ anchor :: back ∧
    (∀ handle, handle ∈ own ↔ Under log handle anchor) ∧
    own.filter (· ∈ insertedAt log anchor) = insertedAt log anchor

/-- An anchor at which nothing was inserted. -/
theorem gathers_of_nil {log : List ListingEvent} (h : insertedAt log anchor = [])
    (hmem : anchor ∈ l.handles) : Gathers log l anchor := by
  obtain ⟨front, back, hhandles⟩ := List.append_of_mem hmem
  refine ⟨front, [], back, by rw [hhandles, List.append_nil], fun handle => ?_, ?_⟩
  · exact iff_of_false List.not_mem_nil (ListingEvent.not_under_of_nil h)
  · rw [h, List.filter_nil]

/-- More entries at the end change nothing before them. -/
theorem Gathers.append {log : List ListingEvent} (h : Gathers log l anchor) {more : List Handle}
    (hhandles : l'.handles = l.handles ++ more)
    (hlog : ∀ anchor, insertedAt (log ++ [event]) anchor = insertedAt log anchor) :
    Gathers (log ++ [event]) l' anchor := by
  obtain ⟨front, own, back, hsplit, hunder, horder⟩ := h
  have hsame : Under (log ++ [event]) = Under log := by
    unfold Under
    simp only [hlog]
  refine ⟨front, own, back ++ more, ?_, ?_, ?_⟩
  · rw [hhandles, hsplit, List.append_assoc, List.cons_append]
  · rw [hsame]
    exact hunder
  · rw [hlog]
    exact horder

section Insertion

variable {log : List ListingEvent} {new place : Handle} {i : Injected}

/-- One more insertion at the anchor is the last of its block. -/
theorem Gathers.insert_at (h : Gathers log l anchor) (hl : l.handles.Nodup)
    (hfresh : new ∉ l.handles) (hnew : insertedAt log new = [])
    (hhandles : l'.handles = l.handles.flatMap (withNew new anchor)) :
    Gathers (log ++ [.inserted new anchor i]) l' anchor := by
  obtain ⟨front, own, back, hsplit, hunder, horder⟩ := h
  rw [hsplit] at hl hfresh
  have hne : anchor ≠ new := by
    rintro rfl
    exact hfresh (List.mem_append_right _ List.mem_cons_self)
  have hout : anchor ∉ own := fun hmem =>
    (List.nodup_append.1 hl).2.2 anchor (List.mem_append_right _ hmem) anchor List.mem_cons_self rfl
  have hown : ∀ handle ∈ own, handle ≠ new := by
    rintro handle hmem rfl
    exact hfresh (List.mem_append_left _ (List.mem_append_right _ hmem))
  have hinserted : insertedAt (log ++ [.inserted new anchor i]) anchor =
      insertedAt log anchor ++ [new] := by
    rw [ListingEvent.insertedAt_concat, ListingEvent.insertedAt?, if_pos rfl, Option.toList_some]
  refine ⟨front.flatMap (withNew new anchor), own ++ [new], back.flatMap (withNew new anchor),
    ?_, fun handle => ?_, ?_⟩
  · rw [hhandles, hsplit, List.flatMap_append, List.flatMap_append, List.flatMap_cons,
      flatMap_withNew_of_notMem hout, withNew, if_pos rfl]
    simp
  · rw [ListingEvent.under_insert_iff hnew hne, ← hunder, List.mem_append, List.mem_singleton,
      and_iff_left (Or.inl rfl)]
  · have hold : own.filter (· ∈ insertedAt log anchor ++ [new]) =
        own.filter (· ∈ insertedAt log anchor) :=
      List.filter_congr fun handle hmem => by simp [hown handle hmem]
    rw [hinserted, List.filter_append, hold, horder]
    simp

/-- One more insertion elsewhere, which is in the block if its place is. -/
theorem Gathers.insert_beside (h : Gathers log l anchor) (hplace : place ≠ anchor)
    (hne : place ≠ new) (hnew : insertedAt log new = []) (hissued : new ∉ insertedAt log anchor)
    (hhandles : l'.handles = l.handles.flatMap (withNew new place)) :
    Gathers (log ++ [.inserted new place i]) l' anchor := by
  obtain ⟨front, own, back, hsplit, hunder, horder⟩ := h
  have hinserted : insertedAt (log ++ [.inserted new place i]) anchor = insertedAt log anchor := by
    rw [ListingEvent.insertedAt_concat, ListingEvent.insertedAt?, if_neg hplace, Option.toList_none,
      List.append_nil]
  refine ⟨front.flatMap (withNew new place), own.flatMap (withNew new place),
    back.flatMap (withNew new place), ?_, fun handle => ?_, ?_⟩
  · rw [hhandles, hsplit, List.flatMap_append, List.flatMap_append, List.flatMap_cons, withNew,
      if_neg (Ne.symm hplace), List.singleton_append]
  · rw [ListingEvent.under_insert_iff hnew hne, ← hunder, ← hunder, mem_flatMap_withNew,
      or_iff_right (Ne.symm hplace)]
  · rw [hinserted, filter_flatMap_withNew (by simpa using hissued), horder]

end Insertion

/-! ## Logs -/

/-- The log tells what is in the listing, under which handles, and where. -/
structure Recorded (log : List ListingEvent) (l : Listing) : Prop extends l.Issued where
  handles : ListingEvent.handles log = (List.range l.nextHandle).map Handle.mk
  entries : l.entries.Perm (ListingEvent.entries log)
  labels : ListingEvent.labels log = (List.range l.nextLabel).map Label.mk
  anchors : ∀ anchor, insertedAt log anchor ≠ [] → anchor ∈ l.handles
  gathers : ∀ anchor ∈ l.handles, Gathers log l anchor

theorem recorded_empty : Recorded [] .empty :=
  ⟨⟨List.Pairwise.nil, fun _ h => absurd h List.not_mem_nil⟩, rfl, .refl _, rfl,
    fun _ h => absurd rfl h, fun _ h => absurd h List.not_mem_nil⟩

namespace Recorded

variable {log : List ListingEvent} (h : Recorded log l)

include h

theorem mem_handles_iff : handle ∈ ListingEvent.handles log ↔ handle ∈ l.handles :=
  (h.entries.map (·.1)).mem_iff.symm

theorem nodup_handles : (ListingEvent.handles log).Nodup :=
  (h.entries.map Prod.fst).nodup_iff.1 h.nodup

/-- Nothing was inserted yet at the next handle. -/
theorem insertedAt_next : insertedAt log ⟨l.nextHandle⟩ = [] :=
  Decidable.byContradiction fun hne => h.fresh_notMem (h.anchors _ hne)

theorem gathers_append (node : Node) {anchor : Handle}
    (hanchor : anchor ∈ (l.append node).2.handles) :
    Gathers (log ++ [.appended ⟨l.nextHandle⟩ node]) (l.append node).2 anchor := by
  have hlog (anchor : Handle) :
      insertedAt (log ++ [.appended ⟨l.nextHandle⟩ node]) anchor = insertedAt log anchor := by
    rw [ListingEvent.insertedAt_concat]
    exact List.append_nil _
  have hhandles : (l.append node).2.handles = l.handles ++ [⟨l.nextHandle⟩] := List.map_append
  by_cases hold : anchor ∈ l.handles
  · exact (h.gathers anchor hold).append hhandles hlog
  · refine gathers_of_nil ?_ hanchor
    rw [hhandles, List.mem_append, or_iff_right hold, List.mem_singleton] at hanchor
    rw [hlog, hanchor]
    exact h.insertedAt_next

theorem gathers_insert {place new : Handle} {i : Injected} (hplace : place ∈ l.handles)
    (hnew : new = ⟨l.nextHandle⟩) (hhandles : l'.handles = l.handles.flatMap (withNew new place))
    (hanchor : anchor ∈ l'.handles) :
    Gathers (log ++ [.inserted new place i]) l' anchor := by
  subst hnew
  have hfresh := h.fresh_notMem
  have hne : place ≠ ⟨l.nextHandle⟩ := fun heq => hfresh (heq ▸ hplace)
  have hunused (anchor : Handle) : (⟨l.nextHandle⟩ : Handle) ∉ insertedAt log anchor :=
    fun hmem => hfresh (h.mem_handles_iff.1 (ListingEvent.mem_handles_of_insertedAt hmem))
  have hnext := h.insertedAt_next
  by_cases hold : anchor ∈ l.handles
  · by_cases heq : place = anchor
    · subst heq
      exact (h.gathers place hold).insert_at h.nodup hfresh hnext hhandles
    · exact (h.gathers anchor hold).insert_beside heq hne hnext (hunused anchor) hhandles
  · have hmem := hanchor
    rw [hhandles, mem_flatMap_withNew, or_iff_right hold] at hmem
    refine gathers_of_nil ?_ hanchor
    rw [hmem.1, ListingEvent.insertedAt_concat, hnext, ListingEvent.insertedAt?, if_neg hne]
    rfl

theorem grow (hgrows : l.Grows event l') : Recorded (log ++ [event]) l' := by
  refine ⟨hgrows.issued h.toIssued, ?_, ?_, ?_, fun anchor hanchor => ?_, fun anchor hanchor => ?_⟩
  · rw [ListingEvent.handles_concat, h.handles, hgrows.range_nextHandle]
  · rw [ListingEvent.entries, ListingEvent.filterMap_concat]
    exact hgrows.perm.trans (h.entries.append_right _)
  · rw [ListingEvent.labels, ListingEvent.filterMap_concat, ← ListingEvent.labels, h.labels,
      hgrows.range_nextLabel]
  · by_cases hold : insertedAt log anchor = []
    · refine hgrows.sublist.subset (hgrows.anchor_mem fun hnone => hanchor ?_)
      rw [ListingEvent.insertedAt_concat, hold, hnone]
      rfl
    · exact hgrows.sublist.subset (h.anchors anchor hold)
  · cases hgrows with
    | append node => exact h.gathers_append node hanchor
    | @insert front back place node hentries i =>
      refine h.gathers_insert ?_ rfl (h.handles_insert hentries _ _ _) hanchor
      rw [Listing.handles, hentries, List.map_append]
      exact List.mem_append_right _ List.mem_cons_self
    | label =>
      refine (h.gathers anchor hanchor).append (List.append_nil _).symm fun anchor => ?_
      rw [ListingEvent.insertedAt_concat]
      exact List.append_nil _

end Recorded

/-- Where nothing is inserted at what was inserted at an anchor, that alone is right before it. -/
theorem Gathers.flat {log : List ListingEvent} (h : Gathers log l anchor)
    (hflat : ∀ handle ∈ insertedAt log anchor, insertedAt log handle = []) :
    ∃ front back, l.handles = front ++ insertedAt log anchor ++ anchor :: back := by
  obtain ⟨front, own, back, hsplit, hunder, horder⟩ := h
  have hdirect {handle : Handle} (hunder : Under log handle anchor) :
      handle ∈ insertedAt log anchor := by
    induction hunder using Relation.TransGen.head_induction_on with
    | single hlast => exact hlast
    | head hfirst _ ih =>
      rw [hflat _ ih] at hfirst
      contradiction
  have hown : own.filter (· ∈ insertedAt log anchor) = own :=
    List.filter_eq_self.2 fun handle hmem => decide_eq_true (hdirect ((hunder handle).1 hmem))
  exact ⟨front, back, by rw [← horder, hown, hsplit]⟩

end Listing

end AccessTrace
