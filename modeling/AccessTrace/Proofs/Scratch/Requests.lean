import AccessTrace.Proofs.Code.Listing
import AccessTrace.Proofs.Scratch.Reservations
import Mathlib.Data.List.Nodup

/-!
# Requests and what comes of them

The four things that can be asked of reservations, at any handle. `Outcome` is all that can come of
a request: it is granted, by one change and at most one instruction in front of the anchor; or it is
refused, and everything stays as it is; or it had taken a slot already when the anchor turned out to
be unknown. In the last case the slot stays marked although nothing is kept in it, and that is all
that a request which fails leaves behind.
-/

namespace AccessTrace

namespace Listing

/-- `l'` is `l`, with an instruction inserted in front of the anchor if there is one to insert. -/
def Gains (l : Listing) (anchor : Handle) : Option Injected → Listing → Prop
  | none, l' => l' = l
  | some i, l' => ∃ handle, l.insertBefore anchor i = .ok (handle, l')

end Listing

/-! ## Candidates -/

namespace Reservations

variable {wanted : RegisterClass} {allowed : RegisterSet} {r : Register} {position : Nat}

/-- The class and the set of a request both have the register. -/
def Admits (wanted : RegisterClass) (allowed : RegisterSet) (r : Register) : Prop :=
  wanted.admits r = true ∧ allowed.contains r = true

/-- The registers that a request may be given, the preferred ones first. -/
def candidates (wanted : RegisterClass) (allowed : RegisterSet) : List Register :=
  preference.filter fun r => wanted.admits r && allowed.contains r

theorem Admits.general (h : Admits wanted allowed r) : r ≠ .rsp := by
  rintro rfl
  obtain ⟨hadmits, _⟩ := h
  cases wanted <;> contradiction

theorem mem_candidates : r ∈ candidates wanted allowed ↔ Admits wanted allowed r := by
  have hpreference : ∀ r, r ≠ .rsp → r ∈ preference := by
    intro r hr
    cases r <;> first | contradiction | decide
  rw [candidates, List.mem_filter, Bool.and_eq_true]
  exact ⟨fun h => h.2, fun h => ⟨hpreference r h.general, h⟩⟩

theorem nodup_candidates (wanted : RegisterClass) (allowed : RegisterSet) :
    (candidates wanted allowed).Nodup := by
  have hpreference : preference.Nodup := by decide
  exact hpreference.filter _

/-- The register itself is named if it is the only candidate. -/
theorem refusal_eq_registerTaken_iff :
    refusal (candidates wanted allowed) wanted position = .registerTaken r ↔
      ∀ x, Admits wanted allowed x ↔ x = r := by
  have hmem (x : Register) : x ∈ candidates wanted allowed ↔ Admits wanted allowed x :=
    mem_candidates
  have hnodup := nodup_candidates wanted allowed
  constructor
  · intro h x
    rw [← hmem]
    unfold refusal at h
    split at h
    · rename_i only heq
      obtain rfl := MachineError.registerTaken.inj h
      rw [heq, List.mem_singleton]
    · contradiction
  · intro h
    have hperm : (candidates wanted allowed).Perm [r] := by
      refine (List.perm_ext_iff_of_nodup hnodup (List.nodup_singleton r)).2 fun x => ?_
      rw [hmem, h, List.mem_singleton]
    rw [List.perm_singleton.1 hperm]
    rfl

/-- Otherwise there are no candidates, or several. -/
theorem refusal_eq_noFreeRegister_iff :
    refusal (candidates wanted allowed) wanted position = .noFreeRegister wanted position ↔
      (∀ x, ¬ Admits wanted allowed x) ∨
        ∃ x y, x ≠ y ∧ Admits wanted allowed x ∧ Admits wanted allowed y := by
  have hmem (x : Register) : x ∈ candidates wanted allowed ↔ Admits wanted allowed x :=
    mem_candidates
  have hnodup := nodup_candidates wanted allowed
  simp only [← hmem]
  match hcandidates : candidates wanted allowed with
  | [] => exact iff_of_true rfl (Or.inl fun _ => List.not_mem_nil)
  | [only] =>
    refine iff_of_false (fun h => nomatch h) ?_
    rintro (hempty | ⟨x, y, hne, hx, hy⟩)
    · exact hempty only List.mem_cons_self
    · exact hne ((List.mem_singleton.1 hx).trans (List.mem_singleton.1 hy).symm)
  | x :: y :: rest =>
    rw [hcandidates, List.nodup_cons, List.mem_cons, not_or] at hnodup
    exact iff_of_true rfl (Or.inr ⟨x, y, hnodup.1.1, by simp, by simp⟩)

theorem refusal_cases (candidates : List Register) (wanted : RegisterClass) (position : Nat) :
    (∃ r, refusal candidates wanted position = .registerTaken r) ∨
      refusal candidates wanted position = .noFreeRegister wanted position := by
  unfold refusal
  split
  · exact Or.inl ⟨_, rfl⟩
  · exact Or.inr rfl

end Reservations

/-! ## Requests -/

open Reservations (Admits candidates refusal)

inductive Request where
  | reserve (wanted : RegisterClass) (allowed : RegisterSet)
  | release (reg : Register)
  | reserveFlags
  | releaseFlags
deriving DecidableEq

namespace Request

/-- Makes a request; the answer is the register that was asked for, if one was. -/
def ask (anchor : Handle) : Request → ScratchM (Option Register)
  | reserve wanted allowed => do return some (← Scratch.reserve anchor wanted allowed)
  | release reg => do Scratch.release anchor reg; return none
  | reserveFlags => do Scratch.reserveFlags anchor; return none
  | releaseFlags => do Scratch.releaseFlags anchor; return none

/-- Whether something is kept aside for the request, in a slot that was not in use. -/
def takesSlot : Request → Bool
  | reserve _ _ | reserveFlags => true
  | release _ | releaseFlags => false

/-- The answers to a request that succeeds, with what is inserted for it. -/
inductive Grants : Request → Option Register → Option Injected → Prop where
  | reserve {wanted : RegisterClass} {allowed : RegisterSet} {reg : Register} {slot : SpillSlot}
    (h : Admits wanted allowed reg) :
    Grants (.reserve wanted allowed) (some reg) (some (.spill reg slot))
  | release {reg : Register} {slot : SpillSlot} :
    Grants (.release reg) none (some (.restore reg slot))
  | reserveFlags {slot : SpillSlot} : Grants .reserveFlags none (some (.saveFlags slot))
  | keepFlags : Grants .reserveFlags none none
  | releaseFlags {slot : SpillSlot} : Grants .releaseFlags none (some (.restoreFlags slot))
  | noFlags : Grants .releaseFlags none none

/-- Why a request is refused before anything is done for it. -/
inductive Refused (anchor : Handle) (s : Scratch) : Request → MachineError → Prop where
  | noRegister {wanted : RegisterClass} {allowed : RegisterSet}
    (h : ∀ r, Admits wanted allowed r → s.reservations.isHeld r = true) :
    Refused anchor s (.reserve wanted allowed)
      (refusal (candidates wanted allowed) wanted ((s.listing.position? anchor).getD 0))
  | noSlot {wanted : RegisterClass} {allowed : RegisterSet} {r : Register}
    (hr : Admits wanted allowed r) (hfree : s.reservations.isHeld r = false)
    (hslots : ∀ slot, ¬ s.reservations.Spare slot) :
    Refused anchor s (.reserve wanted allowed) .noSpillSlot
  | noSlotForFlags (hslots : ∀ slot, ¬ s.reservations.Spare slot) :
    Refused anchor s .reserveFlags .noSpillSlot
  | notHeld {reg : Register} (h : s.reservations.isHeld reg = false) :
    Refused anchor s (.release reg) (.registerNotHeld reg)
  | unknownHandle {request : Request} (hgives : request.takesSlot = false)
    (hunknown : s.listing.position? anchor = none) :
    Refused anchor s request (.unknownHandle anchor)

/-- What can come of a request. -/
inductive Outcome (anchor : Handle) (s : Scratch) (request : Request) :
    EStateM.Result MachineError Scratch (Option Register) → Prop where
  | granted {answer : Option Register} {i : Option Injected} {t : Scratch}
    (hgrants : request.Grants answer i) (hchange : s.reservations.Change i t.reservations)
    (hgains : s.listing.Gains anchor i t.listing) : Outcome anchor s request (.ok answer t)
  | refused {e : MachineError} (h : request.Refused anchor s e) :
    Outcome anchor s request (.error e s)
  /-- The slot was taken before the anchor was looked up. -/
  | lost {slot : SpillSlot} (htakes : request.takesSlot = true) (hslot : s.reservations.Spare slot)
    (hunknown : s.listing.position? anchor = none) :
    Outcome anchor s request
      (.error (.unknownHandle anchor) ⟨s.listing, s.reservations.markSlot slot true⟩)

variable {anchor : Handle} {s t : Scratch} {request : Request} {e : MachineError}

/-! ## Steps that requests are made of -/

/-- An insertion succeeds or finds no anchor. -/
theorem insert_cases (anchor : Handle) (i : Injected) (s : Scratch) :
    (∃ l, s.listing.Gains anchor (some i) l ∧
      (discard (Scratch.insertBefore anchor i) : ScratchM PUnit) s = .ok ⟨⟩ ⟨l, s.reservations⟩) ∨
    (s.listing.position? anchor = none ∧
      (discard (Scratch.insertBefore anchor i) : ScratchM PUnit) s =
        .error (.unknownHandle anchor) s) := by
  rcases s.listing.insertBefore_cases anchor i with ⟨hunknown, hinsert⟩ | ⟨handle, l, hinsert⟩
  · exact Or.inr ⟨hunknown, Scratch.insert_of_error hinsert⟩
  · exact Or.inl ⟨l, ⟨handle, hinsert⟩, Scratch.insert_of_ok hinsert⟩

/-- A slot is taken if there is one. -/
theorem takeSlot_cases (s : Scratch) :
    (∃ slot, s.reservations.Spare slot ∧
      Scratch.takeSlot s = .ok slot ⟨s.listing, s.reservations.markSlot slot true⟩) ∨
    ((∀ slot, ¬ s.reservations.Spare slot) ∧ Scratch.takeSlot s = .error .noSpillSlot s) := by
  cases hfree : s.reservations.freeSlot? with
  | none => exact Or.inr ⟨Reservations.not_spare_of_freeSlot? hfree, Scratch.takeSlot_of_none hfree⟩
  | some i =>
    exact Or.inl ⟨_, Reservations.spare_of_freeSlot? hfree, Scratch.takeSlot_of_some hfree⟩

/-- Takes a slot, inserts an instruction about it, and goes on from there. -/
def keeping {α : Type} (anchor : Handle) (i : SpillSlot → Injected)
    (finish : SpillSlot → ScratchM α) : ScratchM α := do
  let slot ← Scratch.takeSlot
  discard <| Scratch.insertBefore anchor (i slot)
  finish slot

theorem keeping_cases {α : Type} (anchor : Handle) (i : SpillSlot → Injected)
    (finish : SpillSlot → ScratchM α) (s : Scratch) :
    ((∀ slot, ¬ s.reservations.Spare slot) ∧
      keeping anchor i finish s = .error .noSpillSlot s) ∨
    ∃ slot, s.reservations.Spare slot ∧
      ((∃ l, s.listing.Gains anchor (some (i slot)) l ∧
        keeping anchor i finish s = finish slot ⟨l, s.reservations.markSlot slot true⟩) ∨
      (s.listing.position? anchor = none ∧ keeping anchor i finish s =
        .error (.unknownHandle anchor) ⟨s.listing, s.reservations.markSlot slot true⟩)) := by
  rcases takeSlot_cases s with ⟨slot, hslot, htake⟩ | ⟨hslots, htake⟩
  · refine Or.inr ⟨slot, hslot, ?_⟩
    rcases insert_cases anchor (i slot) ⟨s.listing, s.reservations.markSlot slot true⟩ with
      ⟨l, hgains, hinsert⟩ | ⟨hunknown, hinsert⟩
    · exact Or.inl ⟨l, hgains, (Step.bind_of_ok htake).trans (Step.bind_of_ok hinsert)⟩
    · exact Or.inr ⟨hunknown, (Step.bind_of_ok htake).trans (Step.bind_of_error hinsert)⟩
  · exact Or.inl ⟨hslots, Step.bind_of_error htake⟩

/-! ## Outcomes -/

theorem outcome_reserve (anchor : Handle) (wanted : RegisterClass) (allowed : RegisterSet)
    (s : Scratch) : Outcome anchor s (.reserve wanted allowed)
      ((reserve wanted allowed).ask anchor s) := by
  show Outcome anchor s _ ((Scratch.reserve anchor wanted allowed >>= fun reg => pure (some reg)) s)
  cases hfound : (candidates wanted allowed).find? fun r => !s.reservations.isHeld r with
  | none =>
    have hreserve : Scratch.reserve anchor wanted allowed s =
        .error (refusal (candidates wanted allowed) wanted
          ((s.listing.position? anchor).getD 0)) s := by
      unfold Scratch.reserve
      rw [Step.bind_of_ok (Step.get_apply s)]
      unfold candidates at hfound
      simp only [hfound]
      rfl
    rw [Step.bind_of_error hreserve]
    refine .refused (.noRegister fun r hr => ?_)
    simpa using List.find?_eq_none.1 hfound r (Reservations.mem_candidates.2 hr)
  | some reg =>
    have hreserve : Scratch.reserve anchor wanted allowed s =
        keeping anchor (.spill reg) (fun slot => do
          modify fun s => { s with reservations :=
            { s.reservations with held := s.reservations.held ++ [(reg, slot)] } }
          return reg) s := by
      unfold Scratch.reserve
      rw [Step.bind_of_ok (Step.get_apply s)]
      unfold candidates at hfound
      simp only [hfound]
      rfl
    have hadmits : Admits wanted allowed reg :=
      Reservations.mem_candidates.1 (List.mem_of_find?_eq_some hfound)
    have hfree : s.reservations.isHeld reg = false := by simpa using List.find?_some hfound
    rcases keeping_cases anchor (.spill reg) _ s with
      ⟨hslots, hkeep⟩ | ⟨slot, hslot, ⟨l, hgains, hkeep⟩ | ⟨hunknown, hkeep⟩⟩
    · rw [Step.bind_of_error (hreserve.trans hkeep)]
      exact .refused (.noSlot hadmits hfree hslots)
    · rw [Step.bind_of_ok (hreserve.trans hkeep)]
      exact .granted (.reserve hadmits) (.spill hadmits.general hfree hslot) hgains
    · rw [Step.bind_of_error (hreserve.trans hkeep)]
      exact .lost rfl hslot hunknown

theorem outcome_reserveFlags (anchor : Handle) (s : Scratch) :
    Outcome anchor s .reserveFlags (reserveFlags.ask anchor s) := by
  show Outcome anchor s _ ((Scratch.reserveFlags anchor >>= fun _ => pure none) s)
  cases hflags : s.reservations.flags with
  | some slot =>
    have hkept : Scratch.reserveFlags anchor s = .ok () s := by
      unfold Scratch.reserveFlags
      rw [Step.bind_of_ok (Step.get_apply s), hflags]
      rfl
    rw [Step.bind_of_ok hkept]
    exact .granted .keepFlags .idle rfl
  | none =>
    have hreserve : Scratch.reserveFlags anchor s =
        keeping anchor .saveFlags (fun slot => modify fun s =>
          { s with reservations := { s.reservations with flags := some slot } }) s := by
      unfold Scratch.reserveFlags
      rw [Step.bind_of_ok (Step.get_apply s), hflags]
      rfl
    rcases keeping_cases anchor .saveFlags _ s with
      ⟨hslots, hkeep⟩ | ⟨slot, hslot, ⟨l, hgains, hkeep⟩ | ⟨hunknown, hkeep⟩⟩
    · rw [Step.bind_of_error (hreserve.trans hkeep)]
      exact .refused (.noSlotForFlags hslots)
    · rw [Step.bind_of_ok (hreserve.trans hkeep)]
      exact .granted .reserveFlags (.saveFlags hflags hslot) hgains
    · rw [Step.bind_of_error (hreserve.trans hkeep)]
      exact .lost rfl hslot hunknown

theorem outcome_release (anchor : Handle) (reg : Register) (s : Scratch) :
    Outcome anchor s (.release reg) ((release reg).ask anchor s) := by
  show Outcome anchor s _ ((Scratch.release anchor reg >>= fun _ => pure none) s)
  cases hheld : s.reservations.held.lookup reg with
  | none =>
    have hrelease : Scratch.release anchor reg s = .error (.registerNotHeld reg) s := by
      unfold Scratch.release
      rw [Step.bind_of_ok (Step.get_apply s), hheld]
      rfl
    rw [Step.bind_of_error hrelease]
    exact .refused (.notHeld (Reservations.lookup_eq_none_iff.1 hheld))
  | some slot =>
    have hrelease : Scratch.release anchor reg s =
        (do
          discard <| Scratch.insertBefore anchor (.restore reg slot)
          modify fun s =>
            let held := s.reservations.held.eraseP fun h => h.1 == reg
            { s with reservations := { s.reservations with held }.markSlot slot false } :
          ScratchM Unit) s := by
      unfold Scratch.release
      rw [Step.bind_of_ok (Step.get_apply s), hheld]
    rcases insert_cases anchor (.restore reg slot) s with
      ⟨l, hgains, hinsert⟩ | ⟨hunknown, hinsert⟩
    · rw [Step.bind_of_ok (hrelease.trans (Step.bind_of_ok hinsert))]
      exact .granted .release (.restore hheld) hgains
    · rw [Step.bind_of_error (hrelease.trans (Step.bind_of_error hinsert))]
      exact .refused (.unknownHandle rfl hunknown)

theorem outcome_releaseFlags (anchor : Handle) (s : Scratch) :
    Outcome anchor s .releaseFlags (releaseFlags.ask anchor s) := by
  show Outcome anchor s _ ((Scratch.releaseFlags anchor >>= fun _ => pure none) s)
  cases hflags : s.reservations.flags with
  | none =>
    have hkept : Scratch.releaseFlags anchor s = .ok () s := by
      unfold Scratch.releaseFlags
      rw [Step.bind_of_ok (Step.get_apply s), hflags]
      rfl
    rw [Step.bind_of_ok hkept]
    exact .granted .noFlags .idle rfl
  | some slot =>
    have hrelease : Scratch.releaseFlags anchor s =
        (do
          discard <| Scratch.insertBefore anchor (.restoreFlags slot)
          modify fun s =>
            { s with reservations :=
              { s.reservations with flags := .none }.markSlot slot false } : ScratchM Unit) s := by
      unfold Scratch.releaseFlags
      rw [Step.bind_of_ok (Step.get_apply s), hflags]
    rcases insert_cases anchor (.restoreFlags slot) s with
      ⟨l, hgains, hinsert⟩ | ⟨hunknown, hinsert⟩
    · rw [Step.bind_of_ok (hrelease.trans (Step.bind_of_ok hinsert))]
      exact .granted .releaseFlags (.restoreFlags hflags) hgains
    · rw [Step.bind_of_error (hrelease.trans (Step.bind_of_error hinsert))]
      exact .refused (.unknownHandle rfl hunknown)

/-- These are all outcomes of any request. -/
theorem outcome (request : Request) (anchor : Handle) (s : Scratch) :
    Outcome anchor s request (request.ask anchor s) := by
  cases request with
  | reserve wanted allowed => exact outcome_reserve anchor wanted allowed s
  | release reg => exact outcome_release anchor reg s
  | reserveFlags => exact outcome_reserveFlags anchor s
  | releaseFlags => exact outcome_releaseFlags anchor s

/-! ## Requests that fail -/

/-- A request that fails leaves everything as it was, unless something was to be kept aside at a
handle that is not in the listing: that costs a slot. -/
theorem ask_error (h : request.ask anchor s = .error e t) :
    t.listing = s.listing ∧ t.reservations.held = s.reservations.held ∧
      t.reservations.flags = s.reservations.flags ∧
      if request.takesSlot = true ∧ e = .unknownHandle anchor then
        (∃ slot, s.reservations.Spare slot ∧
          t.reservations = s.reservations.markSlot slot true) ∧
        t.reservations.spareSlots + 1 = s.reservations.spareSlots
      else t = s := by
  have houtcome := request.outcome anchor s
  rw [h] at houtcome
  cases houtcome with
  | refused hrefused =>
    refine ⟨rfl, rfl, rfl, ?_⟩
    rw [if_neg]
    rintro ⟨htakes, hunknown⟩
    cases hrefused with
    | noRegister =>
      rcases Reservations.refusal_cases _ _ _ with ⟨r, hrefusal⟩ | hrefusal <;>
        rw [hrefusal] at hunknown <;> contradiction
    | unknownHandle hgives =>
      rw [hgives] at htakes
      contradiction
    | _ => contradiction
  | @lost slot htakes hslot hunknown =>
    refine ⟨rfl, rfl, rfl, ?_⟩
    rw [if_pos ⟨htakes, rfl⟩]
    exact ⟨⟨slot, hslot, rfl⟩, hslot.spareSlots⟩

end Request

namespace Sample

/-- Reservations in the listing of a single instruction, whose handle is 0. -/
def loneScratch : Scratch := ⟨.ofInstructions [.nop 0x100], .none⟩

/-- The flags cannot be kept aside at a handle that was never issued, and a slot is gone. -/
theorem flags_misplaced :
    Request.reserveFlags.ask ⟨9⟩ loneScratch = .error (.unknownHandle ⟨9⟩)
        ⟨loneScratch.listing, loneScratch.reservations.markSlot ⟨0⟩ true⟩ ∧
      (loneScratch.reservations.markSlot ⟨0⟩ true).spareSlots + 1 =
        loneScratch.reservations.spareSlots := by
  have herror : Request.reserveFlags.ask ⟨9⟩ loneScratch = .error (.unknownHandle ⟨9⟩)
      ⟨loneScratch.listing, loneScratch.reservations.markSlot ⟨0⟩ true⟩ := rfl
  obtain ⟨_, _, _, hlost⟩ := Request.ask_error herror
  rw [if_pos ⟨rfl, rfl⟩] at hlost
  exact ⟨herror, hlost.2⟩

/-- Requests for any register at a handle that was never issued. -/
def misplace : (count : Nat) → Scratch → Scratch
  | 0, s => s
  | count + 1, s => misplace count (Step.final ((Request.reserve .any .full).ask ⟨9⟩) s)

/-- A register that is free can be had before eight such requests have failed, and not after. -/
theorem slots_misplaced :
    (Request.reserve .any .full).ask ⟨9⟩ loneScratch = .error (.unknownHandle ⟨9⟩)
        ⟨loneScratch.listing, loneScratch.reservations.markSlot ⟨0⟩ true⟩ ∧
      loneScratch.reservations.markSlot ⟨0⟩ true ≠ loneScratch.reservations ∧
      (∃ t, (Request.reserve .any .full).ask ⟨0⟩ loneScratch = .ok (some .rbx) t) ∧
      (misplace 8 loneScratch).reservations.held = [] ∧
      (Request.reserve .any .full).ask ⟨0⟩ (misplace 8 loneScratch) =
        .error .noSpillSlot (misplace 8 loneScratch) :=
  ⟨rfl, by decide, ⟨_, rfl⟩, rfl, rfl⟩

end Sample

end AccessTrace
