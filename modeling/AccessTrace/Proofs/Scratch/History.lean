import AccessTrace.Proofs.Scratch.Requests

/-!
# Histories of requests

A history is a sequence of requests, each made at a handle of the listing as it is by then and each
answered, one way or the other. `Outstanding` reads off a history which registers were handed out
and not taken back, and where they were spilled to: this is what the held registers of the
reservations say. What a request for a register is answered with follows from what is held and from
the slots that are in use (`Answers`).
-/

namespace AccessTrace

open Reservations (Admits candidates refusal)

/-! ## Answers to requests for registers -/

namespace Request

variable {anchor : Handle} {s : Scratch} {wanted : RegisterClass} {allowed : RegisterSet}
  {position : Nat}

/-- A request for a register, at a handle of the listing. -/
theorem reserve_cases (hposition : s.listing.position? anchor = some position)
    (wanted : RegisterClass) (allowed : RegisterSet) :
    ((∀ r, Admits wanted allowed r → s.reservations.isHeld r = true) ∧
      (reserve wanted allowed).ask anchor s =
        .error (refusal (candidates wanted allowed) wanted position) s) ∨
    ((∃ r, Admits wanted allowed r ∧ s.reservations.isHeld r = false) ∧
      (((∀ slot, ¬ s.reservations.Spare slot) ∧
        (reserve wanted allowed).ask anchor s = .error .noSpillSlot s) ∨
      ((∃ slot, s.reservations.Spare slot) ∧
        ∃ reg t, (reserve wanted allowed).ask anchor s = .ok (some reg) t))) := by
  have houtcome := (reserve wanted allowed).outcome anchor s
  generalize hresult : (reserve wanted allowed).ask anchor s = result at houtcome
  cases houtcome with
  | @granted answer i t hgrants hchange hgains =>
    cases hgrants with
    | reserve hadmits =>
      generalize t.reservations = after at hchange
      cases hchange with
      | spill hreg hfree hslot =>
        exact Or.inr ⟨⟨_, hadmits, hfree⟩, Or.inr ⟨⟨_, hslot⟩, _, _, rfl⟩⟩
  | refused hrefused =>
    cases hrefused with
    | noRegister hheld =>
      rw [hposition, Option.getD_some]
      exact Or.inl ⟨hheld, rfl⟩
    | noSlot hr hfree hslots => exact Or.inr ⟨⟨_, hr, hfree⟩, Or.inl ⟨hslots, rfl⟩⟩
    | unknownHandle _ hunknown => simp [hunknown] at hposition
  | lost _ _ hunknown => simp [hunknown] at hposition

/-- The request fails with this error. -/
def FailsWith (request : Request) (anchor : Handle) (s : Scratch) (e : MachineError) : Prop :=
  ∃ t, request.ask anchor s = .error e t

theorem failsWith_iff {request : Request} {e : MachineError} {t : Scratch}
    (h : request.ask anchor s = .error e t) (e' : MachineError) :
    request.FailsWith anchor s e' ↔ e = e' := by
  refine ⟨?_, fun heq => ⟨t, heq ▸ h⟩⟩
  rintro ⟨t', h'⟩
  rw [h] at h'
  exact (EStateM.Result.error.inj h').1

theorem not_failsWith {request : Request} {answer : Option Register} {t : Scratch}
    (h : request.ask anchor s = .ok answer t) (e : MachineError) :
    ¬ request.FailsWith anchor s e := by
  rintro ⟨t', h'⟩
  rw [h] at h'
  contradiction

theorem ne_ok_of_error {request : Request} {e : MachineError} {t : Scratch}
    (h : request.ask anchor s = .error e t) :
    ¬ ∃ reg t, request.ask anchor s = .ok (some reg) t := by
  rintro ⟨reg, t', h'⟩
  rw [h] at h'
  contradiction

/-- When a request for a register fails, and how. -/
structure Answers (s : Scratch) (anchor : Handle) (position : Nat) (wanted : RegisterClass)
    (allowed : RegisterSet) : Prop where
  noSpillSlot : (reserve wanted allowed).FailsWith anchor s .noSpillSlot ↔
    (∀ slot : SpillSlot, slot.number.toNat < spillSlotCount → slot ∈ s.reservations.owned) ∧
      ∃ r, Admits wanted allowed r ∧ r ∉ s.reservations.held.map (·.1)
  registerTaken (r : Register) :
    (reserve wanted allowed).FailsWith anchor s (.registerTaken r) ↔
      (∀ x, Admits wanted allowed x ↔ x = r) ∧ r ∈ s.reservations.held.map (·.1)
  noFreeRegister :
    (reserve wanted allowed).FailsWith anchor s (.noFreeRegister wanted position) ↔
      (∀ x, ¬ Admits wanted allowed x) ∨
      (∃ x y, x ≠ y ∧ Admits wanted allowed x ∧ Admits wanted allowed y) ∧
        ∀ x, Admits wanted allowed x → x ∈ s.reservations.held.map (·.1)
  /-- There is no other way to fail. -/
  errors (e : MachineError) : (reserve wanted allowed).FailsWith anchor s e →
    e = .noSpillSlot ∨ (∃ r, e = .registerTaken r) ∨ e = .noFreeRegister wanted position
  granted : (∃ reg t, (reserve wanted allowed).ask anchor s = .ok (some reg) t) ↔
    (∃ r, Admits wanted allowed r ∧ r ∉ s.reservations.held.map (·.1)) ∧
      ∃ slot : SpillSlot, slot.number.toNat < spillSlotCount ∧ slot ∉ s.reservations.owned

/-- Every candidate is held. -/
theorem answers_of_held
    (hheld : ∀ r, Admits wanted allowed r → r ∈ s.reservations.held.map (·.1))
    (hask : (reserve wanted allowed).ask anchor s =
      .error (refusal (candidates wanted allowed) wanted position) s) :
    Answers s anchor position wanted allowed := by
  have hnone : ¬ ∃ r, Admits wanted allowed r ∧ r ∉ s.reservations.held.map (·.1) := by
    rintro ⟨r, hr, hnot⟩
    exact hnot (hheld r hr)
  have hcases := Reservations.refusal_cases (candidates wanted allowed) wanted position
  constructor
  · refine iff_of_false ?_ fun hfull => hnone hfull.2
    rw [failsWith_iff hask]
    intro heq
    rw [heq] at hcases
    rcases hcases with ⟨r, hrefusal⟩ | hrefusal <;> contradiction
  · intro r
    rw [failsWith_iff hask, Reservations.refusal_eq_registerTaken_iff]
    exact (and_iff_left_of_imp fun honly => hheld r ((honly r).2 rfl)).symm
  · rw [failsWith_iff hask, Reservations.refusal_eq_noFreeRegister_iff, and_iff_left hheld]
  · intro e he
    rw [← (failsWith_iff hask e).1 he]
    exact Or.inr hcases
  · exact iff_of_false (ne_ok_of_error hask) fun hfree => hnone hfree.1

/-- A candidate is free, so that no register is to blame if the request fails. -/
theorem answers_of_free {r : Register} (hr : Admits wanted allowed r)
    (hfree : r ∉ s.reservations.held.map (·.1))
    (hslots : (reserve wanted allowed).FailsWith anchor s .noSpillSlot ↔
      ∀ slot : SpillSlot, slot.number.toNat < spillSlotCount → slot ∈ s.reservations.owned)
    (herrors : ∀ e, (reserve wanted allowed).FailsWith anchor s e → e = .noSpillSlot)
    (hgranted : (∃ reg t, (reserve wanted allowed).ask anchor s = .ok (some reg) t) ↔
      ∃ slot : SpillSlot, slot.number.toNat < spillSlotCount ∧ slot ∉ s.reservations.owned) :
    Answers s anchor position wanted allowed := by
  have hexists : ∃ r, Admits wanted allowed r ∧ r ∉ s.reservations.held.map (·.1) :=
    ⟨r, hr, hfree⟩
  constructor
  · rw [hslots, and_iff_left hexists]
  · intro r'
    refine iff_of_false (fun hfails => nomatch herrors _ hfails) ?_
    rintro ⟨honly, hheld⟩
    obtain rfl := (honly r).1 hr
    exact hfree hheld
  · refine iff_of_false (fun hfails => nomatch herrors _ hfails) ?_
    rintro (hempty | ⟨_, hheld⟩)
    · exact hempty r hr
    · exact hfree (hheld r hr)
  · exact fun e hfails => Or.inl (herrors e hfails)
  · rw [hgranted, and_iff_right hexists]

theorem answers (h : s.reservations.Sound) (hposition : s.listing.position? anchor = some position)
    (wanted : RegisterClass) (allowed : RegisterSet) :
    Answers s anchor position wanted allowed := by
  have hspare (slot : SpillSlot) : s.reservations.Spare slot ↔
      slot.number.toNat < spillSlotCount ∧ slot ∉ s.reservations.owned := by
    rw [Reservations.Spare, ← h.marked, Bool.not_eq_true]
  have hnot {r : Register} (hr : s.reservations.isHeld r = false) :
      r ∉ s.reservations.held.map (·.1) := by
    rwa [← Reservations.isHeld_iff, Bool.not_eq_true]
  rcases reserve_cases hposition wanted allowed with
    ⟨hheld, hask⟩ | ⟨⟨r, hr, hfree⟩, ⟨hslots, hask⟩ | ⟨⟨slot, hslot⟩, reg, t, hask⟩⟩
  · exact answers_of_held (fun r hr => Reservations.isHeld_iff.1 (hheld r hr)) hask
  · have hfull (slot : SpillSlot) (hlt : slot.number.toNat < spillSlotCount) :
        slot ∈ s.reservations.owned :=
      Decidable.byContradiction fun hout => hslots slot ((hspare slot).2 ⟨hlt, hout⟩)
    refine answers_of_free hr (hnot hfree) (iff_of_true ⟨s, hask⟩ hfull)
      (fun e hfails => ((failsWith_iff hask e).1 hfails).symm)
      (iff_of_false (ne_ok_of_error hask) ?_)
    rintro ⟨slot, hlt, hout⟩
    exact hout (hfull slot hlt)
  · obtain ⟨hlt, hout⟩ := (hspare slot).1 hslot
    exact answers_of_free hr (hnot hfree)
      (iff_of_false (not_failsWith hask _) fun hfull => hout (hfull slot hlt))
      (fun e hfails => absurd hfails (not_failsWith hask e))
      (iff_of_true ⟨reg, t, hask⟩ ⟨slot, hlt, hout⟩)

end Request

/-! ## Histories -/

/-- One request of a history: at which handle, for what, and in which state. -/
structure Exchange where
  anchor : Handle
  request : Request
  state : Scratch

namespace Exchange

def result (x : Exchange) : EStateM.Result MachineError Scratch (Option Register) :=
  x.request.ask x.anchor x.state

def after (x : Exchange) : Scratch :=
  Step.final (x.request.ask x.anchor) x.state

/-- The instruction was inserted for the request, in front of its anchor. -/
def Inserts (x : Exchange) (i : Injected) : Prop :=
  x.state.listing.Gains x.anchor (some i) x.after.listing

/-- A register that the class and the set admit was handed out, and spilled for that. -/
def HandsOut (x : Exchange) (reg : Register) (slot : SpillSlot) : Prop :=
  (∃ wanted allowed, x.request = .reserve wanted allowed ∧ Admits wanted allowed reg) ∧
    x.result = .ok (some reg) x.after ∧ x.Inserts (.spill reg slot)

/-- A register was given up. -/
def TakesBack (x : Exchange) (reg : Register) : Prop :=
  x.request = .release reg ∧ x.result = .ok none x.after

end Exchange

/-- Requests one after the other, from a listing in which nothing is reserved. -/
inductive History (l : Listing) : List Exchange → Scratch → Prop where
  | start : History l [] ⟨l, .none⟩
  | ask {log : List Exchange} {x : Exchange} (h : History l log x.state)
    (hanchor : (x.state.listing.position? x.anchor).isSome = true) :
    History l (log ++ [x]) x.after

/-- The register was handed out, spilled to this slot, and was not taken back since. -/
def Outstanding (log : List Exchange) (reg : Register) (slot : SpillSlot) : Prop :=
  ∃ earlier x later, log = earlier ++ x :: later ∧ x.HandsOut reg slot ∧
    ∀ y ∈ later, ¬ y.TakesBack reg ∧ ∀ other, ¬ y.HandsOut reg other

namespace Outstanding

variable {log : List Exchange} {x : Exchange} {reg : Register} {slot : SpillSlot}

theorem snoc (h : Outstanding log reg slot) (htakes : ¬ x.TakesBack reg)
    (hhands : ∀ other, ¬ x.HandsOut reg other) : Outstanding (log ++ [x]) reg slot := by
  obtain ⟨earlier, y, later, rfl, hy, hlater⟩ := h
  refine ⟨earlier, y, later ++ [x], by simp, hy, fun z hz => ?_⟩
  rcases List.mem_append.1 hz with hz | hz
  · exact hlater z hz
  · obtain rfl := List.mem_singleton.1 hz
    exact ⟨htakes, hhands⟩

theorem of_handsOut (log : List Exchange) (h : x.HandsOut reg slot) :
    Outstanding (log ++ [x]) reg slot :=
  ⟨log, x, [], rfl, h, fun _ hy => absurd hy List.not_mem_nil⟩

end Outstanding

namespace Exchange

variable {x : Exchange} {reg : Register} {log : List Exchange}

/-- What comes of a request at a handle of the listing. -/
theorem cases (hanchor : (x.state.listing.position? x.anchor).isSome = true) :
    (∃ answer i, x.result = .ok answer x.after ∧ x.request.Grants answer i ∧
      x.state.reservations.Change i x.after.reservations ∧
      x.state.listing.Gains x.anchor i x.after.listing) ∨
    ∃ e, x.result = .error e x.state ∧ x.after = x.state := by
  have houtcome := x.request.outcome x.anchor x.state
  generalize hresult : x.request.ask x.anchor x.state = result at houtcome
  cases houtcome with
  | granted hgrants hchange hgains =>
    obtain rfl : x.after = _ := Step.final_of_ok hresult
    exact Or.inl ⟨_, _, hresult, hgrants, hchange, hgains⟩
  | refused hrefused => exact Or.inr ⟨_, hresult, Step.final_of_error hresult⟩
  | lost _ _ hunknown => simp [hunknown] at hanchor

/-- What is given up was held, and is restored from where it was kept. -/
theorem TakesBack.inserts (h : x.TakesBack reg)
    (hanchor : (x.state.listing.position? x.anchor).isSome = true) :
    ∃ slot, (reg, slot) ∈ x.state.reservations.held ∧ x.Inserts (.restore reg slot) := by
  obtain ⟨hrequest, hresult⟩ := h
  rcases x.cases hanchor with ⟨answer, i, _, hgrants, hchange, hgains⟩ | ⟨e, herror, _⟩
  · rw [hrequest] at hgrants
    cases hgrants with
    | @release _ slot =>
      generalize x.after.reservations = t at hchange
      cases hchange with
      | restore hheld =>
        obtain ⟨front, back, hsplit, _⟩ := Reservations.lookup_split hheld
        exact ⟨slot, by simp [hsplit], hgains⟩
  · rw [hresult] at herror
    contradiction

/-- The held registers stay those that are outstanding. -/
theorem outstanding_after (hanchor : (x.state.listing.position? x.anchor).isSome = true)
    (hsound : x.state.reservations.Sound)
    (hlog : ∀ e ∈ x.state.reservations.held, Outstanding log e.1 e.2) :
    ∀ e ∈ x.after.reservations.held, Outstanding (log ++ [x]) e.1 e.2 := by
  rcases x.cases hanchor with ⟨answer, i, hresult, hgrants, hchange, hgains⟩ | ⟨e, herror, hafter⟩
  · intro e he
    rcases hchange.mem_held hsound he with rfl | ⟨he, hother⟩
    · cases hrequest : x.request with
      | reserve wanted allowed =>
        rw [hrequest] at hgrants
        cases hgrants with
        | reserve hadmits =>
          exact Outstanding.of_handsOut log ⟨⟨wanted, allowed, hrequest, hadmits⟩, hresult, hgains⟩
      | _ => rw [hrequest] at hgrants; cases hgrants
    · refine (hlog e he).snoc ?_ ?_
      · rintro ⟨hrequest, _⟩
        rw [hrequest] at hgrants
        cases hgrants with
        | @release _ slot => exact (hother slot).2 rfl
      · rintro other ⟨⟨wanted, allowed, hrequest, _⟩, hresult', _⟩
        obtain ⟨rfl, _⟩ := EStateM.Result.ok.inj (hresult.symm.trans hresult')
        rw [hrequest] at hgrants
        cases hgrants with
        | @reserve _ _ _ slot _ => exact (hother slot).1 rfl
  · rw [hafter]
    intro e he
    refine (hlog e he).snoc ?_ ?_
    · rintro ⟨_, hresult⟩
      rw [herror] at hresult
      contradiction
    · rintro other ⟨_, hresult, _⟩
      rw [herror] at hresult
      contradiction

end Exchange

namespace History

variable {l : Listing} {log : List Exchange} {s : Scratch}

theorem sound (h : History l log s) :
    s.reservations.Sound ∧ ∀ e ∈ s.reservations.held, Outstanding log e.1 e.2 := by
  induction h with
  | start => exact ⟨Reservations.sound_none, fun e he => absurd he List.not_mem_nil⟩
  | @ask log x h hanchor ih =>
    obtain ⟨hsound, hlog⟩ := ih
    refine ⟨?_, Exchange.outstanding_after hanchor hsound hlog⟩
    rcases x.cases hanchor with ⟨_, _, _, _, hchange, _⟩ | ⟨_, _, hafter⟩
    · exact hsound.change hchange
    · rwa [hafter]

/-- Each request stands behind the history up to it. -/
theorem upTo (h : History l log s) {earlier later : List Exchange} {x : Exchange}
    (hlog : log = earlier ++ x :: later) :
    History l earlier x.state ∧ (x.state.listing.position? x.anchor).isSome = true := by
  induction h generalizing later with
  | start => simp at hlog
  | @ask log y h hanchor ih =>
    rcases List.eq_nil_or_concat later with rfl | ⟨front, z, rfl⟩
    · obtain ⟨rfl, hy⟩ := List.append_inj' hlog rfl
      obtain rfl := List.singleton_inj.1 hy
      exact ⟨h, hanchor⟩
    · rw [List.concat_eq_append, ← List.cons_append, ← List.append_assoc] at hlog
      exact ih (List.append_inj' hlog rfl).1

/-- What holds after any history of requests: about the registers that are held, about the slots in
which something is kept, about what the next request for a register will be answered with, and
about where every register that was given up had been restored from. -/
theorem consistent (h : History l log s) :
    ((s.reservations.held.map (·.1)).Nodup ∧
      ∀ e ∈ s.reservations.held, e.1 ≠ .rsp ∧ Outstanding log e.1 e.2) ∧
    (s.reservations.owned.Nodup ∧
      (∀ slot ∈ s.reservations.owned, slot.number.toNat < spillSlotCount) ∧
      ∀ slot, s.reservations.isMarked slot = true ↔ slot ∈ s.reservations.owned) ∧
    (∀ anchor position, s.listing.position? anchor = some position →
      ∀ wanted allowed, Request.Answers s anchor position wanted allowed) ∧
    ∀ earlier x later reg, log = earlier ++ x :: later → x.TakesBack reg →
      ∃ slot, x.Inserts (.restore reg slot) ∧ Outstanding earlier reg slot := by
  obtain ⟨hsound, hlog⟩ := h.sound
  refine ⟨⟨hsound.registers, fun e he => ⟨?_, hlog e he⟩⟩,
    ⟨hsound.slots, fun slot hslot => ?_, hsound.marked⟩,
    fun anchor position hposition => Request.answers hsound hposition,
    fun earlier x later reg heq htakes => ?_⟩
  · intro hrsp
    exact hsound.general (hrsp ▸ List.mem_map_of_mem he)
  · exact Reservations.lt_of_isMarked ((hsound.marked slot).2 hslot)
  · obtain ⟨hearlier, hanchor⟩ := h.upTo heq
    obtain ⟨slot, hheld, hinserts⟩ := htakes.inserts hanchor
    exact ⟨slot, hinserts, hearlier.sound.2 _ hheld⟩

end History

namespace Sample

/-- A register is reserved, the flags are kept aside, and the register is given up. -/
def handOut : Exchange := ⟨⟨0⟩, .reserve .any .full, loneScratch⟩

def keepFlags : Exchange := ⟨⟨0⟩, .reserveFlags, handOut.after⟩

def takeBack : Exchange := ⟨⟨0⟩, .release .rbx, keepFlags.after⟩

theorem consistent_takeBack :
    History loneScratch.listing [handOut, keepFlags, takeBack] takeBack.after ∧
      takeBack.after.reservations.isMarked ⟨0⟩ = false ∧
      takeBack.after.reservations.owned = [⟨1⟩] ∧
      ∃ slot, takeBack.Inserts (.restore .rbx slot) ∧ Outstanding [handOut, keepFlags] .rbx slot := by
  have h : History loneScratch.listing [handOut, keepFlags, takeBack] takeBack.after :=
    .ask (x := takeBack) (.ask (x := keepFlags) (.ask (x := handOut) .start rfl) rfl) rfl
  obtain ⟨_, _, _, hrestores⟩ := h.consistent
  exact ⟨h, rfl, rfl, hrestores [handOut, keepFlags] takeBack [] .rbx rfl ⟨rfl, rfl⟩⟩

end Sample

end AccessTrace
