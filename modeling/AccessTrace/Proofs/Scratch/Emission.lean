import AccessTrace.Proofs.Code.Listing
import AccessTrace.Proofs.Scratch.Reservations
import AccessTrace.Scratch.Scope

/-!
# What scopes emit

Inserting at a place of a listing adds to the nodes in front of it and leaves the rest alone.
`Scope.Emits` lifts this to steps of a scope: from one set of reservations to another, with a result
and the code that lands in the listing. Steps in sequence emit their code in sequence.
-/

namespace AccessTrace

namespace Scope

/-- What a scope holds, apart from its listing. -/
structure Holding where
  reservations : Reservations
  isClosed : Bool

def holding (s : Scope) : Holding :=
  ⟨s.reservations, s.isClosed⟩

/-- The step succeeds with result `a` and emits `code`. -/
structure Emits {α : Type} (step : ScopeM α) (pre post : Holding) (a : α) (code : List Injected) :
    Prop where
  run : ∀ (s : Scope) (before : List Node) (node : Node) (rest : List (Handle × Node))
    (label : Nat), s.holding = pre → s.listing.At before ((s.anchor, node) :: rest) label →
      ∃ s', step s = .ok a s' ∧ s'.holding = post ∧ s'.anchor = s.anchor ∧
        s'.listing.At (before ++ code.map .injected) ((s.anchor, node) :: rest) label

namespace Emits

variable {α β : Type} {step : ScopeM α} {next : α → ScopeM β} {pre mid post : Holding} {a : α}
  {b : β} {code code' : List Injected}

theorem pure (a : α) (pre : Holding) : Emits (Pure.pure a) pre pre a [] :=
  ⟨fun s before node rest label hs hat => ⟨s, rfl, hs, rfl, by simpa using hat⟩⟩

theorem bind (h : Emits step pre mid a code) (h' : Emits (next a) mid post b code') :
    Emits (step >>= next) pre post b (code ++ code') := by
  refine ⟨fun s before node rest label hs hat => ?_⟩
  obtain ⟨s₁, hstep, hs₁, hanchor₁, hat₁⟩ := h.run s before node rest label hs hat
  rw [← hanchor₁] at hat₁
  obtain ⟨s₂, hnext, hs₂, hanchor₂, hat₂⟩ := h'.run s₁ _ node rest label hs₁ hat₁
  refine ⟨s₂, (Step.bind_of_ok hstep).trans hnext, hs₂, hanchor₂.trans hanchor₁, ?_⟩
  rw [hanchor₁, List.append_assoc, ← List.map_append] at hat₂
  exact hat₂

end Emits

theorem atAnchor_of_ok {α : Type} {step : Handle → ScratchM α} {s : Scope} {a : α} {t : Scratch}
    (h : step s.anchor s.toScratch = .ok a t) :
    atAnchor step s = .ok a { s with toScratch := t } := by
  unfold atAnchor
  rw [h]

/-- Inserting at the anchor, as a step on the scratch state. -/
theorem insertBefore_of_at {s : Scope} {before : List Node} {node : Node}
    {rest : List (Handle × Node)} {label : Nat}
    (h : s.listing.At before ((s.anchor, node) :: rest) label) (i : Injected) (res : Reservations) :
    ∃ l', (discard (Scratch.insertBefore s.anchor i) : ScratchM PUnit) ⟨s.listing, res⟩ =
        .ok ⟨⟩ ⟨l', res⟩ ∧
      l'.At (before ++ [.injected i]) ((s.anchor, node) :: rest) label := by
  obtain ⟨l', hinsert, hat⟩ := h.insertBefore i
  exact ⟨l', Scratch.insert_of_ok (s := ⟨s.listing, res⟩) hinsert, hat⟩

theorem emits_emit (i : Injected) (pre : Holding) : Emits (emit i) pre pre () [i] := by
  refine ⟨fun s before node rest label hs hat => ?_⟩
  obtain ⟨l', hinsert, hat'⟩ := insertBefore_of_at hat i s.reservations
  exact ⟨_, atAnchor_of_ok hinsert, hs, rfl, hat'⟩

variable {res : Reservations} {closed : Bool}

/-- A register that is free is spilled into the first free slot. -/
theorem emits_acquire {wanted : RegisterClass} {reg : Register} {i : Fin spillSlotCount}
    (hreg : (preference.filter fun r => wanted.admits r && RegisterSet.full.contains r).find?
      (fun r => !res.isHeld r) = some reg) (hslot : res.freeSlot? = some i) :
    Emits (acquire wanted) ⟨res, closed⟩
      ⟨{ res.markSlot ⟨UInt8.ofNat i⟩ true with held := res.held ++ [(reg, ⟨UInt8.ofNat i⟩)] },
        closed⟩ reg [.spill reg ⟨UInt8.ofNat i⟩] := by
  unfold acquire acquireFrom
  refine ⟨fun s before node rest label hs hat => ?_⟩
  obtain ⟨rfl, rfl⟩ : s.reservations = res ∧ s.isClosed = closed := by
    simpa [holding] using hs
  obtain ⟨l', hinsert, hat'⟩ := insertBefore_of_at hat (.spill reg ⟨UInt8.ofNat i⟩)
    (s.reservations.markSlot ⟨UInt8.ofNat i⟩ true)
  have hreserve : Scratch.reserve s.anchor wanted .full s.toScratch = .ok reg
      ⟨l', { s.reservations.markSlot ⟨UInt8.ofNat i⟩ true with
        held := s.reservations.held ++ [(reg, ⟨UInt8.ofNat i⟩)] }⟩ := by
    unfold Scratch.reserve
    rw [Step.bind_apply, Step.get_apply]
    simp only [hreg]
    rw [Step.bind_of_ok (Scratch.takeSlot_of_some hslot), Step.bind_of_ok hinsert]
    rfl
  exact ⟨_, atAnchor_of_ok hreserve, rfl, rfl, hat'⟩

theorem Emits.emit_bind {β : Type} {i : Injected} {next : Unit → ScopeM β} {pre post : Holding}
    {b : β} {code : List Injected} (h : Emits (next ()) pre post b code) :
    Emits (emit i >>= next) pre post b (i :: code) :=
  (emits_emit i pre).bind h

/-- The flags are kept aside in the first free slot. -/
theorem emits_saveFlags {i : Fin spillSlotCount} (hflags : res.flags = .none)
    (hslot : res.freeSlot? = some i) :
    Emits saveFlags ⟨res, closed⟩
      ⟨{ res.markSlot ⟨UInt8.ofNat i⟩ true with flags := some ⟨UInt8.ofNat i⟩ }, closed⟩ ()
      [.saveFlags ⟨UInt8.ofNat i⟩] := by
  refine ⟨fun s before node rest label hs hat => ?_⟩
  obtain ⟨rfl, rfl⟩ : s.reservations = res ∧ s.isClosed = closed := by
    simpa [holding] using hs
  obtain ⟨l', hinsert, hat'⟩ := insertBefore_of_at hat (.saveFlags ⟨UInt8.ofNat i⟩)
    (s.reservations.markSlot ⟨UInt8.ofNat i⟩ true)
  have hreserve : Scratch.reserveFlags s.anchor s.toScratch = .ok ()
      ⟨l', { s.reservations.markSlot ⟨UInt8.ofNat i⟩ true with
        flags := some ⟨UInt8.ofNat i⟩ }⟩ := by
    unfold Scratch.reserveFlags
    rw [Step.bind_apply, Step.get_apply]
    simp only [hflags]
    rw [Step.bind_of_ok (Scratch.takeSlot_of_some hslot), Step.bind_of_ok hinsert]
    rfl
  exact ⟨_, atAnchor_of_ok hreserve, rfl, rfl, hat'⟩

theorem emits_release {reg : Register} {slot : SpillSlot}
    (hheld : res.held.lookup reg = some slot) :
    Emits (atAnchor fun anchor => Scratch.release anchor reg) ⟨res, closed⟩
      ⟨({ res with held := res.held.eraseP fun h => h.1 == reg } : Reservations).markSlot slot
        false, closed⟩ () [.restore reg slot] := by
  refine ⟨fun s before node rest label hs hat => ?_⟩
  obtain ⟨rfl, rfl⟩ : s.reservations = res ∧ s.isClosed = closed := by
    simpa [holding] using hs
  obtain ⟨l', hinsert, hat'⟩ := insertBefore_of_at hat (.restore reg slot) s.reservations
  have hrelease : Scratch.release s.anchor reg s.toScratch = .ok ()
      ⟨l', ({ s.reservations with
        held := s.reservations.held.eraseP fun h => h.1 == reg } : Reservations).markSlot
          slot false⟩ := by
    unfold Scratch.release
    rw [Step.bind_apply, Step.get_apply]
    simp only [hheld]
    rw [Step.bind_of_ok hinsert]
    rfl
  exact ⟨_, atAnchor_of_ok hrelease, rfl, rfl, hat'⟩

theorem emits_releaseFlags_none (hflags : res.flags = .none) :
    Emits (atAnchor Scratch.releaseFlags) ⟨res, closed⟩ ⟨res, closed⟩ () [] := by
  refine ⟨fun s before node rest label hs hat => ?_⟩
  obtain ⟨rfl, rfl⟩ : s.reservations = res ∧ s.isClosed = closed := by
    simpa [holding] using hs
  have hrelease : Scratch.releaseFlags s.anchor s.toScratch = .ok () s.toScratch := by
    unfold Scratch.releaseFlags
    rw [Step.bind_apply, Step.get_apply]
    simp only [hflags]
    rfl
  exact ⟨_, atAnchor_of_ok hrelease, rfl, rfl, by simpa using hat⟩

theorem emits_releaseFlags_some {slot : SpillSlot} (hflags : res.flags = some slot) :
    Emits (atAnchor Scratch.releaseFlags) ⟨res, closed⟩
      ⟨({ res with flags := .none } : Reservations).markSlot slot false, closed⟩ ()
      [.restoreFlags slot] := by
  refine ⟨fun s before node rest label hs hat => ?_⟩
  obtain ⟨rfl, rfl⟩ : s.reservations = res ∧ s.isClosed = closed := by
    simpa [holding] using hs
  obtain ⟨l', hinsert, hat'⟩ := insertBefore_of_at hat (.restoreFlags slot) s.reservations
  have hrelease : Scratch.releaseFlags s.anchor s.toScratch = .ok ()
      ⟨l', ({ s.reservations with flags := .none } : Reservations).markSlot slot false⟩ := by
    unfold Scratch.releaseFlags
    rw [Step.bind_apply, Step.get_apply]
    simp only [hflags]
    rw [Step.bind_of_ok hinsert]
    rfl
  exact ⟨_, atAnchor_of_ok hrelease, rfl, rfl, hat'⟩

/-- Closing restores the registers, newest first, and then the flags. -/
theorem emits_close {held : List Register} {res₁ res₂ : Reservations} {code code' : List Injected}
    (hheld : res.held.reverse.map (·.1) = held)
    (hregisters : Emits (held.forM fun reg => atAnchor fun anchor => Scratch.release anchor reg)
      ⟨res, true⟩ ⟨res₁, true⟩ () code)
    (hflags : Emits (atAnchor Scratch.releaseFlags) ⟨res₁, true⟩ ⟨res₂, true⟩ () code') :
    Emits close ⟨res, closed⟩ ⟨res₂, true⟩ () (code ++ code') := by
  refine ⟨fun s before node rest label hs hat => ?_⟩
  obtain ⟨rfl, rfl⟩ : s.reservations = res ∧ s.isClosed = closed := by
    simpa [holding] using hs
  have hboth : Emits ((held.forM fun reg => atAnchor fun anchor => Scratch.release anchor reg) >>=
      fun _ => atAnchor Scratch.releaseFlags) ⟨s.reservations, true⟩ ⟨res₂, true⟩ ()
      (code ++ code') := hregisters.bind hflags
  obtain ⟨s', hrun, hs', hanchor, hat'⟩ :=
    hboth.run { s with isClosed := true } before node rest label rfl hat
  refine ⟨s', ?_, hs', hanchor, hat'⟩
  rw [← hheld] at hrun
  exact hrun

end Scope

end AccessTrace
