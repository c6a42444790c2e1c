import AccessTrace.Proofs.Machine.Steps
import AccessTrace.Scratch.Reservations

/-!
# Registers and slots of reservations

`Sound` is the invariant of reservations: each register is held once, what is kept aside is kept in
slots of its own, and these are the slots that are marked. `Change` is all that a request can do to
reservations when it succeeds, beside the instruction that it inserts for it; every change keeps the
invariant. The steps that requests are made of stand at the end.
-/

namespace AccessTrace

/-- Slots are told apart by their numbers. -/
theorem SpillSlot.number_ne {slot other : SpillSlot} (h : slot ≠ other) :
    slot.number.toNat ≠ other.number.toNat := by
  intro heq
  apply h
  cases slot
  cases other
  exact congrArg SpillSlot.mk (UInt8.toNat_inj.1 heq)

namespace Reservations

variable {s t : Reservations} {slot other : SpillSlot} {reg r : Register} {inUse : Bool}

/-- The slots in which something is kept. -/
def owned (s : Reservations) : List SpillSlot :=
  s.held.map (·.2) ++ s.flags.toList

/-- Whether a slot is marked; a slot that a thread does not have is not. -/
def isMarked (s : Reservations) (slot : SpillSlot) : Bool :=
  s.slotsInUse[slot.number.toNat]?.getD false

/-- A slot that is there and may be taken. -/
def Spare (s : Reservations) (slot : SpillSlot) : Prop :=
  slot.number.toNat < spillSlotCount ∧ s.isMarked slot = false

structure Sound (s : Reservations) : Prop where
  registers : (s.held.map (·.1)).Nodup
  /-- The stack pointer is never held. -/
  general : Register.rsp ∉ s.held.map (·.1)
  slots : s.owned.Nodup
  marked : ∀ slot, s.isMarked slot = true ↔ slot ∈ s.owned

/-! ## Marks -/

theorem lt_of_isMarked (h : s.isMarked slot = true) : slot.number.toNat < spillSlotCount := by
  apply Nat.lt_of_not_le
  intro hge
  rw [isMarked, Vector.getElem?_eq_none hge] at h
  contradiction

theorem isMarked_markSlot (hslot : slot.number.toNat < spillSlotCount) (other : SpillSlot) :
    (s.markSlot slot inUse).isMarked other =
      if other = slot then inUse else s.isMarked other := by
  show ((s.slotsInUse.setIfInBounds slot.number.toNat inUse)[other.number.toNat]?).getD false = _
  rw [Vector.getElem?_setIfInBounds]
  by_cases h : other = slot
  · rw [if_pos h, if_pos (by rw [h]), if_pos hslot]
    rfl
  · rw [if_neg h, if_neg (SpillSlot.number_ne (Ne.symm h))]
    rfl

/-- How many slots may be taken. -/
def spareSlots (s : Reservations) : Nat :=
  s.slotsInUse.count false

/-- To mark a spare slot leaves one less. -/
theorem Spare.spareSlots (h : s.Spare slot) :
    (s.markSlot slot true).spareSlots + 1 = s.spareSlots := by
  obtain ⟨hlt, hunmarked⟩ := h
  have hfree : s.slotsInUse[slot.number.toNat] = false := by
    rwa [isMarked, Vector.getElem?_eq_getElem hlt] at hunmarked
  have hset : s.slotsInUse.setIfInBounds slot.number.toNat true =
      s.slotsInUse.set slot.number.toNat true hlt := by
    apply Vector.ext
    intro i hi
    simp [Vector.getElem_setIfInBounds, Vector.getElem_set]
  have hpos : 0 < s.slotsInUse.count false :=
    Vector.count_pos_iff.2 (hfree ▸ Vector.getElem_mem hlt)
  show (s.slotsInUse.setIfInBounds slot.number.toNat true).count false + 1 = _
  rw [hset, Vector.count_set, hfree]
  exact Nat.sub_add_cancel hpos

/-- The first slot that is free is spare. -/
theorem spare_of_freeSlot? {i : Fin spillSlotCount} (h : s.freeSlot? = some i) :
    s.Spare ⟨UInt8.ofNat i⟩ := by
  have hsize : spillSlotCount < UInt8.size := by decide
  have hnumber : (UInt8.ofNat i).toNat = i :=
    UInt8.toNat_ofNat_of_lt' (Nat.lt_trans i.isLt hsize)
  have hfree : s.slotsInUse[i] = false := by simpa using List.find?_some h
  constructor
  · show (UInt8.ofNat i).toNat < spillSlotCount
    rw [hnumber]
    exact i.isLt
  · show (s.slotsInUse[(UInt8.ofNat i).toNat]?).getD false = false
    rw [hnumber, Vector.getElem?_eq_getElem i.isLt]
    exact hfree

/-- Without a free slot, none is spare. -/
theorem not_spare_of_freeSlot? (h : s.freeSlot? = .none) (slot : SpillSlot) : ¬ s.Spare slot := by
  rintro ⟨hslot, hunmarked⟩
  have hused := List.find?_eq_none.1 h ⟨slot.number.toNat, hslot⟩ (List.mem_finRange _)
  rw [isMarked, Vector.getElem?_eq_getElem hslot] at hunmarked
  apply hused
  simpa using hunmarked

/-! ## Held registers -/

theorem isHeld_iff : s.isHeld r = true ↔ r ∈ s.held.map (·.1) := by
  simp [isHeld]

/-- Where the first entry of a register stands. -/
theorem lookup_split (h : s.held.lookup reg = some slot) :
    ∃ front back, s.held = front ++ (reg, slot) :: back ∧
      s.held.eraseP (fun e => e.1 == reg) = front ++ back := by
  obtain ⟨front, back, hheld, hfront⟩ := List.lookup_eq_some_iff.1 h
  refine ⟨front, back, hheld, ?_⟩
  have hother : ∀ e ∈ front, ¬ (e.1 == reg) = true := by
    intro e he heq
    have hne := hfront e he
    simp_all
  rw [hheld, List.eraseP_append_right _ hother, List.eraseP_cons_of_pos (by simp)]

theorem lookup_eq_none_iff : s.held.lookup reg = .none ↔ s.isHeld reg = false := by
  rw [List.lookup_eq_none_iff, isHeld, List.any_eq_false]
  apply forall₂_congr
  intro e _
  rw [bne_iff_ne, beq_iff_eq, ne_comm]

/-! ## Changes -/

/-- What a request that succeeds does to reservations, and the instruction that it inserts. -/
inductive Change (s : Reservations) : Option Injected → Reservations → Prop where
  | spill {reg : Register} {slot : SpillSlot} (hreg : reg ≠ .rsp) (hfree : s.isHeld reg = false)
    (hslot : s.Spare slot) :
    Change s (some (.spill reg slot))
      { s.markSlot slot true with held := s.held ++ [(reg, slot)] }
  | restore {reg : Register} {slot : SpillSlot} (hheld : s.held.lookup reg = some slot) :
    Change s (some (.restore reg slot))
      (({ s with held := s.held.eraseP fun e => e.1 == reg } : Reservations).markSlot slot false)
  | saveFlags {slot : SpillSlot} (hflags : s.flags = .none) (hslot : s.Spare slot) :
    Change s (some (.saveFlags slot)) { s.markSlot slot true with flags := some slot }
  | restoreFlags {slot : SpillSlot} (hflags : s.flags = some slot) :
    Change s (some (.restoreFlags slot)) (({ s with flags := .none } : Reservations).markSlot slot false)
  | idle : Change s .none s

/-- Taking a spare slot keeps slots apart and marks right. -/
theorem Sound.take (h : s.Sound) (hslot : s.Spare slot) (howned : t.owned.Perm (slot :: s.owned))
    (hmarks : t.slotsInUse = (s.markSlot slot true).slotsInUse) :
    t.owned.Nodup ∧ ∀ other, t.isMarked other = true ↔ other ∈ t.owned := by
  obtain ⟨hlt, hunmarked⟩ := hslot
  have hnew : slot ∉ s.owned := by
    rw [← h.marked, hunmarked]
    exact Bool.false_ne_true
  have hmarked (other : SpillSlot) :
      t.isMarked other = if other = slot then true else s.isMarked other := by
    rw [← isMarked_markSlot hlt, isMarked, isMarked, hmarks]
  refine ⟨howned.nodup_iff.2 (List.nodup_cons.2 ⟨hnew, h.slots⟩), fun other => ?_⟩
  rw [hmarked, howned.mem_iff, List.mem_cons, ← h.marked]
  by_cases heq : other = slot <;> simp [heq]

/-- So does giving an owned slot back. -/
theorem Sound.give (h : s.Sound) (howned : s.owned.Perm (slot :: t.owned))
    (hmarks : t.slotsInUse = (s.markSlot slot false).slotsInUse) :
    t.owned.Nodup ∧ ∀ other, t.isMarked other = true ↔ other ∈ t.owned := by
  have hlt : slot.number.toNat < spillSlotCount :=
    lt_of_isMarked ((h.marked slot).2 (howned.mem_iff.2 List.mem_cons_self))
  have hmarked (other : SpillSlot) :
      t.isMarked other = if other = slot then false else s.isMarked other := by
    rw [← isMarked_markSlot hlt, isMarked, isMarked, hmarks]
  obtain ⟨hgone, hrest⟩ := List.nodup_cons.1 (howned.nodup_iff.1 h.slots)
  refine ⟨hrest, fun other => ?_⟩
  rw [hmarked]
  by_cases heq : other = slot
  · simp [heq, hgone]
  · rw [if_neg heq, h.marked, howned.mem_iff, List.mem_cons, or_iff_right heq]

theorem Sound.change {i : Option Injected} (h : s.Sound) (hchange : s.Change i t) : t.Sound := by
  cases hchange with
  | @spill reg slot hreg hfree hslot =>
    have howned : ((s.held ++ [(reg, slot)]).map (·.2) ++ s.flags.toList).Perm
        (slot :: s.owned) := by
      rw [List.map_append, List.map_singleton, List.append_assoc, List.singleton_append]
      exact List.perm_middle
    obtain ⟨hslots, hmarked⟩ := h.take (t := { s.markSlot slot true with
      held := s.held ++ [(reg, slot)] }) hslot howned rfl
    have hnew : reg ∉ s.held.map (·.1) := by
      rw [← isHeld_iff, hfree]
      exact Bool.false_ne_true
    have hregs : ((s.held ++ [(reg, slot)]).map (·.1)).Perm (reg :: s.held.map (·.1)) := by
      rw [List.map_append]
      exact List.perm_append_singleton _ _
    refine ⟨hregs.nodup_iff.2 (List.nodup_cons.2 ⟨hnew, h.registers⟩), ?_, hslots, hmarked⟩
    rw [hregs.mem_iff, List.mem_cons]
    rintro (heq | hheld)
    · exact hreg heq.symm
    · exact h.general hheld
  | @restore reg slot hheld =>
    obtain ⟨front, back, hsplit, herased⟩ := lookup_split hheld
    have hregs : (s.held.map (·.1)).Perm (reg :: (front ++ back).map (·.1)) := by
      rw [hsplit, List.map_append, List.map_cons, List.map_append]
      exact List.perm_middle
    have howned : s.owned.Perm (slot :: ((front ++ back).map (·.2) ++ s.flags.toList)) := by
      rw [owned, hsplit, List.map_append, List.map_cons, List.map_append, List.append_assoc,
        List.append_assoc]
      exact List.perm_middle
    rw [herased]
    obtain ⟨hslots, hmarked⟩ := h.give (t := ({ s with held := front ++ back } :
      Reservations).markSlot slot false) howned rfl
    refine ⟨(List.nodup_cons.1 (hregs.nodup_iff.1 h.registers)).2, ?_, hslots, hmarked⟩
    exact fun hmem => h.general (hregs.mem_iff.2 (List.mem_cons_of_mem _ hmem))
  | @saveFlags slot hflags hslot =>
    have howned : s.owned = s.held.map (·.2) := by rw [owned, hflags]; simp
    obtain ⟨hslots, hmarked⟩ := h.take (t := { s.markSlot slot true with flags := some slot })
      hslot (howned ▸ List.perm_append_singleton _ _) rfl
    exact ⟨h.registers, h.general, hslots, hmarked⟩
  | @restoreFlags slot hflags =>
    have howned : s.owned.Perm (slot :: (s.held.map (·.2) ++ [])) := by
      rw [owned, hflags]
      exact List.perm_middle
    obtain ⟨hslots, hmarked⟩ := h.give (t := ({ s with flags := .none } : Reservations).markSlot
      slot false) howned rfl
    exact ⟨h.registers, h.general, hslots, hmarked⟩
  | idle => exact h

/-- What is held after a change was just spilled, or it was held and is not what the change is
about. -/
theorem Change.mem_held {i : Option Injected} {e : Register × SpillSlot} (h : s.Sound)
    (hchange : s.Change i t) (he : e ∈ t.held) :
    i = some (.spill e.1 e.2) ∨ e ∈ s.held ∧
      ∀ slot, i ≠ some (.spill e.1 slot) ∧ i ≠ some (.restore e.1 slot) := by
  cases hchange with
  | @spill reg slot hreg hfree hslot =>
    have hmem : e ∈ s.held ++ [(reg, slot)] := he
    rcases List.mem_append.1 hmem with hold | hnew
    · refine Or.inr ⟨hold, fun other => ⟨fun heq => ?_, nofun⟩⟩
      have hheld : s.isHeld e.1 = true := isHeld_iff.2 (List.mem_map_of_mem hold)
      rw [← (Injected.spill.inj (Option.some.inj heq)).1, hfree] at hheld
      contradiction
    · obtain rfl := List.mem_singleton.1 hnew
      exact Or.inl rfl
  | @restore reg slot hheld =>
    obtain ⟨front, back, hsplit, herased⟩ := lookup_split hheld
    replace he : e ∈ front ++ back := herased ▸ he
    have hregisters := h.registers
    rw [hsplit, List.map_append, List.map_cons, List.perm_middle.nodup_iff, ← List.map_append,
      List.nodup_cons] at hregisters
    refine Or.inr ⟨?_, fun other => ⟨nofun, fun heq => ?_⟩⟩
    · rw [hsplit, List.perm_middle.mem_iff]
      exact List.mem_cons_of_mem _ he
    · rw [(Injected.restore.inj (Option.some.inj heq)).1] at hregisters
      exact hregisters.1 (List.mem_map.2 ⟨e, he, rfl⟩)
  | _ => exact Or.inr ⟨he, fun other => ⟨nofun, nofun⟩⟩

/-- Nothing is held and no slot marked in the beginning. -/
theorem sound_none : none.Sound := by
  refine ⟨List.nodup_nil, List.not_mem_nil, List.nodup_nil, fun slot => ?_⟩
  show ((Vector.replicate spillSlotCount false)[slot.number.toNat]?).getD false = true ↔ slot ∈ []
  rw [Vector.getElem?_replicate]
  split <;> simp

end Reservations

/-! ## Steps of requests -/

namespace Scratch

variable {s : Scratch} {anchor : Handle} {i : Injected}

theorem takeSlot_of_some {number : Fin spillSlotCount}
    (h : s.reservations.freeSlot? = some number) :
    takeSlot s = .ok ⟨UInt8.ofNat number⟩
      ⟨s.listing, s.reservations.markSlot ⟨UInt8.ofNat number⟩ true⟩ := by
  unfold takeSlot
  rw [Step.bind_of_ok (Step.get_apply s), h]
  rfl

theorem takeSlot_of_none (h : s.reservations.freeSlot? = none) :
    takeSlot s = .error .noSpillSlot s := by
  unfold takeSlot
  rw [Step.bind_of_ok (Step.get_apply s), h]
  rfl

theorem insert_of_ok {handle : Handle} {l : Listing}
    (h : s.listing.insertBefore anchor i = .ok (handle, l)) :
    (discard (insertBefore anchor i) : ScratchM PUnit) s = .ok ⟨⟩ ⟨l, s.reservations⟩ := by
  apply Step.discard_of_ok (a := handle)
  unfold insertBefore
  rw [Step.bind_of_ok (Step.get_apply s), h]
  rfl

theorem insert_of_error {e : MachineError} (h : s.listing.insertBefore anchor i = .error e) :
    (discard (insertBefore anchor i) : ScratchM PUnit) s = .error e s := by
  apply Step.discard_of_error
  unfold insertBefore
  rw [Step.bind_of_ok (Step.get_apply s), h]
  rfl

end Scratch

end AccessTrace
