import AccessTrace.Proofs.Scratch.Emission
import AccessTrace.Proofs.Scratch.Requests

/-!
# What scopes do

A scope is used by any sequence of actions, some of which may fail, and then closed or left. What
lands in the listing is one stretch of code before the anchor. `Leads` follows this code together
with the reservations: each piece of it belongs to one change of the reservations, or was emitted as
it is while they stayed the same. However the scope is left, nothing is held in the end.
-/

namespace AccessTrace

open Reservations (Admits)

/-- What can be asked of a scope before it is closed. -/
inductive ScopeAction where
  | acquire (wanted : RegisterClass) (allowed : RegisterSet)
  | saveFlags
  | emit (i : Injected)

namespace ScopeAction

def run : ScopeAction → ScopeM Unit
  | acquire wanted allowed => discard (Scope.acquireFrom wanted allowed)
  | saveFlags => Scope.saveFlags
  | emit i => Scope.emit i

/-- The scope after an action, whether it succeeds or fails. -/
def perform (s : Scope) (a : ScopeAction) : Scope :=
  Step.final a.run s

end ScopeAction

/-- The listing after some actions, with the scope closed or merely left. -/
def Scope.leaveAfter (s : Scope) (actions : List ScopeAction) (closes : Bool) : Listing :=
  let s := actions.foldl ScopeAction.perform s
  (if closes then Step.final Scope.close s else s).leave

namespace Reservations

/-- What may be emitted while these reservations hold: what writes to a register may write to a
held one, and the flags may be overwritten while they are kept aside. -/
def Allows (s : Reservations) : Injected → Prop
  | .loadAddress dst _ | .readField dst _ | .load dst _ _ | .sum dst _ _ _ => s.isHeld dst = true
  | .store .. | .storeImmediate .. => True
  | .testZero _ => s.flags.isSome = true
  | _ => False

/-- The code that lands in a listing while the reservations become others. -/
inductive Leads (emitted : Injected → Prop) (s : Reservations) : List Injected → Reservations → Prop where
  | nil : Leads emitted s [] s
  | change {code : List Injected} {i : Option Injected} {t u : Reservations}
    (h : Leads emitted s code t) (hchange : t.Change i u) : Leads emitted s (code ++ i.toList) u
  | emit {code : List Injected} {i : Injected} {t : Reservations} (h : Leads emitted s code t)
    (hallows : t.Allows i) (hemitted : emitted i) : Leads emitted s (code ++ [i]) t

variable {emitted : Injected → Prop} {s t u : Reservations} {code code' : List Injected}

theorem Leads.trans (h : Leads emitted s code t) (h' : Leads emitted t code' u) :
    Leads emitted s (code ++ code') u := by
  induction h' with
  | nil => rwa [List.append_nil]
  | change _ hchange ih =>
    rw [← List.append_assoc]
    exact ih.change hchange
  | emit _ hallows hemitted ih =>
    rw [← List.append_assoc]
    exact ih.emit hallows hemitted

theorem Leads.sound (h : Leads emitted s code t) (hs : s.Sound) : t.Sound := by
  induction h with
  | nil => exact hs
  | change _ hchange ih => exact ih.change hchange
  | emit _ _ _ ih => exact ih

end Reservations

namespace ScopeAction

/-- Only what the reservations allow may be emitted. -/
def Permitted (s : Scope) : ScopeAction → Prop
  | acquire .. | saveFlags => True
  | emit i => s.reservations.Allows i

/-- Every action is permitted where it comes. -/
def AllPermitted : Scope → List ScopeAction → Prop
  | _, [] => True
  | s, a :: rest => a.Permitted s ∧ AllPermitted (a.perform s) rest

end ScopeAction

/-- A request at an anchor that is known, whether it is granted or not. -/
theorem Request.change (request : Request) {anchor : Handle} {s : Scratch}
    (hanchor : s.listing.position? anchor ≠ none) :
    ∃ i, s.reservations.Change i (Step.final (request.ask anchor) s).reservations ∧
      s.listing.Gains anchor i (Step.final (request.ask anchor) s).listing := by
  have houtcome := request.outcome anchor s
  generalize hresult : request.ask anchor s = result at houtcome
  cases houtcome with
  | granted _ hchange hgains =>
    rw [Step.final_of_ok hresult]
    exact ⟨_, hchange, hgains⟩
  | refused _ =>
    rw [Step.final_of_error hresult]
    exact ⟨none, .idle, rfl⟩
  | lost _ _ hunknown => contradiction

namespace Listing

variable {l l' : Listing} {before : List Node} {rest : List (Handle × Node)} {anchor : Handle}
  {node : Node} {label : Nat}

theorem At.gains (h : l.At before ((anchor, node) :: rest) label) {i : Option Injected}
    (hgains : l.Gains anchor i l') :
    l'.At (before ++ i.toList.map .injected) ((anchor, node) :: rest) label := by
  cases i with
  | none =>
    obtain rfl : l' = l := hgains
    simpa using h
  | some i =>
    obtain ⟨handle, hinsert⟩ := hgains
    obtain ⟨l'', hinsert', hat⟩ := h.insertBefore i
    rw [hinsert] at hinsert'
    obtain ⟨_, rfl⟩ := Prod.mk.inj (Except.ok.inj hinsert')
    exact hat

end Listing

namespace Scope

open Reservations (Leads)

variable {s s' : Scope} {before : List Node} {rest : List (Handle × Node)} {anchor : Handle}
  {node : Node} {label : Nat} {emitted : Injected → Prop} {res : Reservations}
  {code : List Injected}

/-! ## Single actions -/

theorem final_atAnchor {α : Type} (step : Handle → ScratchM α) (s : Scope) :
    Step.final (atAnchor step) s = { s with toScratch := Step.final (step s.anchor) s.toScratch } := by
  unfold Step.final atAnchor
  cases step s.anchor s.toScratch <;> rfl

/-- The scope stands at its place in the listing, behind the code that has led to what it holds. -/
structure Stands (s : Scope) (emitted : Injected → Prop) (before : List Node) (node : Node)
    (rest : List (Handle × Node)) (label : Nat) (code : List Injected) : Prop where
  place : s.listing.At (before ++ code.map .injected) ((s.anchor, node) :: rest) label
  leads : Leads emitted .none code s.reservations
  isOpen : s.isClosed = false

theorem Stands.known (h : s.Stands emitted before node rest label code) :
    s.listing.position? s.anchor ≠ none := by
  rw [h.place.position?]
  exact nofun

/-- A request leads on. -/
theorem Stands.request (h : s.Stands emitted before node rest label code) (request : Request)
    {α : Type} {step : Handle → ScratchM α}
    (hstep : Step.final (step s.anchor) s.toScratch =
      Step.final (request.ask s.anchor) s.toScratch) :
    ∃ code', (Step.final (atAnchor step) s).Stands emitted before node rest label code' ∧
      (Step.final (atAnchor step) s).anchor = s.anchor := by
  obtain ⟨i, hchange, hgains⟩ := request.change h.known
  rw [final_atAnchor, hstep]
  refine ⟨code ++ i.toList, ⟨?_, h.leads.change hchange, h.isOpen⟩, rfl⟩
  rw [List.map_append, ← List.append_assoc]
  exact h.place.gains hgains

theorem Stands.perform (h : s.Stands emitted before node rest label code) {a : ScopeAction}
    (ha : a.Permitted s) (hemitted : ∀ i, a = .emit i → emitted i) :
    ∃ code', (a.perform s).Stands emitted before node rest label code' ∧
      (a.perform s).anchor = s.anchor := by
  cases a with
  | acquire wanted allowed =>
    have hperform : (ScopeAction.acquire wanted allowed).perform s =
        Step.final (atAnchor fun anchor => Scratch.reserve anchor wanted allowed) s :=
      Step.final_discard _ s
    rw [hperform]
    exact h.request (.reserve wanted allowed) (Step.final_map _ some _).symm
  | saveFlags =>
    have hperform : ScopeAction.saveFlags.perform s =
        Step.final (atAnchor Scratch.reserveFlags) s := rfl
    rw [hperform]
    exact h.request .reserveFlags (Step.final_map _ (fun _ => none) _).symm
  | emit i =>
    obtain ⟨l', hinsert, hat⟩ := insertBefore_of_at h.place i s.reservations
    have hemit : emit i s = .ok () { s with listing := l' } := atAnchor_of_ok hinsert
    have hperform : (ScopeAction.emit i).perform s = { s with listing := l' } :=
      Step.final_of_ok hemit
    rw [hperform]
    refine ⟨code ++ [i], ⟨?_, h.leads.emit ha (hemitted i rfl), h.isOpen⟩, rfl⟩
    rwa [List.map_append, ← List.append_assoc]

/-- Any permitted actions, one after the other. -/
theorem Stands.performAll (h : s.Stands emitted before node rest label code)
    {actions : List ScopeAction} (hactions : ScopeAction.AllPermitted s actions)
    (hemitted : ∀ i, .emit i ∈ actions → emitted i) :
    ∃ code', (actions.foldl ScopeAction.perform s).Stands emitted before node rest label code' ∧
      (actions.foldl ScopeAction.perform s).anchor = s.anchor := by
  induction actions generalizing s code with
  | nil => exact ⟨code, h, rfl⟩
  | cons a actions ih =>
    obtain ⟨ha, hrest⟩ := hactions
    obtain ⟨code', hstands, hanchor⟩ := h.perform ha fun i hi =>
      hemitted i (hi ▸ List.mem_cons_self)
    obtain ⟨code'', hstands', hanchor'⟩ :=
      ih hstands hrest fun i hi => hemitted i (List.mem_cons_of_mem _ hi)
    exact ⟨code'', hstands', hanchor'.trans hanchor⟩

/-! ## The end of a scope -/

/-- Giving up all registers, in any order in which they come. -/
theorem emits_releases (emitted : Injected → Prop) {registers : List Register}
    (hregisters : (res.held.map (·.1)).Perm registers) (hsound : res.Sound) :
    ∃ code res', Emits (registers.forM fun reg => atAnchor fun anchor => Scratch.release anchor reg)
        ⟨res, true⟩ ⟨res', true⟩ () code ∧
      Leads emitted res code res' ∧ res'.held = [] ∧ res'.flags = res.flags := by
  induction registers generalizing res with
  | nil => exact ⟨[], res, .pure () _, .nil, by simpa using hregisters, rfl⟩
  | cons reg registers ih =>
    have hheld : res.isHeld reg = true :=
      Reservations.isHeld_iff.2 (hregisters.mem_iff.2 List.mem_cons_self)
    obtain ⟨slot, hslot⟩ : ∃ slot, res.held.lookup reg = some slot := by
      rw [← Option.ne_none_iff_exists', Ne, Reservations.lookup_eq_none_iff, hheld]
      exact nofun
    obtain ⟨front, back, hsplit, herased⟩ := Reservations.lookup_split hslot
    have hrest : ((res.held.eraseP fun h => h.1 == reg).map (·.1)).Perm registers := by
      rw [herased]
      refine List.Perm.cons_inv (a := reg) (List.Perm.trans ?_ hregisters)
      rw [hsplit, List.map_append, List.map_append, List.map_cons]
      exact List.perm_middle.symm
    have hchange := Reservations.Change.restore hslot
    obtain ⟨code, res', hemits, hleads, hnone, hflags⟩ := ih hrest (hsound.change hchange)
    exact ⟨_, res', (emits_release hslot).bind hemits,
      (Leads.nil.change hchange).trans hleads, hnone, hflags⟩

/-- Closing gives up everything. -/
theorem emits_close_all (emitted : Injected → Prop) (hsound : res.Sound) :
    ∃ code res', Emits close ⟨res, false⟩ ⟨res', true⟩ () code ∧ Leads emitted res code res' ∧
      res'.held = [] ∧ res'.flags = .none := by
  have hnewest : (res.held.map (·.1)).Perm (res.held.reverse.map (·.1)) :=
    (List.reverse_perm _).symm.map _
  obtain ⟨code, res₁, hemits, hleads, hheld, hflags⟩ :=
    emits_releases emitted hnewest hsound
  cases hkept : res₁.flags with
  | none =>
    exact ⟨code ++ [], res₁, emits_close rfl hemits (emits_releaseFlags_none hkept),
      hleads.trans .nil, hheld, hkept⟩
  | some slot =>
    have hlast : Leads emitted res (code ++ [.restoreFlags slot])
        (({ res₁ with flags := .none } : Reservations).markSlot slot false) :=
      hleads.change (.restoreFlags hkept)
    exact ⟨_, _, emits_close rfl hemits (emits_releaseFlags_some hkept), hlast, hheld, rfl⟩

/-- What a scope has inserted by the time that it is left: code before its anchor, at the end of
which nothing is held. -/
theorem leaveAfter_code {l : Listing} (hl : l.Issued) (hanchor : l.node? anchor = some node)
    {actions : List ScopeAction} (hactions : ScopeAction.AllPermitted (openAt l anchor) actions)
    (closes : Bool) :
    ∃ before rest code res, l.position? anchor = some before.length ∧
      l.nodes = before ++ node :: rest ∧
      ((openAt l anchor).leaveAfter actions closes).nodes =
        before ++ code.map .injected ++ node :: rest ∧
      Leads (fun i => .emit i ∈ actions) .none code res ∧ res.held = [] ∧ res.flags = .none := by
  obtain ⟨before, rest, hplace⟩ := hl.at_node? hanchor
  have hopened : (openAt l anchor).Stands (fun i => .emit i ∈ actions) before node rest
      l.nextLabel [] := by
    refine ⟨?_, .nil, rfl⟩
    rwa [List.map_nil, List.append_nil]
  obtain ⟨code, hstands, hsame⟩ := hopened.performAll hactions fun i hi => hi
  let s := actions.foldl ScopeAction.perform (openAt l anchor)
  have hsound : s.reservations.Sound := hstands.leads.sound Reservations.sound_none
  obtain ⟨restores, res, hclose, hleads, hheld, hflags⟩ :=
    emits_close_all (fun i => .emit i ∈ actions) hsound
  have hholding : s.holding = ⟨s.reservations, false⟩ := congrArg (Holding.mk _) hstands.isOpen
  obtain ⟨s', hrun, hheld', _, hat⟩ := hclose.run s _ node rest _ hholding hstands.place
  have hleave : (openAt l anchor).leaveAfter actions closes = s'.listing := by
    have hclosed : s'.isClosed = true := congrArg Holding.isClosed hheld'
    show (if closes then Step.final close s else s).leave = _
    cases closes with
    | true =>
      rw [if_pos rfl, Step.final_of_ok hrun, leave, if_pos hclosed]
    | false =>
      rw [if_neg Bool.false_ne_true, leave, hstands.isOpen, if_neg Bool.false_ne_true, hrun]
  refine ⟨before, rest.map (·.2), code ++ restores, res, hplace.position?, ?_, ?_,
    hstands.leads.trans hleads, hheld, hflags⟩
  · rw [hplace.nodes, List.map_cons]
  · rw [hleave, hat.nodes, List.map_append, List.append_assoc before, List.map_cons]

end Scope

end AccessTrace
