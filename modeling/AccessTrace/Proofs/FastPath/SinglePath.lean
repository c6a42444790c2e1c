import AccessTrace.Host.FlushRoutine
import AccessTrace.Proofs.Code.Addresses
import AccessTrace.Proofs.FastPath.Labels
import AccessTrace.Proofs.FastPath.Passage
import AccessTrace.Proofs.Record.Placement

/-!
# One fast path

Whatever a listing has in it already, a fast path can be inserted before each of its nodes, and
takes effect as a whole: it appends the record of its access in the registers at its start, has the
routine called exactly if the buffer is full then, and disturbs nothing else. Operands may use the
scratch registers, the stack pointer, or one register twice, since the address is taken before
anything is overwritten.
-/

namespace AccessTrace

namespace Listing

/-- Neither handles nor labels that are in use are issued again. -/
structure Sound (l : Listing) : Prop extends l.Issued where
  labels : ∀ node ∈ l.nodes, ∀ placed : Label, node.marks placed = true →
    placed.number < l.nextLabel

theorem sound_ofInstructions (is : List Instruction) : (ofInstructions is).Sound := by
  refine ⟨issued_ofInstructions is, fun node hnode placed hplaced => ?_⟩
  rw [nodes_ofInstructions] at hnode
  obtain ⟨i, _, rfl⟩ := List.mem_map.1 hnode
  contradiction

end Listing

namespace Injector

variable {δ ω : Type} {j : Injector} {usesCounter : Bool} {l : Listing} {anchor : Handle}
  {node : Node} {cpu : Cpu δ ω} {routine : Routine δ ω} {f : Fragment}

/-- A path goes right before its anchor, with labels that are nowhere else. -/
theorem insertFastPath_inserts (hj : j.Uses usesCounter) (hl : l.Sound)
    (hnode : l.node? anchor = some node) (pc : Word) (access : Access) :
    ∃ l' before after, j.insertFastPath anchor pc access l = .ok () l' ∧ l'.Sound ∧
      l.nodes = before ++ node :: after ∧
      l'.nodes = before ++ ((j.path usesCounter pc access ⟨l.nextLabel⟩ ⟨l.nextLabel + 1⟩).map
        .injected ++ node :: after) := by
  obtain ⟨before, rest, hat⟩ := hl.toIssued.at_node? hnode
  obtain ⟨l', hok, hat'⟩ := insertFastPath_ok hj pc access hat
  have hnodes : l.nodes = before ++ node :: rest.map (·.2) := hat.nodes
  have hnodes' := hat'.nodes
  rw [List.append_assoc, List.map_cons] at hnodes'
  refine ⟨l', before, rest.map (·.2), hok, ⟨hat'.issued, fun n hn placed hplaced => ?_⟩, hnodes,
    hnodes'⟩
  rw [hat'.label]
  have hold (hmem : n ∈ l.nodes) : placed.number < l.nextLabel + 2 :=
    Nat.lt_add_right 2 (hl.labels n hmem placed hplaced)
  rw [hnodes', List.mem_append, List.mem_append] at hn
  rw [hnodes, List.mem_append] at hold
  rcases hn with hbefore | hpath | hafter
  · exact hold (Or.inl hbefore)
  · rcases eq_of_marks_path hpath hplaced with rfl | rfl
    · exact Nat.lt_add_of_pos_right Nat.two_pos
    · exact Nat.lt_succ_self _
  · exact hold (Or.inr hafter)

/-- The code of a listing is in the cache, and so is the code that calls `routine`; no two pieces of
code share an address. -/
structure Loaded (cpu : Cpu δ ω) (j : Injector) (routine : Routine δ ω) (l : Listing)
    (f : Fragment) : Prop where
  falling : CodeCache.Falling cpu.cache.fragments
  apart : ∀ g ∈ cpu.cache.fragments, ∀ h ∈ cpu.cache.fragments, g = h ∨ Disjoint g.extent h.extent
  code : f ∈ cpu.cache.fragments
  nodes : f.nodes = l.nodes.toArray
  bound : f.base + f.span ≤ addressBound
  flush : ∃ id, ⟨j.flushAddress.toNat, ((FlushRoutine.body id).map Node.injected).toArray⟩ ∈
      cpu.cache.fragments ∧ cpu.routines[id.number.toNat]? = some routine

theorem Loaded.has (h : Loaded cpu j routine l f) : f.Has 0 l.nodes := by
  obtain ⟨base, nodes⟩ := f
  obtain rfl := h.nodes
  exact Fragment.has_toArray base l.nodes

theorem Loaded.diverts (h : Loaded cpu j routine l f) : Diverts cpu j routine f := by
  obtain ⟨id, hg, hroutine⟩ := h.flush
  have hlookup (index : Nat) {g : Fragment} (hg : g ∈ cpu.cache.fragments)
      (hindex : index < max g.nodes.size 1) :
      cpu.cache.lookup (g.addressOf index) = some (g, index) :=
    (CodeCache.lookup_eq_some_iff h.falling h.apart).2 ⟨hg, rfl, hindex⟩
  have hentry := hlookup 0 hg (by simp)
  rw [Fragment.addressOf, Nat.zero_mul, Nat.add_zero] at hentry
  refine ⟨⟨_, id, hentry, Fragment.has_toArray _ _, hroutine⟩,
    fun index hindex => ⟨?_, hlookup index h.code (by omega)⟩⟩
  exact Nat.lt_of_lt_of_le (Fragment.addressOf_lt (by omega)) h.bound

/-- From its first node to the instruction that it is for, a fast path appends one record to a
buffer that has room for it, calls the routine if the buffer is full then, and restores the machine.
The routine has to succeed in the state it is called in, with the record in the buffer. -/
theorem insertFastPath_appends {i : Instruction} (hj : j.Uses usesCounter) (hl : l.Sound)
    (hnode : l.node? anchor = some (.app i)) (pc : Word) (access : Access) :
    ∃ (l' : Listing) (before after : List Node) (emitted : List Injected),
      j.insertFastPath anchor pc access l = .ok () l' ∧ l'.Sound ∧
      l.nodes = before ++ .app i :: after ∧
      l'.nodes = before ++ (emitted.map .injected ++ .app i :: after) ∧
      ∀ {δ ω : Type} (cpu : Cpu δ ω) (routine : Routine δ ω) (f : Fragment) (b : TraceBuffer)
        (k : Nat) (counts : Counts) (s : Running δ ω), Loaded cpu j routine l' f →
        s.thread.fieldWord j.field = .ok (UInt64.ofNat b.headerAddress) →
        b.Ready k s.thread.guest.memory →
        (∀ machine' M' spill',
          b.Appended k (access.record pc s.thread.guest.machine) s.thread.guest.memory M' →
          k + 1 = b.capacity →
          ∃ t, routine (s.at machine' M' spill') = .ok () t ∧ t.thread.spill = spill') →
        ∃ n counts' s', n ≤ emitted.length + 2 ∧
          cpu.Reaches n ⟨f, before.length, counts, s⟩
            ⟨f, before.length + emitted.length, counts', s'⟩ ∧
          s'.thread.guest.machine = s.thread.guest.machine ∧
          Passed b k (access.record pc s.thread.guest.machine) routine counts counts' s s' := by
  obtain ⟨l', before, after, hok, hl', hnodes, hnodes'⟩ :=
    insertFastPath_inserts hj hl hnode pc access
  let emitted := j.path usesCounter pc access ⟨l.nextLabel⟩ ⟨l.nextLabel + 1⟩
  refine ⟨l', before, after, emitted, hok, hl', hnodes, hnodes', ?_⟩
  intro δ ω cpu routine f b k counts s hloaded hword hready hroutine
  have hhas := hloaded.has
  rw [hnodes'] at hhas
  have hpath := hhas.right
  rw [Nat.zero_add] at hpath
  -- Behind the path there are only nodes that were in the listing before it had the two labels.
  have hbehind : ∀ x, before.length + emitted.length ≤ x → ∀ node, f.nodes[x]? = some node →
      node.marks ⟨l.nextLabel⟩ = false ∧ node.marks ⟨l.nextLabel + 1⟩ = false := by
    intro x hx node hx'
    have hmem : node ∈ l.nodes := by
      rw [hloaded.nodes, List.getElem?_toArray, hnodes',
        List.getElem?_append_right (by omega),
        List.getElem?_append_right (by rw [List.length_map]; exact Nat.le_sub_of_add_le' hx)] at hx'
      rw [hnodes]
      exact List.mem_append_right _ (List.mem_of_getElem? hx')
    have hfresh (label : Nat) (hlabel : l.nextLabel ≤ label) : node.marks ⟨label⟩ = false := by
      rw [Bool.eq_false_iff]
      exact fun hmarks => absurd (hl.labels node hmem _ hmarks) (Nat.not_lt.2 hlabel)
    exact ⟨hfresh _ (Nat.le_refl _), hfresh _ (Nat.le_succ _)⟩
  obtain ⟨n, counts', s', hn, hreaches, hpassed⟩ := reaches_passed counts hloaded.diverts (by simp)
    hpath.left hbehind hword hready hroutine
  exact ⟨n, counts', s', hn, hreaches, hpassed.machine_eq, hpassed⟩

end Injector

namespace Sample

/-- A load through both scratch registers. -/
def crossed : MemoryOperand := ⟨some .rcx, some .rbx, 8, -16, .b4⟩

def crossedAccess : Access := ⟨.read, 0, crossed, 4⟩

def crossedLoad : Instruction := .mov 0x401000 (.register .rax) (.memory crossed)

def counterInjector : Injector := ⟨⟨0⟩, 0x7fff00000000, .counterZero⟩

def crossedListing : Listing :=
  Step.final (counterInjector.insertFastPath ⟨0⟩ 0x401000 crossedAccess)
    (.ofInstructions [crossedLoad])

def crossedNodes : List Node :=
  (counterInjector.path true 0x401000 crossedAccess ⟨0⟩ ⟨1⟩).map .injected ++ [.app crossedLoad]

def crossedFragment : Fragment := ⟨blockAreaBase, crossedNodes.toArray⟩

def flushFragment : Fragment :=
  ⟨0x7fff00000000, ((FlushRoutine.body ⟨0⟩).map Node.injected).toArray⟩

/-- Counts its calls, and leaves other registers and flags behind. -/
def spoil : Routine Unit Nat := fun s =>
  .ok () ⟨{ s.thread with guest := ⟨⟨Vector.replicate 16 7, ⟨true, true, true⟩⟩,
    s.thread.guest.memory⟩ }, s.world + 1⟩

def crossedCpu : Cpu Unit Nat :=
  ⟨((CodeCache.empty.insertBlock 0x401000 crossedNodes).2.insertShared flushFragment),
    #[spoil], 100⟩

def smallBuffer : TraceBuffer := ⟨heapBase, heapBase + 8192, 1⟩

def smallMemory : AddressSpace :=
  Step.final (TraceBuffer.allocate 1) .empty

def crossedMachine : MachineState :=
  (MachineState.initial.set .rcx 0x1000).set .rbx 0x20

/-- A thread with an empty buffer of one slot. -/
def crossedStart : Running Unit Nat :=
  ⟨⟨⟨1⟩, ⟨crossedMachine, smallMemory⟩, Vector.replicate spillSlotCount 0,
    #[⟨UInt64.ofNat heapBase, none⟩]⟩, 0⟩

theorem insertFastPath_crossed :
    counterInjector.insertFastPath ⟨0⟩ 0x401000 crossedAccess (.ofInstructions [crossedLoad]) =
        .ok () crossedListing ∧
      crossedListing.nodes = crossedNodes := by
  obtain ⟨l', before, after, hok, _, hnodes, hnodes'⟩ := Injector.insertFastPath_inserts
    (show counterInjector.Uses true from rfl) (Listing.sound_ofInstructions [crossedLoad])
    (show (Listing.ofInstructions [crossedLoad]).node? ⟨0⟩ = some (.app crossedLoad) from rfl)
    0x401000 crossedAccess
  obtain rfl : crossedListing = l' := Step.final_of_ok hok
  obtain ⟨rfl, rfl⟩ : before = [] ∧ after = [] := by
    cases before with
    | nil => exact ⟨rfl, (List.cons.inj hnodes).2.symm⟩
    | cons => simp [Listing.nodes_ofInstructions] at hnodes
  exact ⟨hok, hnodes'⟩

theorem ready_smallBuffer : smallBuffer.Ready 0 smallMemory := by
  have hallocate : TraceBuffer.allocate 1 .empty = .ok smallBuffer smallMemory := rfl
  have hempty : AddressSpace.empty.WellFormed := AddressSpace.wellFormed_withLimit ..
  obtain ⟨_, hholds, _⟩ := TraceBuffer.allocate_ok hempty rfl nofun hallocate
  exact hholds.ready Nat.zero_lt_one

theorem loaded_crossedListing :
    Injector.Loaded crossedCpu counterInjector spoil crossedListing crossedFragment := by
  have hfragments : crossedCpu.cache.fragments = [flushFragment, crossedFragment] := rfl
  have hdisjoint : Disjoint crossedFragment.extent flushFragment.extent :=
    Set.Ico_disjoint_Ico.2 (by decide)
  refine ⟨?_, ?_, ?_, ?_, by decide, ⟨0⟩, ?_, rfl⟩
  · rw [hfragments]
    exact List.pairwise_pair.2 (by decide)
  · rw [hfragments]
    simp only [List.mem_cons, List.not_mem_nil, or_false]
    rintro g (rfl | rfl) h (rfl | rfl)
    · exact Or.inl rfl
    · exact Or.inr hdisjoint.symm
    · exact Or.inr hdisjoint
    · exact Or.inl rfl
  · rw [hfragments]
    exact List.mem_cons_of_mem _ (List.mem_singleton_self _)
  · rw [insertFastPath_crossed.2]
    rfl
  · rw [hfragments]
    exact List.mem_cons_self

/-- The record takes the last slot, so the routine is called, and the registers survive that. -/
theorem crossed_last_slot :
    ∃ n counts' s', crossedCpu.Reaches n ⟨crossedFragment, 0, .zero, crossedStart⟩
        ⟨crossedFragment, 22, counts', s'⟩ ∧
      crossedFragment.nodes[22]? = some (.app crossedLoad) ∧
      s'.thread.guest.machine = crossedMachine ∧ s'.world = 1 ∧ counts'.hostCalls = 1 ∧
      smallBuffer.Appended 0 ⟨0, 0x10f0, 4, 0x401000⟩ smallMemory s'.thread.guest.memory := by
  obtain ⟨l', before, after, emitted, hok, _, hnodes, hnodes', hruns⟩ :=
    Injector.insertFastPath_appends (show counterInjector.Uses true from rfl)
      (Listing.sound_ofInstructions [crossedLoad])
      (show (Listing.ofInstructions [crossedLoad]).node? ⟨0⟩ = some (.app crossedLoad) from rfl)
      0x401000 crossedAccess
  obtain ⟨hlisting, hcrossed⟩ := insertFastPath_crossed
  rw [hlisting] at hok
  obtain rfl : crossedListing = l' := by injection hok
  have hone : (before ++ .app crossedLoad :: after).length = 1 := congrArg List.length hnodes.symm
  have hsize : crossedNodes.length = 23 := rfl
  rw [← hcrossed, hnodes'] at hsize
  simp only [List.length_append, List.length_map, List.length_cons] at hsize hone
  have hbefore : before.length = 0 := by omega
  have hemitted : emitted.length = 22 := by omega
  obtain ⟨n, counts', s', _, hreaches, hmachine, hpassed⟩ := hruns crossedCpu spoil crossedFragment
    smallBuffer 0 .zero crossedStart loaded_crossedListing rfl ready_smallBuffer
    fun _ _ _ _ _ => ⟨_, rfl, rfl⟩
  rw [hbefore, hemitted] at hreaches
  obtain ⟨machine', M', spill', happended, _, houtcome⟩ := hpassed.outcome
  rw [if_pos (show 0 + 1 = smallBuffer.capacity from rfl)] at houtcome
  obtain ⟨t, ht, rfl⟩ := houtcome
  injection ht with _ ht
  subst ht
  exact ⟨n, counts', _, hreaches, rfl, hmachine, rfl, hpassed.hostCalls, happended⟩

end Sample

end AccessTrace
