import AccessTrace.Proofs.Memory.Permissions
import AccessTrace.Proofs.Record.Fifo
import AccessTrace.Proofs.Session.Phases

/-!
# Access to a buffer

Header and storage of a buffer may be protected or unmapped while records are pending. A drain that
fails then has left everything as it was, with one exception. A reset clears the storage before it
stores the cursor, so that where the header may be read but not written to, a drain gets as far as
the cursor: the records are cleared, and the cursor still stands behind them.
-/

namespace AccessTrace

namespace TraceBuffer

open AddressSpace (Written)

variable {b : TraceBuffer} {pending : List Record} {M M₁ M₂ M₃ : AddressSpace}

/-! ## Access taken away and given back -/

/-- The operation unmaps or protects the header or the storage. -/
def ChangesAccess (b : TraceBuffer) : MemoryOperation → Prop
  | .unmap a | .protect a _ => a = b.headerAddress ∨ a = b.base
  | _ => False

/-- Lets header and storage be read and written to again, if they are there. -/
def reopen (b : TraceBuffer) (M : AddressSpace) : Except MachineError AddressSpace :=
  (M.protect b.headerAddress .readWrite).bind (·.protect b.base .readWrite)

theorem reopen_ok (h : b.reopen M = .ok M₃) : ∃ M', M.protect b.headerAddress .readWrite = .ok M' ∧
    M'.protect b.base .readWrite = .ok M₃ := by
  unfold reopen at h
  cases hheader : M.protect b.headerAddress .readWrite with
  | error e =>
    rw [hheader] at h
    contradiction
  | ok M' =>
    rw [hheader] at h
    exact ⟨M', rfl, h⟩

theorem reopen_of_ok {M' : AddressSpace} (hheader : M.protect b.headerAddress .readWrite = .ok M')
    (hstorage : M'.protect b.base .readWrite = .ok M₃) : b.reopen M = .ok M₃ := by
  unfold reopen
  rw [hheader]
  exact hstorage

/-- In `M₁`, access to the buffer of `M` may have changed. -/
structure Reaccessed (b : TraceBuffer) (M M₁ : AddressSpace) : Prop where
  wellFormed : M₁.WellFormed
  /-- Bytes that are left are what they were. -/
  byte? : ∀ x byte, M₁.byte? x = some byte → M.byte? x = some byte
  /-- If both regions are left, all that has changed can be undone. -/
  reopen : ∀ M₃, b.reopen M₁ = .ok M₃ → b.reopen M = .ok M₃

theorem Sited.bases (h : b.Sited M) : b.headerAddress ≠ b.base ∧
    b.headerAddress + 1 < addressBound ∧ b.base + 1 < addressBound := by
  have hapart := h.apart
  have hbound := h.bound
  have hlength : BufferHeader.length = 24 := rfl
  have hpos : 0 < b.storageLength := Nat.mul_pos h.nonempty (by decide)
  unfold stop at hbound
  omega

/-- Regions that are protected can be protected anew. -/
theorem reaccessed_protect (hne : b.headerAddress ≠ b.base) (hM : M.WellFormed) {a : Nat}
    {permissions : Permissions} (ha : a = b.headerAddress ∨ a = b.base)
    (h : M.protect a permissions = .ok M₁) : b.Reaccessed M M₁ := by
  refine ⟨hM.protect h, fun x byte hx => (hM.byte?_protect h x).symm.trans hx, fun M₃ h₃ => ?_⟩
  obtain ⟨M', hheader, hstorage⟩ := reopen_ok h₃
  rcases ha with rfl | rfl
  · rw [AddressSpace.protect_protect h] at hheader
    exact reopen_of_ok hheader hstorage
  · rw [AddressSpace.protect_comm hne.symm h] at hheader
    cases hfirst : M.protect b.headerAddress .readWrite with
    | error e =>
      rw [hfirst] at hheader
      contradiction
    | ok M₀ =>
      rw [hfirst] at hheader
      rw [AddressSpace.protect_protect (show M₀.protect b.base permissions = .ok M' from hheader)]
        at hstorage
      exact reopen_of_ok hfirst hstorage

/-- Regions that are unmapped are gone. -/
theorem reaccessed_unmap (h : b.Sited M) {M' : AddressSpace} (hM' : M'.WellFormed) {a : Nat}
    (ha : a = b.headerAddress ∨ a = b.base) (hunmap : M'.unmap a = .ok M₁) :
    b.Reaccessed M' M₁ := by
  obtain ⟨hne, hheaderBound, hstorageBound⟩ := h.bases
  refine ⟨hM'.unmap hunmap, fun x byte => hM'.byte?_unmap hunmap, fun M₃ h₃ => ?_⟩
  obtain ⟨M'', hheader, hstorage⟩ := reopen_ok h₃
  obtain ⟨r, hr, hbase, rfl⟩ := AddressSpace.protect_ok hheader
  rcases ha with rfl | rfl
  · rw [hM'.regionAt?_unmap hheaderBound hunmap] at hr
    contradiction
  · obtain ⟨s, hs, _⟩ := AddressSpace.protect_ok hstorage
    have hopened : (r.withPermissions .readWrite).base = b.headerAddress := hbase
    rw [AddressSpace.regionAt?_put_of_ne hopened hne,
      hM'.regionAt?_unmap hstorageBound hunmap] at hs
    contradiction

theorem Reaccessed.perform (h : b.Sited M) (hM₁ : b.Reaccessed M M₁) {op : MemoryOperation}
    (hop : b.ChangesAccess op) : b.Reaccessed M (op.perform M₁) := by
  unfold MemoryOperation.perform
  cases happly : op.apply M₁ with
  | error e => exact hM₁
  | ok M' =>
    have hM' : b.Reaccessed M₁ M' := by
      cases op with
      | protect a permissions => exact reaccessed_protect h.bases.1 hM₁.wellFormed hop happly
      | unmap a => exact reaccessed_unmap h hM₁.wellFormed hop happly
      | _ => contradiction
    exact ⟨hM'.wellFormed, fun x byte hx => hM₁.byte? x byte (hM'.byte? x byte hx),
      fun M₃ h₃ => hM₁.reopen M₃ (hM'.reopen M₃ h₃)⟩

/-- Any changes of access, one after the other. -/
theorem Reaccessed.run (h : b.Sited M) (hM₁ : b.Reaccessed M M₁) {changes : List MemoryOperation}
    (hchanges : ∀ op ∈ changes, b.ChangesAccess op) :
    b.Reaccessed M (changes.foldl MemoryOperation.perform M₁) := by
  induction changes generalizing M₁ with
  | nil => exact hM₁
  | cons op rest ih =>
    obtain ⟨hop, hrest⟩ := List.forall_mem_cons.1 hchanges
    exact ih (hM₁.perform h hop) hrest

/-- A buffer in place is open. -/
theorem Sited.reopen (h : b.Sited M) (hM : M.WellFormed) : b.reopen M = .ok M := by
  obtain ⟨_, hheaderBound, hstorageBound⟩ := h.bases
  have hprotect {base length : Nat} (hbound : base + 1 < addressBound)
      (hshape : (base, length, .readWrite, true) ∈ M.layout) :
      M.protect base .readWrite = .ok M := by
    obtain ⟨r, hr, hrshape⟩ := List.mem_map.1 hshape
    simp only [Region.shape, Prod.mk.injEq] at hrshape
    obtain ⟨rfl, _, hpermissions, _⟩ := hrshape
    exact AddressSpace.protect_of_permissions (hM.regionAt?_base hr hbound) hpermissions
  exact reopen_of_ok (hprotect hheaderBound h.header) (hprotect hstorageBound h.storage)

/-! ## Drains that fail -/

/-- A drain gets as far as the cursor: it can be read, so can `count` records, and the storage can
be cleared, but the cursor cannot be stored. -/
structure Torn (b : TraceBuffer) (count : Nat) (M : AddressSpace) : Prop where
  cursor : M.Readable b.cursorAddress 8
  records : ∃ bytes, M.read b.base (count * Record.length) = .ok bytes
  storage : M.Writable b.base b.storageLength
  fixed : ¬ M.Writable b.cursorAddress 8

theorem reset_error {e : MachineError} (h : b.reset M = .error e M₂) :
    M₂ = M ∨ M.fill b.base b.storageLength 0 = .ok M₂ ∧
      M₂.store b.cursorAddress 8 (UInt64.ofNat b.base) = .error e := by
  unfold reset at h
  cases hfill : M.fill b.base b.storageLength 0 with
  | error e' =>
    have hstep : AddressSpace.step (·.fill b.base b.storageLength 0) M = .error e' M := by
      rw [AddressSpace.step_apply, hfill]
    rw [Step.bind_of_error hstep] at h
    exact Or.inl (EStateM.Result.error.inj h).2.symm
  | ok M' =>
    rw [Step.bind_of_ok (AddressSpace.step_of_ok hfill), AddressSpace.step_apply] at h
    cases hstore : M'.store b.cursorAddress 8 (UInt64.ofNat b.base) with
    | ok M'' =>
      rw [hstore] at h
      contradiction
    | error e' =>
      rw [hstore] at h
      obtain ⟨rfl, rfl⟩ := EStateM.Result.error.inj h
      exact Or.inr ⟨rfl, hstore⟩

theorem drain_error {e : TraceError} (h : b.drain M = .error e M₂) : M₂ = M ∨
    ∃ count bytes e', b.pending M = .ok count ∧
      M.read b.base (count * Record.length) = .ok bytes ∧
      M.fill b.base b.storageLength 0 = .ok M₂ ∧
      M₂.store b.cursorAddress 8 (UInt64.ofNat b.base) = .error e' := by
  unfold drain at h
  cases hpending : b.pending M with
  | error e' =>
    rw [hpending] at h
    exact Or.inl (EStateM.Result.error.inj h).2.symm
  | ok count =>
    simp only [hpending] at h
    cases hread : M.read b.base (count * Record.length) with
    | error e' =>
      rw [hread] at h
      exact Or.inl (EStateM.Result.error.inj h).2.symm
    | ok bytes =>
      simp only [hread] at h
      cases hreset : b.reset M with
      | ok u M' =>
        rw [hreset] at h
        contradiction
      | error e' M' =>
        rw [hreset] at h
        obtain ⟨_, rfl⟩ := EStateM.Result.error.inj h
        rcases reset_error hreset with heq | ⟨hfill, hstore⟩
        · exact Or.inl heq
        · exact Or.inr ⟨count, bytes, e', rfl, hread, hfill, hstore⟩

/-- The cursor has to be read for a count. -/
theorem readable_of_pending (hM : M.WellFormed) {count : Nat} (h : b.pending M = .ok count) :
    M.Readable b.cursorAddress 8 := by
  unfold TraceBuffer.pending at h
  cases hcursor : b.cursor M with
  | error e =>
    rw [hcursor] at h
    contradiction
  | ok word => exact (hM.load_ok hcursor).2.1

/-- The cursor is the one from before, if it can be read. -/
theorem Reaccessed.pending_eq (h : b.Reaccessed M M₁) (hqueue : b.Queue pending M)
    (hreadable : M₁.Readable b.cursorAddress 8) : b.pending M₁ = .ok pending.length := by
  refine hqueue.sited.pending_of_readable h.wellFormed hreadable hqueue.room ?_
  rw [← hqueue.cursor, AddressSpace.wordAt, AddressSpace.wordAt]
  congr 2
  refine AddressSpace.bytesAt_congr fun i hi => ?_
  obtain ⟨r, hr, hrange, _, hbytes⟩ := hreadable
  obtain ⟨byte, hbyte⟩ := Option.isSome_iff_exists.1 (hbytes i hi)
  have hx : M₁.byte? (b.cursorAddress + i) = some byte := by
    rw [h.wellFormed.byte?_of_mem hr (by omega) (by omega) (by omega), ← hbyte]
    congr 1
    omega
  rw [hx, h.byte? _ _ hx]

/-- A drain that fails without being torn has changed nothing. -/
theorem Reaccessed.drain_kept (h : b.Reaccessed M M₁) (hqueue : b.Queue pending M)
    (htorn : ¬ b.Torn pending.length M₁) {e : TraceError} (hdrain : b.drain M₁ = .error e M₂) :
    M₂ = M₁ := by
  rcases drain_error hdrain with heq | ⟨count, bytes, e', hpending, hread, hfill, hstore⟩
  · exact heq
  · have hpos : 0 < b.storageLength := Nat.mul_pos hqueue.sited.nonempty (by decide)
    have hreadable := readable_of_pending h.wellFormed hpending
    have hcleared := h.wellFormed.fill_ok hpos hfill
    rw [h.pending_eq hqueue hreadable] at hpending
    obtain rfl := Except.ok.inj hpending
    refine absurd ⟨hreadable, ⟨bytes, hread⟩, AddressSpace.writable_of_change hfill, ?_⟩ htorn
    intro hwritable
    obtain ⟨M', hstored, _⟩ := hcleared.wellFormed.store_of_writable (by decide)
      (hwritable.of_layout hcleared.layout) (UInt64.ofNat b.base)
    rw [hstore] at hstored
    contradiction

/-- A torn drain has cleared the storage. -/
theorem Reaccessed.drain_torn (h : b.Reaccessed M M₁) (hqueue : b.Queue pending M)
    (htorn : b.Torn pending.length M₁) : ∃ M₂, M₁.fill b.base b.storageLength 0 = .ok M₂ ∧
      b.drain M₁ = .error (.machine (.fault b.cursorAddress 8 .write)) M₂ := by
  have hpos : 0 < b.storageLength := Nat.mul_pos hqueue.sited.nonempty (by decide)
  obtain ⟨hreadable, ⟨bytes, hread⟩, hwritable, hfixed⟩ := htorn
  obtain ⟨M₂, hfill, hcleared⟩ := h.wellFormed.fill_of_writable hpos hwritable 0
  have hstore : AddressSpace.step (·.store b.cursorAddress 8 (UInt64.ofNat b.base)) M₂ =
      .error (.fault b.cursorAddress 8 .write) M₂ := by
    have hfixed₂ : ¬ M₂.Writable b.cursorAddress 8 := fun hw =>
      hfixed (hw.of_layout hcleared.layout.symm)
    rw [AddressSpace.step_apply, AddressSpace.store_of_not_writable (by decide) hfixed₂]
  have hreset : b.reset M₁ = .error (.fault b.cursorAddress 8 .write) M₂ :=
    (Step.bind_of_ok (AddressSpace.step_of_ok hfill)).trans hstore
  refine ⟨M₂, hfill, ?_⟩
  unfold TraceBuffer.drain
  simp only [h.pending_eq hqueue hreadable, hread, hreset]

/-! ## Drains after that -/

/-- To clear the storage and then give access back is to clear it with access. -/
theorem Reaccessed.reopen_fill (h : b.Reaccessed M M₁) (hqueue : b.Queue pending M)
    (hfill : M₁.fill b.base b.storageLength 0 = .ok M₂) (hreopen : b.reopen M₂ = .ok M₃) :
    M.fill b.base b.storageLength 0 = .ok M₃ := by
  obtain ⟨M', hheader, hstorage⟩ := reopen_ok hreopen
  obtain ⟨N, hfirst, hfill'⟩ := h.wellFormed.change_protect hfill hheader rfl
  obtain ⟨N', hsecond, hfill''⟩ := (h.wellFormed.protect hfirst).change_protect hfill' hstorage rfl
  have hsame := h.reopen N' (reopen_of_ok hfirst hsecond)
  rw [hqueue.sited.reopen hqueue.wellFormed] at hsame
  rw [Except.ok.inj hsame]
  exact hfill''

/-- With its storage cleared and its cursor left alone, the buffer is a queue of as many records,
all of them zero. -/
theorem Queue.cleared (h : b.Queue pending M)
    (hfill : M.fill b.base b.storageLength 0 = .ok M₃) :
    b.Queue (List.replicate pending.length .zero) M₃ := by
  have hapart := h.sited.apart
  have hheaderLength : BufferHeader.length = 24 := rfl
  have hpos : 0 < b.storageLength := Nat.mul_pos h.sited.nonempty (by decide)
  have hcleared := h.wellFormed.fill_ok hpos hfill
  have hzeros : (List.replicate b.storageLength (0 : UInt8)).length = b.storageLength :=
    List.length_replicate
  have hword {offset : Nat} (hoffset : offset + 8 ≤ BufferHeader.length) :
      M₃.wordAt (b.headerAddress + offset) 8 = M.wordAt (b.headerAddress + offset) 8 :=
    hcleared.wordAt_apart (Or.inl (by omega))
  constructor
  · exact hcleared.wellFormed
  · exact h.sited.of_layout hcleared.layout
  · rw [List.length_replicate]
    exact h.room
  · rw [cursorAddress, hword (by decide), slot, List.length_replicate]
    exact h.cursor
  · rw [hword (by decide)]
    exact h.base
  · rw [hword (by decide)]
    exact h.negatedEnd
  · have hfilled : pending.length * Record.length ≤ b.storageLength :=
      Nat.mul_le_mul_right _ h.room
    have hself := hcleared.bytesAt_self
    rw [hzeros] at hself
    have hwithin : 0 + pending.length * Record.length ≤ b.storageLength := by
      rwa [Nat.zero_add]
    have hslice := M₃.bytesAt_slice (a := b.base) hwithin
    rw [List.drop_zero, Nat.add_zero, hself, List.take_replicate, Nat.min_eq_left hfilled] at hslice
    rw [List.length_replicate, Record.flatMap_replicate_zero, ← hslice]

/-- What a drain that fails in `M₁` has left, where `M₁` is `M` up to access to the buffer. -/
structure Interrupted (b : TraceBuffer) (pending : List Record) (M M₁ M₂ : AddressSpace) : Prop where
  /-- Unless the drain was torn, everything is as it was, and with access the records are back. -/
  kept : ¬ b.Torn pending.length M₁ → M₂ = M₁ ∧ ∀ M₃, b.reopen M₂ = .ok M₃ → M₃ = M ∧
    ((pending = [] → ¬ b.Blocked M₃) → ∃ M₄, b.drain M₃ = .ok pending M₄)
  /-- Otherwise only the storage was cleared, and as many records of zeros take the place of those
  that were pending. -/
  torn : b.Torn pending.length M₁ → M₁.fill b.base b.storageLength 0 = .ok M₂ ∧
    ∀ M₃, b.reopen M₂ = .ok M₃ → M.fill b.base b.storageLength 0 = .ok M₃ ∧
      ((pending = [] → ¬ b.Blocked M₃) →
        ∃ M₄, b.drain M₃ = .ok (List.replicate pending.length .zero) M₄)

theorem Reaccessed.interrupted (h : b.Reaccessed M M₁) (hqueue : b.Queue pending M) {e : TraceError}
    (hdrain : b.drain M₁ = .error e M₂) : b.Interrupted pending M M₁ M₂ := by
  constructor
  · intro htorn
    refine ⟨h.drain_kept hqueue htorn hdrain, fun M₃ hreopen => ?_⟩
    rw [h.drain_kept hqueue htorn hdrain] at hreopen
    have hsame := h.reopen M₃ hreopen
    rw [hqueue.sited.reopen hqueue.wellFormed] at hsame
    obtain rfl := Except.ok.inj hsame
    refine ⟨rfl, fun hopen => ?_⟩
    obtain ⟨M₄, hdrain', _⟩ := hqueue.drain hopen
    exact ⟨M₄, hdrain'⟩
  · intro htorn
    obtain ⟨M', hfill, hdrain'⟩ := h.drain_torn hqueue htorn
    obtain rfl := (EStateM.Result.error.inj (hdrain'.symm.trans hdrain)).2
    refine ⟨hfill, fun M₃ hreopen => ?_⟩
    have hfill₃ := h.reopen_fill hqueue hfill hreopen
    refine ⟨hfill₃, fun hopen => ?_⟩
    obtain ⟨M₄, hdrain₃, _⟩ := (hqueue.cleared hfill₃).drain fun hnone => hopen (by simpa using hnone)
    exact ⟨M₄, hdrain₃⟩

/-- A flush fails as its drain does. -/
theorem flush_error {ω : Type} {s : TraceState ω} {world : ω} {e : TraceError}
    {t : TraceState ω × AddressSpace × ω} (hphase : s.phase = .active)
    (hbuffer : s.buffer? = some b) (h : TraceState.flush (s, M, world) = .error e t) :
    ∃ M₂, t = (s, M₂, world) ∧ b.drain M = .error e M₂ := by
  cases hdrain : b.drain M with
  | error e' M₂ =>
    rw [TraceState.flush_of_error hphase hbuffer hdrain] at h
    obtain ⟨rfl, rfl⟩ := EStateM.Result.error.inj h
    exact ⟨M₂, rfl, rfl⟩
  | ok batch M₂ =>
    by_cases hbatch : batch = []
    · subst hbatch
      rw [TraceState.flush_of_nothing hphase hbuffer hdrain] at h
      contradiction
    · rw [TraceState.flush_of_batch hphase hbuffer hdrain hbatch] at h
      contradiction

/-- Whatever was done to the access to a buffer, a drain of it or a flush that fails on memory has
lost none of the pending records unless it was torn. -/
theorem Queue.drain_interrupted (h : b.Queue pending M) {changes : List MemoryOperation}
    (hchanges : ∀ op ∈ changes, b.ChangesAccess op) :
    let M₁ := changes.foldl MemoryOperation.perform M
    (∀ e M₂, b.drain M₁ = .error (.machine e) M₂ → b.Interrupted pending M M₁ M₂) ∧
    ∀ (ω : Type) (s : TraceState ω) (world : ω) e t, s.phase = .active → s.buffer? = some b →
      TraceState.flush (s, M₁, world) = .error (.machine e) t →
        ∃ M₂, t = (s, M₂, world) ∧ b.Interrupted pending M M₁ M₂ := by
  have hM₁ : b.Reaccessed M (changes.foldl MemoryOperation.perform M) :=
    .run h.sited ⟨h.wellFormed, fun _ _ hx => hx, fun _ h₃ => h₃⟩ hchanges
  refine ⟨fun e M₂ => hM₁.interrupted h, fun ω s world e t hphase hbuffer hflush => ?_⟩
  obtain ⟨M₂, ht, hdrain⟩ := flush_error hphase hbuffer hflush
  exact ⟨M₂, ht, hM₁.interrupted h hdrain⟩

end TraceBuffer

namespace Sample

open TraceBuffer (ChangesAccess)

/-- A buffer that is filled. -/
def filledMemory : AddressSpace :=
  BufferAction.run queueBuffer [.append (record 1), .append (record 2)] queueMemory

theorem queue_filledMemory : queueBuffer.Queue [record 1, record 2] filledMemory := by
  obtain ⟨_, hqueue⟩ := TraceBuffer.allocate_queue (AddressSpace.wellFormed_withLimit ..)
    allocate_queueBuffer (by decide)
  have hallowed : BufferAction.AllAllowed queueBuffer []
      [.append (record 1), .append (record 2)] := ⟨Nat.zero_lt_two, Nat.one_lt_two, trivial⟩
  exact hqueue.run hallowed

/-- Storage that may not be read. -/
def unreadable : AddressSpace :=
  [MemoryOperation.protect queueBuffer.base ⟨false, true, false⟩].foldl MemoryOperation.perform
    filledMemory

/-- A drain of it fails, and the records come with the next one. -/
theorem drain_unreadable :
    queueBuffer.drain unreadable = .error (.machine (.fault queueBuffer.base 64 .read)) unreadable ∧
    ∃ M₃, queueBuffer.reopen unreadable = .ok M₃ ∧
      ∃ M₄, queueBuffer.drain M₃ = .ok [record 1, record 2] M₄ := by
  have hdrain : queueBuffer.drain unreadable =
      .error (.machine (.fault queueBuffer.base 64 .read)) unreadable := rfl
  have hchanges : ∀ op ∈ [MemoryOperation.protect queueBuffer.base ⟨false, true, false⟩],
      queueBuffer.ChangesAccess op := by
    simp [ChangesAccess]
  have hinterrupted := (queue_filledMemory.drain_interrupted hchanges).1 _ _ hdrain
  have htorn : ¬ queueBuffer.Torn 2 unreadable := by
    rintro ⟨_, ⟨bytes, hread⟩, _⟩
    contradiction
  obtain ⟨_, hreopened⟩ := hinterrupted.kept htorn
  refine ⟨hdrain, _, rfl, (hreopened _ rfl).2 nofun⟩

/-- A header that may not be written to. -/
def fixed : AddressSpace :=
  [MemoryOperation.protect queueBuffer.headerAddress ⟨true, false, false⟩].foldl
    MemoryOperation.perform filledMemory

/-- What a drain of it leaves. -/
def torn : AddressSpace :=
  Step.final queueBuffer.drain fixed

/-- The drain fails on the cursor, and the next one, with access, gives out zeros. -/
theorem drain_fixed :
    queueBuffer.pending fixed = .ok 2 ∧ fixed.byte? (queueBuffer.base + 8) = some 255 ∧
    queueBuffer.drain fixed =
      .error (.machine (.fault queueBuffer.headerAddress 8 .write)) torn ∧
    queueBuffer.pending torn = .ok 2 ∧ torn.byte? (queueBuffer.base + 8) = some 0 ∧
    ∃ M₃, queueBuffer.reopen torn = .ok M₃ ∧
      ∃ M₄, queueBuffer.drain M₃ = .ok [.zero, .zero] M₄ ∧
        [.zero, .zero] ≠ [record 1, record 2] :=
  ⟨rfl, by decide +kernel, rfl, rfl, by decide +kernel, _, rfl, _, rfl, by decide⟩

end Sample

end AccessTrace
