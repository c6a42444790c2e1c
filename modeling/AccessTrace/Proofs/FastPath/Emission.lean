import AccessTrace.FastPath.Injector
import AccessTrace.Proofs.Record.Trace
import AccessTrace.Proofs.Scratch.Emission

/-!
# The code of fast paths

The nodes that the injector puts in front of an instruction, written out: one path for each access,
with two labels of its own. The cursor is always kept in the counter, and the only thing in which
the two overflow tests differ is how they branch and whether the flags are kept aside.
-/

namespace AccessTrace

namespace Injector

open Scope (Emits Holding)

variable (j : Injector) (pc : Word) (access : Access) (divert resume : Label)

def recordCode : List Injected :=
  [.loadAddress .rbx access.mem, .readField .rcx j.field,
    .load .rcx .rcx (.ofNat BufferHeader.cursorOffset),
    .storeImmediate .rcx (.ofNat Record.isWriteOffset) (if access.direction.isWrite then 1 else 0)
      .w32,
    .store .rcx (.ofNat Record.addressOffset) .rbx,
    .storeImmediate .rcx (.ofNat Record.sizeOffset) (.ofNat access.size) .w64,
    .storeImmediate .rcx (.ofNat Record.originOffset) pc .w64]

def advanceCode : List Injected :=
  [.sum .rcx .rcx none (.ofNat Record.length), .readField .rbx j.field,
    .store .rbx (.ofNat BufferHeader.cursorOffset) .rcx,
    .load .rbx .rbx (.ofNat BufferHeader.negatedEndOffset)]

def divertCode : List Injected :=
  [.label divert, .labelAddress resumeRegister resume, .jumpTo j.flushAddress, .label resume]

def counterTestCode : List Injected :=
  [.sum .rcx .rbx (some .rcx) 0, .jumpIfCounterZero divert, .jump resume]

def flagsTestCode : List Injected :=
  [.sum .rcx .rbx (some .rcx) 0, .testZero .rcx, .jumpIfZero divert, .jump resume]

/-- The path with the test that leaves the flags alone. -/
def counterPath : List Injected :=
  .spill .rcx ⟨0⟩ :: .spill .rbx ⟨1⟩ :: (j.recordCode pc access ++ (j.advanceCode ++
    (counterTestCode divert resume ++ (j.divertCode divert resume ++
      [.restore .rbx ⟨1⟩, .restore .rcx ⟨0⟩]))))

/-- The path that keeps the flags aside. -/
def flagsPath : List Injected :=
  .saveFlags ⟨0⟩ :: .spill .rcx ⟨1⟩ :: .spill .rbx ⟨2⟩ :: (j.recordCode pc access ++
    (j.advanceCode ++ (flagsTestCode divert resume ++ (j.divertCode divert resume ++
      [.restore .rbx ⟨2⟩, .restore .rcx ⟨1⟩, .restoreFlags ⟨0⟩]))))

variable {j pc access divert resume} {pre : Holding}

theorem emits_emitRecord :
    Emits (j.emitRecord pc access .rcx .rbx) pre pre () (j.recordCode pc access) :=
  .emit_bind <| .emit_bind <| .emit_bind <| .emit_bind <| .emit_bind <| .emit_bind <|
    Scope.emits_emit _ _

theorem emits_emitAdvance : Emits (j.emitAdvance .rcx .rbx) pre pre () j.advanceCode :=
  .emit_bind <| .emit_bind <| .emit_bind <| Scope.emits_emit _ _

theorem emits_emitDivert :
    Emits (j.emitDivert divert resume) pre pre () (j.divertCode divert resume) :=
  .emit_bind <| .emit_bind <| .emit_bind <| Scope.emits_emit _ _

/-- What is common to all paths, from the record to the restores. -/
theorem emits_middle {testCode closeCode : List Injected} {post : Holding}
    (htest : Emits (j.test.emit .rcx .rbx divert resume) pre pre () testCode)
    (hclose : Emits Scope.close pre post () closeCode) :
    Emits (do
      j.emitRecord pc access .rcx .rbx
      j.emitAdvance .rcx .rbx
      j.test.emit .rcx .rbx divert resume
      j.emitDivert divert resume
      Scope.close) pre post ()
      (j.recordCode pc access ++ (j.advanceCode ++ (testCode ++
        (j.divertCode divert resume ++ closeCode)))) :=
  emits_emitRecord.bind <| emits_emitAdvance.bind <| htest.bind <| emits_emitDivert.bind hclose

/-- The cursor in the counter and a scratch register, taken out of some reservations. -/
theorem emits_body {res res₁ res₂ : Reservations} {slot slot₁ : SpillSlot}
    {prepareCode testCode closeCode : List Injected} {post : Holding}
    (hclass : j.test.cursorClass = .counter)
    (hprepare : Emits j.test.prepare pre ⟨res, false⟩ () prepareCode)
    (hcursor : Emits (Scope.acquire .counter) ⟨res, false⟩ ⟨res₁, false⟩ .rcx
      [.spill .rcx slot])
    (hscratch : Emits (Scope.acquire .any) ⟨res₁, false⟩ ⟨res₂, false⟩ .rbx
      [.spill .rbx slot₁])
    (htest : Emits (j.test.emit .rcx .rbx divert resume) ⟨res₂, false⟩ ⟨res₂, false⟩ () testCode)
    (hclose : Emits Scope.close ⟨res₂, false⟩ post () closeCode) :
    Emits (j.emitBody pc access divert resume) pre post ()
      (prepareCode ++ (.spill .rcx slot :: .spill .rbx slot₁ ::
        (j.recordCode pc access ++ (j.advanceCode ++ (testCode ++
          (j.divertCode divert resume ++ closeCode)))))) := by
  unfold emitBody
  rw [hclass]
  exact hprepare.bind <| hcursor.bind <| hscratch.bind <| emits_middle htest hclose

theorem emits_counterBody (h : j.test = .counterZero) :
    ∃ res, Emits (j.emitBody pc access divert resume) ⟨.none, false⟩ ⟨res, true⟩ ()
      (j.counterPath pc access divert resume) := by
  let res₁ : Reservations := { Reservations.none.markSlot ⟨0⟩ true with held := [(.rcx, ⟨0⟩)] }
  let res₂ : Reservations := { res₁.markSlot ⟨1⟩ true with held := [(.rcx, ⟨0⟩), (.rbx, ⟨1⟩)] }
  let res₃ : Reservations :=
    { (res₂.markSlot ⟨1⟩ false).markSlot ⟨0⟩ false with held := [] }
  have hcursor : Emits (Scope.acquire .counter) ⟨.none, false⟩ ⟨res₁, false⟩ .rcx
      [.spill .rcx ⟨0⟩] := Scope.emits_acquire (i := ⟨0, by decide⟩) (by decide) (by decide)
  have hscratch : Emits (Scope.acquire .any) ⟨res₁, false⟩ ⟨res₂, false⟩ .rbx
      [.spill .rbx ⟨1⟩] := Scope.emits_acquire (i := ⟨1, by decide⟩) (by decide) (by decide)
  have hprepare : Emits j.test.prepare ⟨.none, false⟩ ⟨.none, false⟩ () [] := by
    rw [h]
    exact .pure () _
  have htest : Emits (j.test.emit .rcx .rbx divert resume) ⟨res₂, false⟩ ⟨res₂, false⟩ ()
      (counterTestCode divert resume) := by
    rw [h]
    exact .emit_bind <| .emit_bind <| Scope.emits_emit _ _
  have hrelease : Emits ([.rbx, .rcx].forM fun reg => Scope.atAnchor fun anchor =>
      Scratch.release anchor reg) ⟨res₂, true⟩ ⟨res₃, true⟩ ()
      [.restore .rbx ⟨1⟩, .restore .rcx ⟨0⟩] :=
    (Scope.emits_release rfl).bind <| (Scope.emits_release rfl).bind <| .pure _ _
  have hclose : Emits Scope.close ⟨res₂, false⟩ ⟨res₃, true⟩ ()
      [.restore .rbx ⟨1⟩, .restore .rcx ⟨0⟩] :=
    Scope.emits_close (show res₂.held.reverse.map (·.1) = [.rbx, .rcx] from rfl) hrelease
      (Scope.emits_releaseFlags_none rfl)
  exact ⟨_, emits_body (by rw [h]; rfl) hprepare hcursor hscratch htest hclose⟩

theorem emits_flagsBody (h : j.test = .savedFlags) :
    ∃ res, Emits (j.emitBody pc access divert resume) ⟨.none, false⟩ ⟨res, true⟩ ()
      (j.flagsPath pc access divert resume) := by
  let res₀ : Reservations := { Reservations.none.markSlot ⟨0⟩ true with flags := some ⟨0⟩ }
  let res₁ : Reservations := { res₀.markSlot ⟨1⟩ true with held := [(.rcx, ⟨1⟩)] }
  let res₂ : Reservations := { res₁.markSlot ⟨2⟩ true with held := [(.rcx, ⟨1⟩), (.rbx, ⟨2⟩)] }
  let res₃ : Reservations :=
    { (res₂.markSlot ⟨2⟩ false).markSlot ⟨1⟩ false with held := [] }
  let res₄ : Reservations := { res₃.markSlot ⟨0⟩ false with flags := none }
  have hprepare : Emits j.test.prepare ⟨.none, false⟩ ⟨res₀, false⟩ () [.saveFlags ⟨0⟩] := by
    rw [h]
    exact Scope.emits_saveFlags (i := ⟨0, by decide⟩) rfl (by decide)
  have hcursor : Emits (Scope.acquire .counter) ⟨res₀, false⟩ ⟨res₁, false⟩ .rcx
      [.spill .rcx ⟨1⟩] := Scope.emits_acquire (i := ⟨1, by decide⟩) (by decide) (by decide)
  have hscratch : Emits (Scope.acquire .any) ⟨res₁, false⟩ ⟨res₂, false⟩ .rbx
      [.spill .rbx ⟨2⟩] := Scope.emits_acquire (i := ⟨2, by decide⟩) (by decide) (by decide)
  have htest : Emits (j.test.emit .rcx .rbx divert resume) ⟨res₂, false⟩ ⟨res₂, false⟩ ()
      (flagsTestCode divert resume) := by
    rw [h]
    exact .emit_bind <| .emit_bind <| .emit_bind <| Scope.emits_emit _ _
  have hrelease : Emits ([.rbx, .rcx].forM fun reg => Scope.atAnchor fun anchor =>
      Scratch.release anchor reg) ⟨res₂, true⟩ ⟨res₃, true⟩ ()
      [.restore .rbx ⟨2⟩, .restore .rcx ⟨1⟩] :=
    (Scope.emits_release rfl).bind <| (Scope.emits_release rfl).bind <| .pure _ _
  have hclose : Emits Scope.close ⟨res₂, false⟩ ⟨res₄, true⟩ ()
      [.restore .rbx ⟨2⟩, .restore .rcx ⟨1⟩, .restoreFlags ⟨0⟩] :=
    Scope.emits_close (show res₂.held.reverse.map (·.1) = [.rbx, .rcx] from rfl) hrelease
      (Scope.emits_releaseFlags_some rfl)
  exact ⟨_, emits_body (by rw [h]; rfl) hprepare hcursor hscratch htest hclose⟩

/-! ## Instrumented code -/

/-- The path of one access, whichever test the injector uses. -/
def path (j : Injector) (usesCounter : Bool) (pc : Word) (access : Access)
    (divert resume : Label) : List Injected :=
  if usesCounter then j.counterPath pc access divert resume
  else j.flagsPath pc access divert resume

/-- The injector uses the test that leaves the flags alone, or the other one. -/
def Uses (j : Injector) (usesCounter : Bool) : Prop :=
  j.test = if usesCounter then .counterZero else .savedFlags

theorem emits_emitBody {usesCounter : Bool} (pc : Word) (access : Access) (divert resume : Label)
    (hj : j.Uses usesCounter) :
    ∃ res, Emits (j.emitBody pc access divert resume) ⟨.none, false⟩ ⟨res, true⟩ ()
      (j.path usesCounter pc access divert resume) := by
  cases usesCounter with
  | true => exact emits_counterBody hj
  | false => exact emits_flagsBody hj

/-- The paths of recorded accesses, with labels from `label` on. -/
def paths (j : Injector) (usesCounter : Bool) : (label : Nat) → List (Word × Access) → List Node
  | _, [] => []
  | label, (pc, access) :: rest =>
    (j.path usesCounter pc access ⟨label⟩ ⟨label + 1⟩).map .injected ++
      paths j usesCounter (label + 2) rest

/-- The nodes of a block. -/
def expansion (j : Injector) (usesCounter : Bool) : (label : Nat) → List Instruction → List Node
  | _, [] => []
  | label, i :: rest =>
    j.paths usesCounter label i.recorded ++
      .app i :: expansion j usesCounter (label + 2 * i.recorded.length) rest

variable {usesCounter : Bool} {l : Listing} {before : List Node} {anchor : Handle} {node : Node}
  {rest : List (Handle × Node)} {label : Nat}

theorem insertFastPath_ok (hj : j.Uses usesCounter) (pc : Word) (access : Access)
    (hat : l.At before ((anchor, node) :: rest) label) :
    ∃ l', j.insertFastPath anchor pc access l = .ok () l' ∧
      l'.At (before ++ (j.path usesCounter pc access ⟨label⟩ ⟨label + 1⟩).map .injected)
        ((anchor, node) :: rest) (label + 2) := by
  obtain ⟨hdivert, hat₁⟩ := hat.newLabel
  obtain ⟨hresume, hat₂⟩ := hat₁.newLabel
  let l₂ := l.newLabel.2.newLabel.2
  obtain ⟨res, hbody⟩ := emits_emitBody pc access ⟨label⟩ ⟨label + 1⟩ hj
  obtain ⟨s, hrun, hholding, _, hat₃⟩ := hbody.run (.openAt l₂ anchor) before node rest
    (label + 2) rfl hat₂
  have hclosed : s.isClosed = true := congrArg Holding.isClosed hholding
  refine ⟨s.listing, ?_, hat₃⟩
  have hwithin : Scope.within anchor (j.emitBody pc access ⟨label⟩ ⟨label + 1⟩) l₂ =
      .ok () s.listing := by
    unfold Scope.within
    rw [hrun]
    simp only [Scope.leave, hclosed, if_true]
  change Scope.within anchor (j.emitBody pc access l.newLabel.1 l.newLabel.2.newLabel.1) l₂ = _
  rw [hdivert, hresume]
  exact hwithin

theorem insertFastPaths_ok (hj : j.Uses usesCounter) (pc : Word) (accesses : List Access)
    (hat : l.At before ((anchor, node) :: rest) label) :
    ∃ l', j.insertFastPaths anchor pc accesses l = .ok () l' ∧
      l'.At (before ++ j.paths usesCounter label (accesses.map (pc, ·)))
        ((anchor, node) :: rest) (label + 2 * accesses.length) := by
  induction accesses generalizing l before label with
  | nil => exact ⟨l, rfl, by simpa [paths] using hat⟩
  | cons access accesses ih =>
    obtain ⟨l₁, hfirst, hat₁⟩ := insertFastPath_ok hj pc access hat
    obtain ⟨l₂, hrest, hat₂⟩ := ih hat₁
    refine ⟨l₂, ?_, ?_⟩
    · simp only [insertFastPaths, hfirst]
      exact hrest
    · rw [List.map_cons, paths, ← List.append_assoc, List.length_cons, Nat.mul_add, Nat.mul_one,
        Nat.add_comm (2 * _), ← Nat.add_assoc]
      exact hat₂

/-- Instrumenting an instruction puts the paths of its recorded accesses in front of it. -/
theorem instrument_ok (hj : j.Uses usesCounter) {i : Instruction}
    (hat : l.At before ((anchor, .app i) :: rest) label) :
    ∃ n l', j.instrument anchor l = .ok n l' ∧
      l'.At (before ++ j.paths usesCounter label i.recorded) ((anchor, .app i) :: rest)
        (label + 2 * i.recorded.length) := by
  unfold instrument
  rw [Step.bind_apply, Step.get_apply]
  simp only [hat.node?]
  unfold Instruction.recorded
  cases i.address with
  | none => exact ⟨0, l, rfl, by simpa [paths] using hat⟩
  | some pc =>
    obtain ⟨l', hpaths, hat'⟩ := insertFastPaths_ok hj pc i.accesses hat
    refine ⟨_, l', Step.bind_of_ok hpaths, ?_⟩
    rw [List.length_map]
    exact hat'

end Injector

end AccessTrace
