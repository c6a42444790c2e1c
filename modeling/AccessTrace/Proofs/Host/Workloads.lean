import AccessTrace.Host.Workload
import AccessTrace.Proofs.Host.Preparation
import AccessTrace.Proofs.Host.StraightLine
import AccessTrace.Proofs.Machine.Confinement

/-!
# The built-in workloads

Each workload is one block that is executed a number of times over, on one region. A round of it
leads from each state of an invariant to the next: the copy has walked another sixteen bytes through
both of its arrays, the stack is where it was, and the counter of the mixed workload is one higher.
All of a round stays in the region, so no number of rounds fails for which the region can be mapped.
-/

namespace AccessTrace

open Host (prepare mapShared prepare_ok)
open Instruction (Confined executeAll accessTrace)
open Operand (Assigned fits_top fits_memory fits_register fits_immediate)

/-- The addresses of a region. -/
def Program.span (d : Word × Nat) : Span :=
  (d.1.toNat, d.2)

/-! ## Arithmetic -/

theorem ArithmeticOp.apply_add_word (a b : Word) : (ArithmeticOp.add.apply a b 8).1 = a + b := by
  have hmask : lowMask 64 = 0xffffffffffffffff := rfl
  have hall (w : Word) : w &&& 0xffffffffffffffff = w := UInt64.and_neg_one
  change ((a &&& lowMask 64) + (b &&& lowMask 64)) &&& lowMask 64 = a + b
  rw [hmask, hall, hall, hall]

namespace MachineState

theorem effectiveAddress_absolute (machine : MachineState) (address : Word) (size : OperandSize) :
    machine.effectiveAddress (.absolute address size) = address := by
  change 0 + 0 + address.toInt64.toUInt64 = address
  rw [UInt64.toUInt64_toInt64, UInt64.zero_add, UInt64.zero_add]

end MachineState

namespace AddressSpace

theorem ofLittleEndian_zeros (bytes : List UInt8) (h : ∀ b ∈ bytes, b = 0) :
    ofLittleEndian bytes = 0 := by
  induction bytes with
  | nil => rfl
  | cons b bytes ih =>
    rw [ofLittleEndian, h b List.mem_cons_self, ih fun b hb => h b (List.mem_cons_of_mem _ hb)]
    rfl

/-- A region of a program is zero at the start. -/
theorem WellFormed.wordAt_zeroed {m : AddressSpace} (hm : m.WellFormed) {d : Word × Nat}
    (hd : Program.zeroed d ∈ m.regions) (hbound : d.1.toNat + d.2 < addressBound) {a width : Nat}
    (hin : Span.Within (a, width) (Program.span d)) : m.wordAt a width = 0 := by
  obtain ⟨hlow, hhigh⟩ := Span.within_iff.1 hin
  have hzero : ∀ b ∈ m.bytesAt a width, b = 0 := by
    intro b hb
    obtain ⟨i, hi, rfl⟩ := List.mem_map.1 hb
    have hi := List.mem_range.1 hi
    have hbyte := hm.byte?_of_mem (a := a + i) hd (Nat.le_add_right_of_le hlow)
      (by change a + i < d.1.toNat + d.2; omega) (by omega)
    rw [hbyte]
    rfl
  rw [wordAt, ofLittleEndian_zeros _ hzero]
  rfl

end AddressSpace

namespace Workload

/-- The region of a workload. -/
def region (w : Workload) (n : Nat) : Word × Nat :=
  match w with
  | copy => (dataBase, (copySpan n * 2).toNat)
  | stack => (stackTop - UInt64.ofNat stackSize, stackSize)
  | mixed => (dataBase, 0x1000)

/-- The region of the workload is computed without an overflow. -/
def SizesFit (w : Workload) (n : Nat) : Prop :=
  match w with
  | copy => (16 * n + 16) * 2 < 2 ^ 64
  | stack | mixed => True

theorem toNat_copySpan {n : Nat} (hfit : copy.SizesFit n) :
    (copySpan n).toNat = 16 * n + 16 ∧ (copy.region n).2 = (16 * n + 16) * 2 := by
  have hbound : (16 * n + 16) * 2 < 2 ^ 64 := hfit
  have hspan : (copySpan n).toNat = 16 * n + 16 := by
    have hsixteen : (16 : Word).toNat = 16 := rfl
    rw [copySpan, UInt64.toNat_add, UInt64.toNat_ofNat', hsixteen]
    omega
  have hregion : (copy.region n).2 = (16 * n + 16) * 2 % 2 ^ 64 := by
    have htwo : (2 : Word).toNat = 2 := rfl
    change (copySpan n * 2).toNat = _
    rw [UInt64.toNat_mul, hspan, htwo]
  exact ⟨hspan, hregion.trans (Nat.mod_eq_of_lt hbound)⟩

theorem regions_eq (w : Workload) (n : Nat) : (w.program n).regions = [w.region n] := by
  cases w <;> rfl

variable {data : Span} {g : Guest}

/-! ## Copying -/

/-- Both halves of sixteen bytes in a region lie in it. -/
theorem halves_within (hdata : g.memory.Offers data) {w : Word}
    (hw : Span.Within (w.toNat, 16) data) :
    Span.Within (w.toNat, 8) data ∧ Span.Within ((w + 8).toNat, 8) data := by
  obtain ⟨hlow, hhigh⟩ := Span.within_iff.1 hw
  have hbound := hdata.bound
  have hnext := UInt64.toNat_add w 8
  rw [show (8 : Word).toNat = 8 from rfl] at hnext
  unfold addressBound at hbound
  exact ⟨Span.within_iff.2 (by omega), Span.within_iff.2 (by omega)⟩

/-- Adding to a register is no access. -/
theorem advance_confined (pc : Word) (r : Register) (hdata : g.memory.Offers data) :
    ∃ g', Confined data [.add pc (.register r) (.immediate 8)] g g' ∧
      ∀ r', g'.machine.get r' = if r' = r then g.machine.get r + 8 else g.machine.get r' := by
  obtain ⟨g', h, hset⟩ := Instruction.add_confined pc (.register r) (.register r) (.immediate 8)
    hdata (fits_register _ _ _) (fits_immediate _ _ _) (fits_register _ _ _) rfl
  refine ⟨g', h, fun r' => (hset.get r').trans ?_⟩
  simp only [Operand.register.injEq, eq_comm (a := r)]
  split
  · exact ArithmeticOp.apply_add_word _ _
  · rfl

theorem copy_round (hdata : g.memory.Offers data)
    (hsource : Span.Within ((g.machine.get .rsi).toNat, 16) data)
    (htarget : Span.Within ((g.machine.get .rdi).toNat, 16) data) :
    ∃ g', Confined data (blockAt codeBase copyInstructions).instructions g g' ∧
      g'.machine.get .rsi = g.machine.get .rsi + 16 ∧
      g'.machine.get .rdi = g.machine.get .rdi + 16 := by
  obtain ⟨hsource₁, hsource₂⟩ := halves_within hdata hsource
  obtain ⟨htarget₁, htarget₂⟩ := halves_within hdata htarget
  obtain ⟨g₁, h₁, hset₁⟩ := Instruction.mov_confined codeBase (.register .rax)
    (.memory (.atRegister .rsi 0 .b8)) hdata (fits_top rfl hsource₁) (fits_register _ _ _) rfl
  have hdata₁ := h₁.offers hdata
  have hrdi₁ : g₁.machine.get .rdi = g.machine.get .rdi := hset₁.get .rdi
  obtain ⟨g₂, h₂, hset₂⟩ := Instruction.mov_confined (codeBase + 4)
    (.memory (.atRegister .rdi 0 .b8)) (.register .rax) hdata₁ (fits_register _ _ _)
    (fits_top rfl (hrdi₁ ▸ htarget₁)) rfl
  have hdata₂ := h₂.offers hdata₁
  obtain ⟨g₃, h₃, hget₃⟩ := advance_confined (codeBase + 4 + 4) .rsi hdata₂
  have hdata₃ := h₃.offers hdata₂
  obtain ⟨g₄, h₄, hget₄⟩ := advance_confined (codeBase + 4 + 4 + 4) .rdi hdata₃
  have hdata₄ := h₄.offers hdata₃
  -- The second element is moved from right behind the first to right behind it.
  have hrsi₄ : g₄.machine.get .rsi = g.machine.get .rsi + 8 := by
    simp [hget₄, hget₃, hset₂.get, hset₁.get]
  have hrdi₄ : g₄.machine.get .rdi = g.machine.get .rdi + 8 := by
    simp [hget₄, hget₃, hset₂.get, hset₁.get]
  obtain ⟨g₅, h₅, hget₅⟩ := Instruction.movs_confined (codeBase + 4 + 4 + 4 + 4)
    (show AddressSpace.isScalarWidth OperandSize.b8.bytes = true from rfl) hdata₄
    (hrsi₄ ▸ hsource₂) (hrdi₄ ▸ htarget₂)
  have hsixteen (w : Word) : w + 8 + 8 = w + 16 := UInt64.add_assoc w 8 8
  refine ⟨g₅, (((h₁.append h₂).append h₃).append h₄).append h₅, ?_, ?_⟩
  · rw [← hsixteen, ← hrsi₄]
    exact hget₅ .rsi
  · rw [← hsixteen, ← hrdi₄]
    exact hget₅ .rdi

/-! ## Frames on a stack -/

def stackSpan : Span := Program.span (stack.region 0)

/-- The stack is far from both ends of its region, so a round of it needs no look at them. -/
theorem stack_round (hdata : g.memory.Offers stackSpan)
    (hrsp : g.machine.get .rsp = stackTop - 0x100) (hrbp : g.machine.get .rbp = stackTop - 0x80) :
    ∃ g', Confined stackSpan (blockAt (codeBase + 0x100) stackInstructions).instructions g g' ∧
      g'.machine.get .rsp = stackTop - 0x100 ∧ g'.machine.get .rbp = stackTop - 0x80 := by
  obtain ⟨g₁, h₁, hget₁⟩ := Instruction.push_confined (codeBase + 0x100) (.register .rax) hdata
    (fits_register _ _ _) (by rw [hrsp]; decide)
  have hdata₁ := h₁.offers hdata
  have hrsp₁ : g₁.machine.get .rsp = stackTop - 0x108 := (hget₁ .rsp).trans (by rw [hrsp]; rfl)
  obtain ⟨g₂, h₂, hget₂⟩ := Instruction.pop_confined (codeBase + 0x100 + 4) .rbx hdata₁
    (by rw [hrsp₁]; decide)
  have hdata₂ := h₂.offers hdata₁
  have hrsp₂ : g₂.machine.get .rsp = stackTop - 0x100 := (hget₂ .rsp).trans (by rw [hrsp₁]; rfl)
  have hrbp₂ : g₂.machine.get .rbp = stackTop - 0x80 := ((hget₂ .rbp).trans (hget₁ .rbp)).trans hrbp
  obtain ⟨g₃, h₃, hrbp₃, -, hsaved⟩ := Instruction.enter_confined (codeBase + 0x100 + 4 + 4) 32
    hdata₂ (by rw [hrsp₂]; decide)
  have hdata₃ := h₃.offers hdata₂
  rw [hrsp₂] at hrbp₃ hsaved
  -- The word that is stored inside the frame is below the saved frame pointer.
  let below : Span := (stackSpan.1, stackSize - 0x108)
  have hbelow : below.Within stackSpan := by decide
  obtain ⟨g₄, h₄, hset₄⟩ := Instruction.mov_confined (codeBase + 0x100 + 4 + 4 + 4)
    (.memory (.atRegister .rbp (-16) .b8)) (.register .rax) (hdata₃.mono hbelow)
    (fits_register _ _ _) (fits_memory rfl (by
      rw [MachineState.span, MachineState.effectiveAddress_atRegister, hrbp₃]
      decide)) rfl
  have hdata₄ := h₄.offers hdata₃
  have hrbp₄ : g₄.machine.get .rbp = stackTop - 0x108 := (hset₄.get .rbp).trans hrbp₃
  have hsaved₄ : g₄.memory.wordAt (g₄.machine.get .rbp).toNat 8 = stackTop - 0x80 := by
    rw [h₄.wordAt (by rw [hrbp₄]; decide), hrbp₄]
    exact hsaved.trans hrbp₂
  obtain ⟨g₅, h₅, hget₅⟩ := Instruction.leave_confined (codeBase + 0x100 + 4 + 4 + 4 + 4) hdata₄
    (by rw [hrbp₄]; decide)
  refine ⟨g₅, (((h₁.append h₂).append h₃).append (h₄.mono hbelow)).append h₅, ?_, ?_⟩
  · exact (hget₅ .rsp).trans (by rw [hrbp₄]; rfl)
  · exact (hget₅ .rbp).trans hsaved₄

/-! ## Updates in place -/

def mixedSpan : Span := Program.span (mixed.region 0)

/-- What of the data comes after the counter. -/
def cellSpan : Span := (dataBase.toNat + 8, 0x1000 - 8)

/-- A cell at a fixed address. -/
theorem fits_cell {machine : MachineState} (address : Word) {size : OperandSize}
    (hwidth : AddressSpace.isScalarWidth size.bytes = true)
    (hin : Span.Within (address.toNat, size.bytes) data) :
    (Operand.memory (.absolute address size)).Fits data machine :=
  fits_memory hwidth (by rwa [MachineState.span, MachineState.effectiveAddress_absolute])

theorem counter_step (hdata : g.memory.Offers mixedSpan) :
    ∃ g', Confined mixedSpan [.add (codeBase + 0x200) (.memory (.absolute (dataBase + 0) .b8))
        (.immediate 1)] g g' ∧
      g'.memory.wordAt dataBase.toNat 8 = g.memory.wordAt dataBase.toNat 8 + 1 := by
  let counter : MemoryOperand := .absolute (dataBase + 0) .b8
  have hcounter : (Operand.memory counter).Fits mixedSpan g.machine := fits_cell _ rfl (by decide)
  have haddress : g.machine.effectiveAddress counter = dataBase :=
    g.machine.effectiveAddress_absolute (dataBase + 0) .b8
  obtain ⟨g', h, hset⟩ := Instruction.add_confined (codeBase + 0x200) (.memory counter)
    (.memory counter) (.immediate 1) hdata hcounter (fits_immediate _ _ _) hcounter rfl
  have hwritten := hset.written counter rfl
  have hvalue := hwritten.wordAt_self
  rw [haddress] at hvalue
  refine ⟨g', h, hvalue.trans ((ArithmeticOp.apply_add_word _ _).trans ?_)⟩
  change g.memory.wordAt (g.machine.effectiveAddress counter).toNat 8 + 1 = _
  rw [haddress]

/-- The counter is one higher. All other instructions of the round work behind it. -/
theorem mixed_round (hdata : g.memory.Offers mixedSpan) :
    ∃ g', Confined mixedSpan (blockAt (codeBase + 0x200) mixedInstructions).instructions g g' ∧
      g'.memory.wordAt dataBase.toNat 8 = g.memory.wordAt dataBase.toNat 8 + 1 := by
  have hbehind : cellSpan.Within mixedSpan := by decide
  obtain ⟨g₁, h₁, hcounter⟩ := counter_step hdata
  have hcells₁ := (h₁.offers hdata).mono hbehind
  obtain ⟨g₂, h₂⟩ := Instruction.cmp_confined (codeBase + 0x200 + 4) (.register .rax)
    (.memory (.absolute (dataBase + 8) .b8)) hcells₁ (fits_register _ _ _)
    (fits_cell _ rfl (by decide))
  have hcells₂ := h₂.offers hcells₁
  obtain ⟨g₃, h₃⟩ := Instruction.fxsave_confined (codeBase + 0x200 + 4 + 4)
    (.absolute (dataBase + 0x100) .b8) hcells₂
    (by rw [MachineState.effectiveAddress_absolute]; decide)
  have hcells₃ := h₃.offers hcells₂
  obtain ⟨g₄, h₄⟩ := Instruction.setz_confined (codeBase + 0x200 + 4 + 4 + 4) .rbx hcells₃
  have hcells₄ := h₄.offers hcells₃
  obtain ⟨g₅, h₅, -⟩ := Instruction.mov_confined (codeBase + 0x200 + 4 + 4 + 4 + 4)
    (.memory (.absolute (dataBase + 48) .b8)) (.register .rbx) hcells₄ (fits_register _ _ _)
    (fits_cell _ rfl (by decide)) rfl
  have hcells₅ := h₅.offers hcells₄
  obtain ⟨g₆, h₆, -⟩ := Instruction.add_confined (codeBase + 0x200 + 4 + 4 + 4 + 4 + 4)
    (.memory (.absolute (dataBase + 24) .b4)) (.memory (.absolute (dataBase + 32) .b4))
    (.memory (.absolute (dataBase + 40) .b4)) hcells₅ (fits_cell _ rfl (by decide))
    (fits_cell _ rfl (by decide)) (fits_cell _ rfl (by decide)) rfl
  have hrest := (((h₂.append h₃).append h₄).append h₅).append h₆
  refine ⟨g₆, h₁.append (hrest.mono hbehind), ?_⟩
  rw [hrest.wordAt (by decide), hcounter]

/-! ## Rounds -/

/-- The block of a workload. -/
def block (w : Workload) : Block :=
  match w with
  | copy => blockAt codeBase copyInstructions
  | stack => blockAt (codeBase + 0x100) stackInstructions
  | mixed => blockAt (codeBase + 0x200) mixedInstructions

theorem blocks_eq (w : Workload) (n : Nat) : (w.program n).blocks = [w.block] := by
  cases w <;> rfl

theorem eq_block_of_mem (w : Workload) {n : Nat} {b : Block} (hb : b ∈ (w.program n).blocks) :
    b = w.block := by
  rw [blocks_eq] at hb
  exact List.mem_singleton.1 hb

theorem iterations_eq (w : Workload) (n : Nat) : (w.program n).iterations = n := by
  cases w <;> rfl

theorem constructed (w : Workload) : ∀ i ∈ w.block.instructions, i.Constructed := by
  intro i hi
  cases w with
  | copy =>
    simp only [block, blockAt, placedAt, copyInstructions, List.mem_cons, List.not_mem_nil,
      or_false] at hi
    rcases hi with rfl | rfl | rfl | rfl | rfl
    · exact .mov _ _ _
    · exact .mov _ _ _
    · exact Instruction.constructed_add _ _ _
    · exact Instruction.constructed_add _ _ _
    · exact .movs _ _
  | stack =>
    simp only [block, blockAt, placedAt, stackInstructions, List.mem_cons, List.not_mem_nil,
      or_false] at hi
    rcases hi with rfl | rfl | rfl | rfl | rfl
    · exact .push _ _
    · exact .pop _ _
    · exact .enter _ _ _
    · exact .mov _ _ _
    · exact .leave _
  | mixed =>
    simp only [block, blockAt, placedAt, mixedInstructions, List.mem_cons, List.not_mem_nil,
      or_false] at hi
    rcases hi with rfl | rfl | rfl | rfl | rfl | rfl
    · exact Instruction.constructed_add _ _ _
    · exact .cmp _ _ _
    · exact .fxsave _ _
    · exact .setz _ _
    · exact .mov _ _ _
    · exact .ternary _ _ _ _ _ (Or.inl rfl)

/-- Where a workload stands after some rounds. -/
def Reached (w : Workload) (start : Guest) (rounds : Nat) (g : Guest) : Prop :=
  match w with
  | copy =>
    (g.machine.get .rsi).toNat = (start.machine.get .rsi).toNat + 16 * rounds ∧
      (g.machine.get .rdi).toNat = (start.machine.get .rdi).toNat + 16 * rounds
  | stack =>
    g.machine.get .rsp = start.machine.get .rsp ∧ g.machine.get .rbp = start.machine.get .rbp
  | mixed => g.memory.load dataBase.toNat 8 = .ok (UInt64.ofNat rounds)

/-- The guest of a workload that is ready to start. -/
structure Ready (w : Workload) (n : Nat) (start : Guest) : Prop where
  fits : w.SizesFit n
  machine : start.machine = Host.startMachine (w.program n)
  data : start.memory.Offers (Program.span (w.region n))
  zeroed : Program.zeroed (w.region n) ∈ start.memory.regions

variable {start : Guest} {n k : Nat}

theorem copy_step (hstart : Ready copy n start) (hk : k < n)
    (hdata : g.memory.Offers (Program.span (copy.region n))) (h : Reached copy start k g) :
    ∃ g', Confined (Program.span (copy.region n)) copy.block.instructions g g' ∧
      Reached copy start (k + 1) g' := by
  obtain ⟨hspan, hlength⟩ := toNat_copySpan hstart.fits
  have hbound := hdata.bound
  change dataBase.toNat + (copy.region n).2 < addressBound at hbound
  have hsource : (start.machine.get .rsi).toNat = dataBase.toNat := by
    rw [hstart.machine]
    rfl
  have htarget : (start.machine.get .rdi).toNat = dataBase.toNat + (copySpan n).toNat := by
    rw [hstart.machine]
    change (dataBase + copySpan n).toNat = _
    rw [UInt64.toNat_add]
    unfold addressBound at hbound
    omega
  obtain ⟨hrsi, hrdi⟩ := h
  have hsourceIn : Span.Within ((g.machine.get .rsi).toNat, 16)
      (dataBase.toNat, (copy.region n).2) := Span.within_iff.2 (by omega)
  have htargetIn : Span.Within ((g.machine.get .rdi).toNat, 16)
      (dataBase.toNat, (copy.region n).2) := Span.within_iff.2 (by omega)
  obtain ⟨g', hround, hrsi', hrdi'⟩ := copy_round hdata hsourceIn htargetIn
  have hnext {w : Word} (hw : w.toNat + 16 < 2 ^ 64) : (w + 16).toNat = w.toNat + 16 := by
    have hsixteen : (16 : Word).toNat = 16 := rfl
    rw [UInt64.toNat_add, hsixteen]
    omega
  unfold addressBound at hbound
  refine ⟨g', hround, ?_, ?_⟩
  · rw [hrsi', hnext (by omega), hrsi]
    omega
  · rw [hrdi', hnext (by omega), hrdi]
    omega

theorem stack_step (hstart : Ready stack n start)
    (hdata : g.memory.Offers (Program.span (stack.region n))) (h : Reached stack start k g) :
    ∃ g', Confined (Program.span (stack.region n)) stack.block.instructions g g' ∧
      Reached stack start (k + 1) g' := by
  have hrsp : start.machine.get .rsp = stackTop - 0x100 := by
    rw [hstart.machine]
    rfl
  have hrbp : start.machine.get .rbp = stackTop - 0x80 := by
    rw [hstart.machine]
    rfl
  obtain ⟨g', hround, hrsp', hrbp'⟩ := stack_round hdata (h.1.trans hrsp) (h.2.trans hrbp)
  exact ⟨g', hround, hrsp'.trans hrsp.symm, hrbp'.trans hrbp.symm⟩

theorem load_counter (hdata : g.memory.Offers mixedSpan) :
    g.memory.load dataBase.toNat 8 = .ok (g.memory.wordAt dataBase.toNat 8) :=
  hdata.load rfl (by decide)

theorem mixed_step (hdata : g.memory.Offers (Program.span (mixed.region n)))
    (h : Reached mixed start k g) :
    ∃ g', Confined (Program.span (mixed.region n)) mixed.block.instructions g g' ∧
      Reached mixed start (k + 1) g' := by
  obtain ⟨g', hround, hcounter⟩ := mixed_round hdata
  refine ⟨g', hround, ?_⟩
  have hbefore : g.memory.wordAt dataBase.toNat 8 = UInt64.ofNat k :=
    Except.ok.inj ((load_counter hdata).symm.trans h)
  refine (load_counter (hround.offers hdata)).trans ?_
  rw [hcounter, hbefore, UInt64.ofNat_add]
  rfl

theorem reached_start (w : Workload) (hstart : w.Ready n start) : w.Reached start 0 start := by
  cases w with
  | copy => exact ⟨rfl, rfl⟩
  | stack => exact ⟨rfl, rfl⟩
  | mixed =>
    refine (load_counter hstart.data).trans ?_
    have hcounter : Span.Within (dataBase.toNat, 8) mixedSpan := by decide
    rw [hstart.data.wellFormed.wordAt_zeroed hstart.zeroed hstart.data.bound hcounter]
    rfl

/-- All rounds of a workload succeed and stay in its region. -/
theorem rounds_confined (w : Workload) (hstart : w.Ready n start) :
    ∃ g, Confined (Program.span (w.region n)) (w.program n).executed start g ∧
      w.Reached start n g := by
  rw [Program.executed_of_single (w.blocks_eq n), iterations_eq]
  refine Confined.replicate (w.Reached start) (fun k g hk hdata h => ?_) hstart.data
    (w.reached_start hstart)
  cases w with
  | copy => exact copy_step hstart hk hdata h
  | stack => exact stack_step hstart hdata h
  | mixed => exact mixed_step hdata h

/-! ## Whole runs -/

variable {δ ω : Type} {h : Host δ ω} {client : Client δ ω} {id : ThreadId} {thread : Thread δ}

theorem length_region_pos (w : Workload) (hfit : w.SizesFit n) : 0 < (w.region n).2 := by
  cases w with
  | copy =>
    rw [(toNat_copySpan hfit).2]
    omega
  | stack => exact (by decide : 0 < stackSize)
  | mixed => exact (by decide : 0 < 0x1000)

/-- What a workload needs of the memory of a host. -/
theorem exists_prepare_iff (w : Workload) (hfit : w.SizesFit n) :
    (∃ thread, h.prepare id (w.program n) = .ok thread) ↔
      ∃ m, mapShared (.withLimit h.memoryLimit h.allocator) h.shared = .ok m ∧
        m.overlaps (w.region n).1.toNat (w.region n).2 = false ∧
        m.hasRoom (w.region n).2 = true := by
  rw [Host.exists_prepare_iff (w.regions_eq n)]
  exact exists_congr fun m => and_congr_right fun _ => and_iff_right (w.length_region_pos hfit)

theorem bound_region (w : Workload) {m : AddressSpace} (hroom : m.hasRoom (w.region n).2 = true) :
    (w.region n).1.toNat + (w.region n).2 < addressBound := by
  have hbase : (w.region n).1.toNat < 2 ^ 30 := by
    cases w with
    | copy | mixed => exact (by decide : dataBase.toNat < 2 ^ 30)
    | stack => exact (by decide : (stackTop - UInt64.ofNat stackSize).toNat < 2 ^ 30)
  have hlength := AddressSpace.lt_of_hasRoom hroom
  unfold storageBound at hlength
  unfold addressBound
  omega

theorem ready_of_prepared (w : Workload) (hfit : w.SizesFit n)
    (hprepare : h.prepare id (w.program n) = .ok thread) : w.Ready n thread.guest := by
  obtain ⟨_, _, hmachine, hm, _, hregions⟩ := prepare_ok hprepare
  obtain ⟨_, _, _, hroom⟩ := (w.exists_prepare_iff hfit).1 ⟨thread, hprepare⟩
  have hzeroed : Program.zeroed (w.region n) ∈ thread.guest.memory.regions :=
    (hregions _).2 (Or.inr ⟨w.region n, by rw [regions_eq]; exact List.mem_singleton_self _, rfl⟩)
  exact ⟨hfit, hmachine, ⟨hm, Program.span (w.region n), List.mem_map_of_mem hzeroed,
    Span.within_iff.2 ⟨Nat.le_refl _, Nat.le_refl _⟩, w.bound_region hroom⟩, hzeroed⟩

theorem operandsPerIteration_eq (w : Workload) (n : Nat) :
    (w.program n).operandsPerIteration = w.accessesPerIteration := by
  cases w <;> rfl

theorem length_trace (w : Workload) (hok : executeAll (w.program n).executed start = .ok () g) :
    (accessTrace (w.program n).executed start).length = w.accessesPerIteration * n := by
  have haddress : ∀ i ∈ (w.program n).executed, i.address ≠ none := by
    intro i hi
    obtain ⟨b, hb, hi⟩ := Program.mem_of_mem_executed hi
    obtain rfl := w.eq_block_of_mem hb
    exact (by cases w <;> decide : ∀ i ∈ w.block.instructions, i.address ≠ none) i hi
  rw [Instruction.length_accessTrace haddress hok,
    Program.executed_eq (Program.instructions_of_single (w.blocks_eq n)),
    Program.sum_operandsPerIteration, operandsPerIteration_eq, iterations_eq]

/-- The advertised count is that of a whole run as long as it fits a word. -/
theorem memoryOperandCount_eq (w : Workload) (n : Nat) :
    (w.program n).memoryOperandCount = w.accessesPerIteration * n % 2 ^ 64 := by
  rw [← Program.sum_memoryOperandCount, Program.sum_operandsPerIteration, operandsPerIteration_eq,
    iterations_eq]

theorem fits_cache (w : Workload) (n : Nat) : blockAreaBase +
    CodeCache.rooms Host.plainCode (w.program n).translated ≤ sharedCodeBase := by
  rw [Program.translated_of_single (w.blocks_eq n)]
  split
  · decide
  · cases w <;> decide

/-- The instructions of a workload decide how its run ends. -/
theorem exists_run (w : Workload) (hh : h.Spaced) (hidle : client.Idle)
    (hlimit : w.block.instructions.length ≤ h.stepLimit)
    (hprepare : h.prepare id (w.program n) = .ok thread)
    (hok : executeAll (w.program n).executed thread.guest = .ok () g) (world : ω) :
    ∃ run world', h.runThread client id (w.program n) world = .ok run world' ∧
      run.thread.guest = g := by
  have hlengths : ∀ b ∈ (w.program n).translated, b.instructions.length ≤ h.stepLimit := by
    intro b hb
    obtain rfl := w.eq_block_of_mem (Program.mem_of_mem_translated hb)
    exact hlimit
  cases hrun : h.runThread client id (w.program n) world with
  | error e world' =>
    obtain ⟨_, _, _, hfails⟩ :=
      Host.runThread_plain_error hh hidle (w.fits_cache n) hlengths hprepare hrun
    rw [hok] at hfails
    contradiction
  | ok run world' =>
    obtain ⟨thread', hprepare', hexecuted, _⟩ :=
      Host.runThread_plain_ok hh hidle (w.fits_cache n) hrun
    obtain rfl := Except.ok.inj (hprepare.symm.trans hprepare')
    rw [hok] at hexecuted
    injection hexecuted with _ hguest
    exact ⟨run, world', rfl, hguest.symm⟩

end Workload

namespace Sample

open Workload (copy dataBase)

/-- A host with no shared code and no limit on memory. -/
def fresh : Host Unit (List Handle) :=
  .create true none Cpu.defaultStepLimit

end Sample

end AccessTrace
