import Mathlib.Data.Int.ModEq
import AccessTrace.Proofs.Machine.Footprint
import AccessTrace.Proofs.Record.Trace

/-!
# Exact arithmetic

Sums and differences are computed on masked words, and the carry is told from the wrapped result.
`ArithmeticOp.Exact` says in numbers without a bound what the result and the flags should be. Every
width of whole bytes up to a full word has them so, with one argument for all widths: a mask is a
remainder by a power of two, and that power divides the size of a word. The flags of a comparison
are those of the difference, so a `setz` behind it tells whether the operands are equal at the
width.
-/

namespace AccessTrace

/-! ## Masks -/

theorem toNat_lowMask {bits : Nat} (h : bits ≤ 64) : (lowMask bits).toNat = 2 ^ bits - 1 := by
  unfold lowMask
  split
  · rename_i hlt
    have hpow : 2 ^ bits < 2 ^ 64 := Nat.pow_lt_pow_right (by decide) hlt
    have hbits : (UInt64.ofNat bits).toNat % 64 = bits := by
      rw [UInt64.toNat_ofNat_of_lt' (Nat.lt_trans hlt (by decide)), Nat.mod_eq_of_lt hlt]
    have hshift : ((1 : Word) <<< UInt64.ofNat bits).toNat = 2 ^ bits := by
      rw [UInt64.toNat_shiftLeft, hbits, UInt64.toNat_one, Nat.one_shiftLeft,
        Nat.mod_eq_of_lt hpow]
    have hone : (1 : Word) ≤ 1 <<< UInt64.ofNat bits := by
      rw [UInt64.le_iff_toNat_le, hshift]
      exact Nat.one_le_two_pow
    rw [UInt64.toNat_sub_of_le _ _ hone, hshift, UInt64.toNat_one]
  · obtain rfl : bits = 64 := by omega
    rfl

/-- A mask leaves the remainder by a power of two. -/
theorem toNat_and_lowMask {bits : Nat} (h : bits ≤ 64) (a : Word) :
    (a &&& lowMask bits).toNat = a.toNat % 2 ^ bits := by
  rw [UInt64.toNat_and, toNat_lowMask h, Nat.and_two_pow_sub_one_eq_mod]

/-- The lowest bit after a shift. -/
theorem shiftRight_and_one {bits : Nat} (h : bits < 64) (a : Word) :
    ((a >>> UInt64.ofNat bits) &&& 1 != 0) = a.toNat.testBit bits := by
  have hbits : (UInt64.ofNat bits).toNat % 64 = bits := by
    rw [UInt64.toNat_ofNat_of_lt' (Nat.lt_trans h (by decide)), Nat.mod_eq_of_lt h]
  rw [Nat.testBit, Bool.eq_iff_iff, bne_iff_ne, bne_iff_ne, ne_eq, ne_eq, ← UInt64.toNat_inj,
    UInt64.toNat_and, UInt64.toNat_shiftRight, hbits, UInt64.toNat_one, Nat.and_comm]
  rfl

namespace ArithmeticOp

/-- What an operation comes to in numbers without a bound. -/
def unbounded : ArithmeticOp → Nat → Nat → Int
  | add, x, y => x + y
  | subtract, x, y => x - y

/-- Whether an addition reaches a bound, or a subtraction has to borrow. -/
def Carries : ArithmeticOp → (bound x y : Nat) → Prop
  | add, bound, x, y => bound ≤ x + y
  | subtract, _, x, y => x < y

/-- The result and the flags are exact for the lowest `bits` bits of two words. -/
structure Exact (op : ArithmeticOp) (bits : Nat) (a b : Word) (answer : Word × ArithmeticFlags) :
    Prop where
  result : (answer.1.toNat : Int) =
    op.unbounded (a.toNat % 2 ^ bits) (b.toNat % 2 ^ bits) % (2 ^ bits : Nat)
  carry : answer.2.carry = true ↔
    op.Carries (2 ^ bits) (a.toNat % 2 ^ bits) (b.toNat % 2 ^ bits)
  zero : answer.2.zero = true ↔ answer.1 = 0
  sign : answer.2.sign = answer.1.toNat.testBit (bits - 1)

variable {bits : Nat}

/-- A wrapped sum is below its first operand exactly if it went past the bound. -/
theorem add_mod_lt_iff {bound x y : Nat} (hx : x < bound) (hy : y < bound) :
    (x + y) % bound < x ↔ bound ≤ x + y := by
  by_cases h : bound ≤ x + y
  · have hsum : (x + y) % bound = x + y - bound := by
      rw [Nat.mod_eq_sub_mod h, Nat.mod_eq_of_lt (by omega)]
    omega
  · have hsum : (x + y) % bound = x + y := Nat.mod_eq_of_lt (Nat.lt_of_not_le h)
    omega

theorem toNat_add_and_lowMask (hbits : bits ≤ 64) (x y : Word) :
    ((x + y) &&& lowMask bits).toNat = (x.toNat + y.toNat) % 2 ^ bits := by
  rw [toNat_and_lowMask hbits, UInt64.toNat_add, Nat.mod_mod_of_dvd _ (Nat.pow_dvd_pow 2 hbits)]

/-- A difference that was wrapped at the size of a word is right at each smaller power of two. -/
theorem toNat_sub_and_lowMask (hbits : bits ≤ 64) (x y : Word) :
    (((x - y) &&& lowMask bits).toNat : Int) = ((x.toNat : Int) - y.toNat) % (2 ^ bits : Nat) := by
  obtain ⟨k, hk⟩ := Nat.pow_dvd_pow 2 hbits
  have hwrapped : ((2 ^ 64 - y.toNat + x.toNat : Nat) : Int) =
      (x.toNat : Int) - y.toNat + (2 ^ bits : Nat) * (k : Nat) := by
    have hy := y.toNat_lt
    rw [← Int.natCast_mul, ← hk]
    omega
  rw [toNat_and_lowMask hbits, UInt64.toNat_sub, Nat.mod_mod_of_dvd _ (Nat.pow_dvd_pow 2 hbits),
    Int.natCast_emod, hwrapped, Int.add_mul_emod_self_left]

theorem apply_exact (op : ArithmeticOp) (a b : Word) {width : Nat} (hpos : 0 < width)
    (hle : width ≤ 8) : op.Exact (8 * width) a b (op.apply a b width) := by
  have hbits : 8 * width ≤ 64 := by omega
  have hx := toNat_and_lowMask hbits a
  have hy := toNat_and_lowMask hbits b
  have hsign := shiftRight_and_one (show 8 * width - 1 < 64 by omega)
  dsimp only [apply]
  rw [Nat.min_eq_left hbits]
  generalize a &&& lowMask (8 * width) = x at hx ⊢
  generalize b &&& lowMask (8 * width) = y at hy ⊢
  cases op with
  | add =>
    have hsum := toNat_add_and_lowMask hbits x y
    have hlt (w : Word) : w.toNat % 2 ^ (8 * width) < 2 ^ (8 * width) :=
      Nat.mod_lt _ (Nat.two_pow_pos _)
    refine ⟨?_, ?_, beq_iff_eq, hsign _⟩
    · rw [← hx, ← hy, hsum]
      rfl
    · rw [decide_eq_true_iff, UInt64.lt_iff_toNat_lt, hsum, hx, hy]
      exact add_mod_lt_iff (hlt a) (hlt b)
  | subtract =>
    refine ⟨?_, ?_, beq_iff_eq, hsign _⟩
    · rw [← hx, ← hy, toNat_sub_and_lowMask hbits x y]
      rfl
    · rw [decide_eq_true_iff, UInt64.lt_iff_toNat_lt, hx, hy]
      rfl

/-- Nothing is left of a difference exactly if both operands are the same at the width. -/
theorem Exact.zero_iff {a b : Word} {answer : Word × ArithmeticFlags}
    (h : subtract.Exact bits a b answer) :
    answer.2.zero = true ↔ a.toNat % 2 ^ bits = b.toNat % 2 ^ bits := by
  have ha : a.toNat % 2 ^ bits < 2 ^ bits := Nat.mod_lt _ (Nat.two_pow_pos _)
  have hb : b.toNat % 2 ^ bits < 2 ^ bits := Nat.mod_lt _ (Nat.two_pow_pos _)
  have hresult := h.result
  rw [unbounded] at hresult
  rw [h.zero, ← UInt64.toNat_inj, UInt64.toNat_zero, ← Int.natCast_inj, hresult]
  rw [Int.natCast_zero, ← Int.dvd_iff_emod_eq_zero, ← Int.modEq_iff_dvd, Int.natCast_modEq_iff]
  rw [Nat.ModEq, Nat.mod_eq_of_lt ha, Nat.mod_eq_of_lt hb]
  exact eq_comm

end ArithmeticOp

/-! ## Instructions -/

namespace Opcode

/-- The operation whose flags an opcode leaves. -/
def arithmetic? : Opcode → Option ArithmeticOp
  | add => some .add
  | sub | cmp | cmps => some .subtract
  | _ => none

end Opcode

namespace Instruction

variable {i j : Instruction} {g g' : Guest} {u v : Word} {first second : Operand}

/-- The width of an operation in bytes. A comparison of strings works on elements. -/
def operationWidth (i : Instruction) : Nat :=
  match i.opcode, i.sources[0]? with
  | .cmps, some first => elementSize first
  | _, _ => i.arithmeticWidth

/-- The first two sources can be read, and these are their values. -/
def Reads (i : Instruction) (g : Guest) (u v : Word) : Prop :=
  ∃ first second, i.sources[0]? = some first ∧ i.sources[1]? = some second ∧
    first.value g = .ok u g ∧ second.value g = .ok v g

theorem operandAt_of_some {ops : List Operand} {n : Nat} {op : Operand} (h : ops[n]? = some op)
    (what : String) : operandAt ops n what g = .ok op g := by
  rw [operandAt, h]
  rfl

theorem operandAt_eq_ok {ops : List Operand} {n : Nat} {what : String} {op : Operand}
    (h : operandAt ops n what g = .ok op g') : ops[n]? = some op ∧ g' = g := by
  unfold operandAt at h
  cases hfound : ops[n]? with
  | none =>
    rw [hfound] at h
    contradiction
  | some found =>
    rw [hfound] at h
    injection h with hop hg
    exact ⟨congrArg some hop, hg.symm⟩

/-- Reads the first two sources and goes on from their values. -/
def combine (i : Instruction) (what what' : String) (next : Operand → Word → Word → GuestM Unit) :
    GuestM Unit := do
  let first ← operandAt i.sources 0 what
  let u ← first.value
  let v ← (← operandAt i.sources 1 what').value
  next first u v

/-- Writes a result, if it is kept, and then the flags. -/
def finish (i : Instruction) (keepsResult : Bool) (answer : Word × ArithmeticFlags) :
    GuestM Unit := do
  if keepsResult then
    (← operandAt i.destinations 0 "arith").assign answer.1
  Guest.setFlags answer.2

theorem executeArithmetic_eq (i : Instruction) (op : ArithmeticOp) (keepsResult : Bool) :
    i.executeArithmetic op keepsResult = i.combine "arith" "arith" fun _ u v =>
      i.finish keepsResult (op.apply u v i.arithmeticWidth) := rfl

/-- Sets the flags of a comparison of elements, and moves both pointers on. -/
def finishCmps (first : Operand) (u v : Word) : GuestM Unit := do
  Guest.setFlags (ArithmeticOp.subtract.apply u v (elementSize first)).2
  advance .rsi (elementSize first)
  advance .rdi (elementSize first)

theorem executeCmps_eq (i : Instruction) :
    i.executeCmps = i.combine "string op" "cmps" finishCmps := rfl

variable {what what' : String} {next : Operand → Word → Word → GuestM Unit}

theorem combine_of_reads (h : i.Reads g u v) :
    ∃ first, i.sources[0]? = some first ∧ i.combine what what' next g = next first u v g := by
  obtain ⟨first, second, hfirst, hsecond, hu, hv⟩ := h
  refine ⟨first, hfirst, ?_⟩
  exact (Step.bind_of_ok (operandAt_of_some hfirst what)).trans <| (Step.bind_of_ok hu).trans <|
    (Step.bind_of_ok (operandAt_of_some hsecond what')).trans (Step.bind_of_ok hv)

theorem combine_eq_ok (h : i.combine what what' next g = .ok () g') :
    ∃ first u v, i.sources[0]? = some first ∧ i.Reads g u v ∧ next first u v g = .ok () g' := by
  obtain ⟨first, _, hop, hvalue⟩ := Step.bind_eq_ok h
  obtain ⟨hfirst, rfl⟩ := operandAt_eq_ok hop
  obtain ⟨u, _, hu, hrest⟩ := Step.bind_eq_ok hvalue
  obtain rfl := Operand.state_of_value hu
  obtain ⟨second, _, hop', hvalue'⟩ := Step.bind_eq_ok hrest
  obtain ⟨hsecond, rfl⟩ := operandAt_eq_ok hop'
  obtain ⟨v, _, hv, hnext⟩ := Step.bind_eq_ok hvalue'
  obtain rfl := Operand.state_of_value hv
  exact ⟨first, u, v, hfirst, ⟨first, second, hfirst, hsecond, hu, hv⟩, hnext⟩

/-- The flags are written last, and a register that is the destination has the result. -/
theorem finish_ok {keepsResult : Bool} {answer : Word × ArithmeticFlags}
    (h : i.finish keepsResult answer g = .ok () g') :
    g'.machine.flags = answer.2 ∧ (keepsResult = true →
      ∀ r, i.destinations[0]? = some (.register r) → g'.machine.get r = answer.1) := by
  cases keepsResult with
  | true =>
    obtain ⟨dst, _, hop, hrest⟩ := Step.bind_eq_ok h
    obtain ⟨hdst, rfl⟩ := operandAt_eq_ok hop
    obtain ⟨_, _, hassign, hflags⟩ := Step.bind_eq_ok hrest
    injection hflags with _ hg
    subst hg
    refine ⟨rfl, fun _ r hr => ?_⟩
    obtain rfl := Option.some.inj (hdst.symm.trans hr)
    injection hassign with _ hg
    subst hg
    exact (MachineState.get_set _ r r _).trans (if_pos rfl)
  | false =>
    injection h with _ hg
    subst hg
    exact ⟨rfl, fun hkeeps => nomatch hkeeps⟩

theorem operationWidth_of_ne (h : i.opcode ≠ .cmps) : i.operationWidth = i.arithmeticWidth := by
  unfold operationWidth
  split
  · contradiction
  · rfl

theorem operationWidth_of_cmps (h : i.opcode = .cmps) (hfirst : i.sources[0]? = some first) :
    i.operationWidth = elementSize first := by
  rw [operationWidth, h, hfirst]

theorem executeArithmetic_ok {op : ArithmeticOp} {keepsResult : Bool} (hi : i.opcode ≠ .cmps)
    (h : i.executeArithmetic op keepsResult g = .ok () g') :
    ∃ u v, i.Reads g u v ∧ g'.machine.flags = (op.apply u v i.operationWidth).2 ∧
      (keepsResult = true → ∀ r, i.destinations[0]? = some (.register r) →
        g'.machine.get r = (op.apply u v i.operationWidth).1) := by
  rw [executeArithmetic_eq] at h
  obtain ⟨_, u, v, _, hreads, hfinish⟩ := combine_eq_ok h
  rw [operationWidth_of_ne hi]
  exact ⟨u, v, hreads, finish_ok hfinish⟩

/-- What an instruction of arithmetic that succeeds has read, and what it leaves. -/
theorem arithmetic_ok {op : ArithmeticOp} (hop : i.opcode.arithmetic? = some op)
    (h : i.execute g = .ok () g') :
    ∃ u v, i.Reads g u v ∧ g'.machine.flags = (op.apply u v i.operationWidth).2 ∧
      (i.opcode = .add ∨ i.opcode = .sub → ∀ r, i.destinations[0]? = some (.register r) →
        g'.machine.get r = (op.apply u v i.operationWidth).1) := by
  unfold execute at h
  cases hi : i.opcode with
  | add =>
    rw [hi] at h hop
    obtain rfl := Option.some.inj hop
    obtain ⟨u, v, hreads, hflags, hresult⟩ := executeArithmetic_ok (by rw [hi]; decide) h
    exact ⟨u, v, hreads, hflags, fun _ => hresult rfl⟩
  | sub =>
    rw [hi] at h hop
    obtain rfl := Option.some.inj hop
    obtain ⟨u, v, hreads, hflags, hresult⟩ := executeArithmetic_ok (by rw [hi]; decide) h
    exact ⟨u, v, hreads, hflags, fun _ => hresult rfl⟩
  | cmp =>
    rw [hi] at h hop
    obtain rfl := Option.some.inj hop
    obtain ⟨u, v, hreads, hflags, _⟩ := executeArithmetic_ok (by rw [hi]; decide) h
    exact ⟨u, v, hreads, hflags, fun hkept => by simp at hkept⟩
  | cmps =>
    rw [hi] at h hop
    obtain rfl := Option.some.inj hop
    rw [executeCmps_eq] at h
    obtain ⟨first, u, v, hfirst, hreads, hfinish⟩ := combine_eq_ok h
    injection hfinish with _ hg
    subst hg
    rw [operationWidth_of_cmps hi hfirst]
    exact ⟨u, v, hreads, rfl, fun hkept => by simp at hkept⟩
  | _ =>
    rw [hi] at hop
    contradiction

/-- A comparison succeeds if its operands can be read, and leaves the flags of their difference. -/
theorem compare_of_reads (hi : i.opcode = .cmp ∨ i.opcode = .cmps) (h : i.Reads g u v) :
    ∃ g', i.execute g = .ok () g' ∧
      g'.machine.flags = (ArithmeticOp.subtract.apply u v i.operationWidth).2 := by
  unfold execute
  rcases hi with hi | hi
  · obtain ⟨first, _, hcombine⟩ := combine_of_reads h
    rw [hi, operationWidth_of_ne (by rw [hi]; decide)]
    exact ⟨_, hcombine, rfl⟩
  · obtain ⟨first, hfirst, hcombine⟩ := combine_of_reads h
    rw [hi, operationWidth_of_cmps hi hfirst]
    exact ⟨_, hcombine, rfl⟩

theorem executeSetz_apply {r : Register} (hdst : j.destinations[0]? = some (.register r))
    (g : Guest) : j.executeSetz g = .ok ()
      { g with machine := g.machine.set r (if g.machine.flags.zero then 1 else 0) } := by
  have hop := operandAt_of_some (g := g) hdst "setz"
  unfold executeSetz
  rw [Step.bind_of_ok (Step.get_apply g), Step.bind_of_ok hop]
  rfl

/-- A `setz` behind a comparison tells whether the operands are equal at the width. -/
theorem setz_of_compared {r : Register} {width : Nat} (hpos : 0 < width) (hle : width ≤ 8)
    (hi : i.opcode = .cmp ∨ i.opcode = .cmps) (hwidth : i.operationWidth = width)
    (hj : j.opcode = .setz) (hdst : j.destinations[0]? = some (.register r))
    (hreads : i.Reads g u v) :
    ∃ g', executeAll [i, j] g = .ok () g' ∧ g'.machine.get r =
      if u.toNat % 2 ^ (8 * width) = v.toNat % 2 ^ (8 * width) then 1 else 0 := by
  obtain ⟨compared, hcompare, hflags⟩ := compare_of_reads hi hreads
  have hsetz : j.execute compared = j.executeSetz compared := by
    unfold execute
    rw [hj]
  have hrun : executeAll [i, j] g = .ok () { compared with
      machine := compared.machine.set r (if compared.machine.flags.zero then 1 else 0) } :=
    (Step.bind_of_ok hcompare).trans
      (Step.bind_of_ok (hsetz.trans (executeSetz_apply hdst compared)))
  have hzero := (ArithmeticOp.subtract.apply_exact u v hpos hle).zero_iff
  refine ⟨_, hrun, ?_⟩
  rw [MachineState.get_set, if_pos rfl, hflags, hwidth]
  exact if_congr hzero rfl rfl

/-- At each width of whole bytes up to a full word, sums and differences are exact, with exact
flags; these are the flags that additions, subtractions and comparisons leave for the operands that
they read; and a register that is set by the zero flag of a comparison is 1 exactly if the operands
are equal at the width. -/
theorem arithmetic_exact {width : Nat} (hpos : 0 < width) (hle : width ≤ 8) :
    (∀ (op : ArithmeticOp) (a b : Word), op.Exact (8 * width) a b (op.apply a b width)) ∧
    (∀ (i : Instruction) (op : ArithmeticOp) (g g' : Guest), i.opcode.arithmetic? = some op →
      i.operationWidth = width → i.execute g = .ok () g' →
      ∃ u v, i.Reads g u v ∧ g'.machine.flags = (op.apply u v width).2 ∧
        (i.opcode = .add ∨ i.opcode = .sub → ∀ r, i.destinations[0]? = some (.register r) →
          g'.machine.get r = (op.apply u v width).1)) ∧
    ∀ (i j : Instruction) (r : Register) (g : Guest) (u v : Word),
      i.opcode = .cmp ∨ i.opcode = .cmps → i.operationWidth = width → j.opcode = .setz →
      j.destinations[0]? = some (.register r) → i.Reads g u v →
      ∃ g', executeAll [i, j] g = .ok () g' ∧ g'.machine.get r =
        if u.toNat % 2 ^ (8 * width) = v.toNat % 2 ^ (8 * width) then 1 else 0 := by
  refine ⟨fun op a b => op.apply_exact a b hpos hle, fun i op g g' hop hwidth h => ?_,
    fun i j r g u v hi hwidth hj hdst hreads =>
      setz_of_compared hpos hle hi hwidth hj hdst hreads⟩
  rw [← hwidth]
  exact arithmetic_ok hop h

end Instruction

namespace Sample

/-- A register and two bytes of memory that agree in their lowest 16 bits only. -/
def halfEqual : Guest :=
  ⟨MachineState.initial.set .rax 0x10005,
    { AddressSpace.empty with
      regions := [⟨0x10000000, 16, .readWrite, .owned ((Storage.zeroed 16).write 0 [5])⟩]
      ownedBytes := 16 }⟩

def compareHalves : Instruction :=
  .cmp 0x400000 (.register .rax) (.memory (.absolute 0x10000000 .b2))

theorem halves_compared :
    compareHalves.operationWidth = 2 ∧ compareHalves.Reads halfEqual 0x10005 5 ∧
      ∃ g', Instruction.executeAll [compareHalves, .setz 0x400004 .rdx] halfEqual = .ok () g' ∧
        g'.machine.get .rdx = 1 := by
  have hreads : compareHalves.Reads halfEqual 0x10005 5 := ⟨_, _, rfl, rfl, rfl, rfl⟩
  obtain ⟨_, _, hsets⟩ := @Instruction.arithmetic_exact 2 (by decide) (by decide)
  exact ⟨rfl, hreads, hsets compareHalves (.setz 0x400004 .rdx) .rdx halfEqual 0x10005 5
    (Or.inl rfl) rfl rfl rfl hreads⟩

end Sample

end AccessTrace
