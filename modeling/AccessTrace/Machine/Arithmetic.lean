import AccessTrace.Machine.Guest

/-!
Addition and subtraction at a width of whole bytes, and the flags that they leave.
-/

namespace AccessTrace

/-- A word whose lowest `bits` bits are set. -/
def lowMask (bits : Nat) : Word :=
  if bits < 64 then (1 <<< UInt64.ofNat bits) - 1 else 0xffffffffffffffff

/-- The two operations that set the arithmetic flags. -/
inductive ArithmeticOp where
  | add
  | subtract
deriving DecidableEq, Repr

/-- Combines the low `width` bytes of two words. The carry flag tells that an addition went past
the width, or that a subtraction borrowed. -/
def ArithmeticOp.apply (op : ArithmeticOp) (a b : Word) (width : Nat) : Word × ArithmeticFlags :=
  let bits := min (8 * width) 64
  let mask := lowMask bits
  let a := a &&& mask
  let b := b &&& mask
  let (result, carry) := match op with
    | .add => let sum := (a + b) &&& mask; (sum, decide (sum < a))
    | .subtract => ((a - b) &&& mask, decide (a < b))
  let sign := (result >>> UInt64.ofNat (bits - 1)) &&& 1 != 0
  (result, ⟨result == 0, sign, carry⟩)

end AccessTrace
