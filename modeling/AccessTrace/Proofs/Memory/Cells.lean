import AccessTrace.Memory.Cells
import Mathlib.Algebra.GroupWithZero.Nat

/-!
# What storage holds

A change reaches the positions that it names and nothing else. For cells this holds of positions as
far as their lowest bits count, for storage of those that it has.
-/

namespace AccessTrace

namespace Cells

/-- The position within `2 ^ (depth + 1)` bytes, from that within one half. -/
theorem mod_halves (i depth : Nat) :
    i % 2 ^ (depth + 1) = i % 2 ^ depth + 2 ^ depth * (i.testBit depth).toNat := by
  rw [Nat.mod_pow_succ, Nat.toNat_testBit]

theorem get_eq_halves (depth : Nat) (cells : Cells) (i : Nat) :
    get (depth + 1) cells i =
      if i.testBit depth then get depth cells.high i else get depth cells.low i := by
  cases cells with
  | const byte => cases depth <;> simp [get, low, high]
  | node l h => simp [get, low, high]

theorem get_set (depth : Nat) (cells : Cells) (j i : Nat) (byte : UInt8) :
    get depth (set depth cells j byte) i =
      if i % 2 ^ depth = j % 2 ^ depth then byte else get depth cells i := by
  induction depth generalizing cells with
  | zero => simp [set, get, Nat.mod_one]
  | succ depth ih =>
    have hi := mod_halves i depth
    have hj := mod_halves j depth
    have hil := Nat.mod_lt i (Nat.two_pow_pos depth)
    have hjl := Nat.mod_lt j (Nat.two_pow_pos depth)
    rw [get_eq_halves, get_eq_halves depth cells, hi, hj]
    simp only [set]
    by_cases bi : i.testBit depth <;> by_cases bj : j.testBit depth <;>
      simp only [bi, bj, if_true, low, high, ih, Bool.toNat_true, Bool.toNat_false] <;> grind

theorem get_fill (depth : Nat) (cells : Cells) (start stop i : Nat) (byte : UInt8) :
    get depth (fill depth cells start stop byte) i =
      if start ≤ i % 2 ^ depth ∧ i % 2 ^ depth < stop then byte else get depth cells i := by
  induction depth generalizing cells start stop with
  | zero =>
    simp only [fill, Nat.pow_zero, Nat.mod_one]
    grind [get]
  | succ depth ih =>
    have hi := mod_halves i depth
    have hil := Nat.mod_lt i (Nat.two_pow_pos depth)
    simp only [fill, Nat.one_shiftLeft]
    by_cases bi : i.testBit depth
    all_goals
      simp only [bi, Bool.toNat_true, Bool.toNat_false] at hi
      split
      · rw [if_neg (by omega)]
      · split
        · rw [if_pos (by omega)]
          rfl
        · rw [get_eq_halves, get_eq_halves depth cells]
          simp only [bi, low, high, ih, if_true]
          grind

end Cells

namespace Storage

/-- A position inside the storage keeps all its bits. -/
theorem mod_depth (s : Storage) {i : Nat} (hi : i < s.size) : i % 2 ^ s.depth = i :=
  Nat.mod_eq_of_lt (Nat.lt_trans hi Nat.lt_log2_self)

theorem get_set (s : Storage) (j i : Nat) (byte : UInt8) (hj : j < s.size) (hi : i < s.size) :
    (s.set j byte).get i = if i = j then byte else s.get i := by
  have h := Cells.get_set s.depth s.cells j i byte
  rwa [s.mod_depth hi, s.mod_depth hj] at h

theorem get_fill (s : Storage) (start length i : Nat) (byte : UInt8) (hi : i < s.size) :
    (s.fill start length byte).get i =
      if start ≤ i ∧ i < start + length then byte else s.get i := by
  have h := Cells.get_fill s.depth s.cells start (start + length) i byte
  rwa [s.mod_depth hi] at h

theorem get_write (s : Storage) (start i : Nat) (bytes : List UInt8)
    (hfits : start + bytes.length ≤ s.size) (hi : i < s.size) :
    (s.write start bytes).get i =
      if start ≤ i then (bytes[i - start]?).getD (s.get i) else s.get i := by
  induction bytes generalizing s start with
  | nil => simp [write]
  | cons byte rest ih =>
    rw [List.length_cons] at hfits
    rw [write, ih _ _ (by rw [size_set]; omega) (by rwa [size_set]), get_set _ _ _ _ (by omega) hi]
    by_cases h : start ≤ i
    · by_cases h1 : i = start
      · subst h1
        rw [if_neg (by omega), if_pos rfl, if_pos h, Nat.sub_self]
        rfl
      · have hs : i - start = i - (start + 1) + 1 := by omega
        rw [if_pos (by omega), if_neg h1, if_pos h, hs, List.getElem?_cons_succ]
    · rw [if_neg (by omega), if_neg (by omega), if_neg h]

end Storage

end AccessTrace
