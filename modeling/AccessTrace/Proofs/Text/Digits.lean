import AccessTrace.Text.Blank
import AccessTrace.Text.Digits
import Mathlib.Algebra.GroupWithZero.Nat

/-!
# Numbers read back from their text

`Spells` relates a text of digits to the number that it stands for, as one digit after the other is
put behind it. The hexadecimal text of a word and the decimal text of any number spell it, and a
word is read back from any text that spells it. No digit is a blank or a separator.
-/

namespace AccessTrace.Text

/-- The text stands for the number, in digits of a base. -/
inductive Spells (radix : Nat) : List Char → Nat → Prop where
  | nil : Spells radix [] 0
  | concat {text : List Char} {n d : Nat} {c : Char} (htext : Spells radix text n)
    (hdigit : digit? radix c = some d) : Spells radix (text ++ [c]) (n * radix + d)

variable {radix n : Nat} {text : List Char} {c : Char}

namespace Spells

theorem digit_of_mem (h : Spells radix text n) (hc : c ∈ text) : ∃ d, digit? radix c = some d := by
  induction h with
  | nil => contradiction
  | concat _ hdigit ih =>
    rcases List.mem_append.1 hc with hc | hc
    · exact ih hc
    · obtain rfl := List.mem_singleton.1 hc
      exact ⟨_, hdigit⟩

/-- The digits are those of the number. -/
theorem mapM_digit (h : Spells radix text n) :
    ∃ digits, text.mapM (digit? radix) = some digits ∧ ofDigits radix digits = n := by
  induction h with
  | nil => exact ⟨[], rfl, rfl⟩
  | @concat text n d c _ hdigit ih =>
    obtain ⟨digits, hdigits, hvalue⟩ := ih
    refine ⟨digits ++ [d], ?_, ?_⟩
    · rw [List.mapM_append, hdigits, List.mapM_cons, List.mapM_nil, hdigit]
      rfl
    · unfold ofDigits at hvalue ⊢
      rw [List.foldl_append, hvalue]
      rfl

end Spells

/-- What a digit is not. -/
theorem not_separator_of_digit {d : Nat} (h : digit? radix c = some d) :
    c ≠ '+' ∧ c ≠ ',' ∧ c ≠ '\n' ∧ isBlank c = false := by
  have hvalue : digitValue c ≠ none := by
    intro hnone
    unfold digit? at h
    rw [hnone] at h
    contradiction
  refine ⟨?_, ?_, ?_, ?_⟩
  · rintro rfl
    exact hvalue rfl
  · rintro rfl
    exact hvalue rfl
  · rintro rfl
    exact hvalue rfl
  · have hrange : (48 ≤ c.toNat ∧ c.toNat ≤ 57) ∨ (97 ≤ c.toNat ∧ c.toNat ≤ 102) ∨
        (65 ≤ c.toNat ∧ c.toNat ≤ 70) := by
      have hle {a b : Char} (hab : a ≤ b) : a.toNat ≤ b.toNat := UInt32.le_iff_toNat_le.1 hab
      unfold digitValue at hvalue
      split at hvalue
      · rename_i hdecimal
        exact Or.inl ⟨hle hdecimal.1, hle hdecimal.2⟩
      · split at hvalue
        · rename_i hlower
          exact Or.inr (Or.inl ⟨hle hlower.1, hle hlower.2⟩)
        · split at hvalue
          · rename_i hupper
            exact Or.inr (Or.inr ⟨hle hupper.1, hle hupper.2⟩)
          · exact absurd rfl hvalue
    have hblank : ∀ range ∈ blankRanges, range.2 < 48 ∨ 102 < range.1 := by decide
    refine List.any_eq_false.2 fun range hmem hin => ?_
    have hapart := hblank range hmem
    simp only [Bool.and_eq_true, decide_eq_true_eq] at hin
    omega

/-- A word is read back from a text that spells it. -/
theorem Spells.readWord? {w : Word} (h : Spells radix text w.toNat) (htext : text ≠ []) :
    readWord? radix text = some w := by
  have hplus : dropPlus text = text := by
    cases text with
    | nil => rfl
    | cons c rest =>
      obtain ⟨d, hdigit⟩ := h.digit_of_mem List.mem_cons_self
      unfold dropPlus
      split
      · rename_i heq
        obtain ⟨rfl, _⟩ := List.cons.inj heq
        exact absurd rfl (not_separator_of_digit hdigit).1
      · rfl
  obtain ⟨digits, hdigits, hvalue⟩ := h.mapM_digit
  have hread : readNat? radix text = some w.toNat := by
    unfold readNat?
    rw [if_neg (by simpa using htext), hdigits, Option.map_some, hvalue]
  unfold Text.readWord?
  rw [hplus, hread, Option.bind_eq_bind, Option.bind_some, if_pos w.toNat_lt, UInt64.ofNat_toNat]

/-! ## Hexadecimal -/

theorem digit?_hexDigit : ∀ n < 16, digit? 16 (hexDigit n) = some n := by
  decide

theorem spells_hexFixed (width n : Nat) : Spells 16 (hexFixed width n) (n % 16 ^ width) := by
  induction width generalizing n with
  | zero =>
    rw [Nat.pow_zero, Nat.mod_one]
    exact .nil
  | succ width ih =>
    have hlast := digit?_hexDigit (n % 16) (Nat.mod_lt _ (by decide))
    have hvalue : n % 16 ^ (width + 1) = n / 16 % 16 ^ width * 16 + n % 16 := by
      rw [Nat.pow_succ, Nat.mul_comm, Nat.mod_mul, Nat.mul_comm, Nat.add_comm]
    rw [hvalue]
    exact (ih (n / 16)).concat hlast

/-! ## Decimal -/

theorem digit?_digitChar : ∀ n < 10, digit? 10 n.digitChar = some n := by
  decide

theorem spells_toDigits (n : Nat) : Spells 10 (Nat.toDigits 10 n) n := by
  induction n using Nat.strongRecOn with
  | ind n ih =>
    rw [Nat.toDigits_eq_if (by decide)]
    split
    · rename_i hsmall
      have hone := Spells.nil.concat (digit?_digitChar n hsmall)
      rwa [List.nil_append, Nat.zero_mul, Nat.zero_add] at hone
    · have hmany := (ih (n / 10) (by omega)).concat
        (digit?_digitChar (n % 10) (Nat.mod_lt _ (by decide)))
      rwa [Nat.div_add_mod'] at hmany

end AccessTrace.Text
