import AccessTrace.Proofs.Text.Digits
import Mathlib.Data.List.Induction

/-!
# Numerals

What a text of a number looks like, said without reading it: digits, at least one, and nothing else.
Exactly the numerals are read as numbers, and exactly those with a value below 2 ^ 64 as words, but
for a plus sign, which may stand before the digits of a word. The pieces of a text are what its
separators split it into.
-/

namespace AccessTrace.Text

/-! ## Digits -/

/-- The digits in the order of their values, in lower case. -/
def lowerDigits : List Char :=
  "0123456789abcdef".toList

/-- The digits in the order of their values, in upper case. -/
def upperDigits : List Char :=
  "0123456789ABCDEF".toList

/-- The character is a digit of a base, with the value `d`. -/
def IsDigit (radix : Nat) (c : Char) (d : Nat) : Prop :=
  d < radix ∧ (lowerDigits[d]? = some c ∨ upperDigits[d]? = some c)

variable {radix n d : Nat} {text : List Char} {c : Char} {w : Word}

/-- All characters with values come before `g`. -/
theorem toNat_lt_of_digitValue (h : digitValue c = some d) : c.toNat < 103 := by
  refine Nat.not_le.1 fun hlarge => ?_
  have hbehind (a b : Char) (hb : b.toNat < 103) : ¬ (a ≤ c ∧ c ≤ b) := by
    rintro ⟨_, hle⟩
    have hnat : c.toNat ≤ b.toNat := UInt32.le_iff_toNat_le.1 hle
    omega
  unfold digitValue at h
  rw [if_neg (hbehind _ _ (by decide)), if_neg (hbehind _ _ (by decide)),
    if_neg (hbehind _ _ (by decide))] at h
  contradiction

theorem digitValue_eq_some_iff :
    digitValue c = some d ↔ lowerDigits[d]? = some c ∨ upperDigits[d]? = some c := by
  constructor
  · have hlisted : ∀ n < 103, ∀ d ∈ digitValue (Char.ofNat n),
        lowerDigits[d]? = some (Char.ofNat n) ∨ upperDigits[d]? = some (Char.ofNat n) := by
      decide +kernel
    intro h
    have hc := hlisted c.toNat (toNat_lt_of_digitValue h) d
    rw [Char.ofNat_toNat] at hc
    exact hc h
  · have hlower : ∀ d < 16, lowerDigits[d]?.bind digitValue = some d := by decide +kernel
    have hupper : ∀ d < 16, upperDigits[d]?.bind digitValue = some d := by decide +kernel
    rintro (h | h)
    · have hvalue := hlower d (List.getElem?_eq_some_iff.1 h).1
      rwa [h, Option.bind_some] at hvalue
    · have hvalue := hupper d (List.getElem?_eq_some_iff.1 h).1
      rwa [h, Option.bind_some] at hvalue

theorem digit?_eq_some_iff : digit? radix c = some d ↔ IsDigit radix c d := by
  unfold digit? IsDigit
  rw [Option.filter_eq_some_iff, digitValue_eq_some_iff, decide_eq_true_eq, and_comm]

/-! ## Numbers -/

/-- The text stands for the number in a base: one digit, or one digit more behind a numeral. -/
inductive Numeral (radix : Nat) : List Char → Nat → Prop where
  | digit {c : Char} {d : Nat} (h : IsDigit radix c d) : Numeral radix [c] d
  | concat {text : List Char} {n d : Nat} {c : Char} (htext : Numeral radix text n)
    (h : IsDigit radix c d) : Numeral radix (text ++ [c]) (n * radix + d)

theorem Numeral.ne_nil (h : Numeral radix text n) : text ≠ [] := by
  cases h with
  | digit => exact List.cons_ne_nil _ _
  | concat => simp

theorem Numeral.isDigit_of_mem (h : Numeral radix text n) (hc : c ∈ text) :
    ∃ d, IsDigit radix c d := by
  induction h with
  | digit h =>
    obtain rfl := List.mem_singleton.1 hc
    exact ⟨_, h⟩
  | concat _ h ih =>
    rcases List.mem_append.1 hc with hc | hc
    · exact ih hc
    · obtain rfl := List.mem_singleton.1 hc
      exact ⟨_, h⟩

theorem readNat?_singleton (radix : Nat) (c : Char) : readNat? radix [c] = digit? radix c := by
  unfold readNat?
  rw [if_neg (by simp), List.mapM_cons, List.mapM_nil]
  cases digit? radix c with
  | none => rfl
  | some d =>
    change some (0 * radix + d) = some d
    rw [Nat.zero_mul, Nat.zero_add]

/-- The last digit counts once, and all before it as often as the base says. -/
theorem readNat?_concat (htext : text ≠ []) (c : Char) : readNat? radix (text ++ [c]) =
    (readNat? radix text).bind fun n => (digit? radix c).map fun d => n * radix + d := by
  unfold readNat?
  rw [if_neg (by simp), if_neg (by simpa using htext), List.mapM_append, List.mapM_cons,
    List.mapM_nil]
  cases text.mapM (digit? radix) with
  | none => rfl
  | some digits =>
    cases digit? radix c with
    | none => rfl
    | some d =>
      change some (ofDigits radix (digits ++ [d])) = some (ofDigits radix digits * radix + d)
      unfold ofDigits
      rw [List.foldl_append]
      rfl

/-- The numerals are what is read as a number. -/
theorem readNat?_eq_some_iff : readNat? radix text = some n ↔ Numeral radix text n := by
  constructor
  · intro h
    induction text using List.reverseRecOn generalizing n with
    | nil => contradiction
    | append_singleton text c ih =>
      by_cases hempty : text = []
      · rw [hempty, List.nil_append, readNat?_singleton] at h
        rw [hempty]
        exact .digit (digit?_eq_some_iff.1 h)
      · rw [readNat?_concat hempty] at h
        obtain ⟨m, hm, h⟩ := Option.bind_eq_some_iff.1 h
        obtain ⟨d, hd, rfl⟩ := Option.map_eq_some_iff.1 h
        exact .concat (ih hm) (digit?_eq_some_iff.1 hd)
  · intro h
    induction h with
    | digit h => rw [readNat?_singleton, digit?_eq_some_iff.2 h]
    | concat htext h ih =>
      rw [readNat?_concat htext.ne_nil, ih, digit?_eq_some_iff.2 h]
      rfl

/-! ## Words -/

/-- A numeral of a word, so of a number below 2 ^ 64. -/
def IsWord (radix : Nat) (text : List Char) (w : Word) : Prop :=
  Numeral radix text w.toNat

/-- A numeral of a word, or a plus sign and a numeral of a word. -/
def IsSignedWord (radix : Nat) (text : List Char) (w : Word) : Prop :=
  IsWord radix text w ∨ ∃ digits, text = '+' :: digits ∧ IsWord radix digits w

theorem IsWord.not_separator (h : IsWord radix text w) (hc : c ∈ text) :
    c ≠ '+' ∧ c ≠ ',' ∧ c ≠ '\n' ∧ isBlank c = false := by
  obtain ⟨d, hdigit⟩ := h.isDigit_of_mem hc
  exact not_separator_of_digit (digit?_eq_some_iff.2 hdigit)

theorem IsSignedWord.no_comma (h : IsSignedWord radix text w) : ',' ∉ text := by
  rcases h with h | ⟨digits, rfl, h⟩
  · exact fun hc => (h.not_separator hc).2.1 rfl
  · intro hc
    rcases List.mem_cons.1 hc with heq | hc
    · contradiction
    · exact (h.not_separator hc).2.1 rfl

/-- Without a plus sign there is only the numeral. -/
theorem isSignedWord_iff (htext : '+' ∉ text) :
    IsSignedWord radix text w ↔ IsWord radix text w := by
  refine ⟨?_, Or.inl⟩
  rintro (h | ⟨digits, rfl, _⟩)
  · exact h
  · exact absurd List.mem_cons_self htext

theorem readWord?_eq_some_iff_dropPlus :
    readWord? radix text = some w ↔ IsWord radix (dropPlus text) w := by
  unfold readWord? IsWord
  rw [Option.bind_eq_bind, Option.bind_eq_some_iff]
  constructor
  · rintro ⟨n, hn, hw⟩
    obtain ⟨hsize, hw⟩ := Option.ite_none_right_eq_some.1 hw
    rw [← Option.some.inj hw, UInt64.toNat_ofNat_of_lt' hsize]
    exact readNat?_eq_some_iff.1 hn
  · intro h
    refine ⟨w.toNat, readNat?_eq_some_iff.2 h, ?_⟩
    rw [if_pos w.toNat_lt, UInt64.ofNat_toNat]

/-- The numerals of words, with a plus sign or without, are what is read as a word. -/
theorem readWord?_eq_some_iff : readWord? radix text = some w ↔ IsSignedWord radix text w := by
  rw [readWord?_eq_some_iff_dropPlus]
  by_cases hplus : ∃ digits, text = '+' :: digits
  · obtain ⟨digits, rfl⟩ := hplus
    refine ⟨fun h => Or.inr ⟨digits, rfl, h⟩, ?_⟩
    rintro (h | ⟨digits', heq, h⟩)
    · exact absurd rfl (h.not_separator List.mem_cons_self).1
    · rw [heq]
      exact h
  · have hdrop : dropPlus text = text := by
      unfold dropPlus
      split
      · exact absurd ⟨_, rfl⟩ hplus
      · rfl
    rw [hdrop]
    refine ⟨Or.inl, ?_⟩
    rintro (h | ⟨digits, rfl, _⟩)
    · exact h
    · exact absurd ⟨digits, rfl⟩ hplus

/-! ## Pieces -/

theorem pieces_eq_splitOn {α : Type} [DecidableEq α] (separator : α) (xs : List α) :
    pieces separator xs = xs.splitOn separator := by
  have hsame (pieces : List (List α)) : pieces.modifyHead (fun piece => piece) = pieces := by
    cases pieces <;> rfl
  suffices hs : ∀ piece, piecesOnto separator [] piece xs =
      (xs.splitOn separator).modifyHead (piece.reverse ++ ·) from (hs []).trans (hsame _)
  induction xs with
  | nil => simp [piecesOnto]
  | cons x rest ih =>
    intro piece
    rw [piecesOnto, List.splitOn_cons_eq_if_modifyHead]
    by_cases h : x = separator
    · rw [if_pos h, if_pos (beq_iff_eq.2 h), piecesOnto_eq, ih]
      simp [hsame]
    · rw [if_neg h, if_neg (by simpa using h), ih]
      simp [Function.comp_def]

end AccessTrace.Text
