/-!
Blank characters are those with the Unicode property White_Space. `trim` removes them from both
ends of a text.
-/

namespace AccessTrace.Text

/-- The code point ranges of the property White_Space, ends included. -/
def blankRanges : List (Nat × Nat) :=
  [(0x09, 0x0d), (0x20, 0x20), (0x85, 0x85), (0xa0, 0xa0), (0x1680, 0x1680), (0x2000, 0x200a),
   (0x2028, 0x2029), (0x202f, 0x202f), (0x205f, 0x205f), (0x3000, 0x3000)]

def isBlank (c : Char) : Bool :=
  blankRanges.any fun range => range.1 ≤ c.toNat && c.toNat ≤ range.2

/-- Removes blank characters from both ends. -/
def trim (text : List Char) : List Char :=
  ((text.dropWhile isBlank).reverse.dropWhile isBlank).reverse

variable {α : Type} [DecidableEq α]

/-- The pieces of a list between the separators, behind the pieces `done` and the start `piece` of
the next one, both of which are kept in reverse. -/
def piecesOnto (separator : α) (done : List (List α)) (piece : List α) : List α → List (List α)
  | [] => (piece.reverse :: done).reverse
  | x :: rest =>
    if x = separator then piecesOnto separator (piece.reverse :: done) [] rest
    else piecesOnto separator done (x :: piece) rest

/-- The pieces of a list between the separators; there is always one more piece than separators. -/
def pieces (separator : α) (xs : List α) : List (List α) :=
  piecesOnto separator [] [] xs

theorem piecesOnto_eq (separator : α) (done : List (List α)) (piece xs : List α) :
    piecesOnto separator done piece xs = done.reverse ++ piecesOnto separator [] piece xs := by
  induction xs generalizing done piece with
  | nil => simp [piecesOnto]
  | cons x rest ih =>
    by_cases h : x = separator
    · rw [piecesOnto, piecesOnto, if_pos h, if_pos h, ih, ih [piece.reverse]]
      simp
    · rw [piecesOnto, piecesOnto, if_neg h, if_neg h, ih]

/-- A list without a separator is one piece. -/
theorem pieces_of_notMem (separator : α) (xs : List α) (h : separator ∉ xs) :
    pieces separator xs = [xs] := by
  suffices hs : ∀ piece, piecesOnto separator [] piece xs = [piece.reverse ++ xs] by
    simpa [pieces] using hs []
  induction xs with
  | nil => simp [piecesOnto]
  | cons x rest ih =>
    intro piece
    rw [List.mem_cons, not_or] at h
    rw [piecesOnto, if_neg (Ne.symm h.1), ih h.2]
    simp

/-- The piece before the first separator, and the pieces behind it. -/
theorem pieces_append (separator : α) (xs ys : List α) (h : separator ∉ xs) :
    pieces separator (xs ++ separator :: ys) = xs :: pieces separator ys := by
  suffices hs : ∀ piece, piecesOnto separator [] piece (xs ++ separator :: ys) =
      (piece.reverse ++ xs) :: pieces separator ys by
    simpa [pieces] using hs []
  induction xs with
  | nil =>
    intro piece
    rw [List.nil_append, piecesOnto, if_pos rfl, piecesOnto_eq]
    simp [pieces]
  | cons x rest ih =>
    intro piece
    rw [List.mem_cons, not_or] at h
    rw [List.cons_append, piecesOnto, if_neg (Ne.symm h.1), ih h.2]
    simp

example : ∀ n ≤ 0x7f, (Char.ofNat n).isWhitespace → isBlank (Char.ofNat n) := by decide

example : pieces ',' ['a', ',', ',', 'b'] = [['a'], [], ['b']] := by decide

end AccessTrace.Text
