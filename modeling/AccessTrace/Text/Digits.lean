/-!
Numbers as text. `hexFixed` writes a fixed count of hexadecimal digits, `hex` as many as the
number needs, and `readWord?` reads a word back: an optional plus sign, at least one digit, and
a value that fits into 64 bits.
-/

namespace AccessTrace

/-- A machine word; all arithmetic on it wraps. -/
abbrev Word := UInt64

namespace Text

/-- The lower-case hexadecimal digit of a number below sixteen. -/
def hexDigit (n : Nat) : Char :=
  if n < 10 then Char.ofNat (48 + n) else Char.ofNat (87 + n)

/-- The lowest `width` hexadecimal digits of `n`, leading zeros included. -/
def hexFixed : Nat → Nat → List Char
  | 0, _ => []
  | width + 1, n => hexFixed width (n / 16) ++ [hexDigit (n % 16)]

/-- How many hexadecimal digits `n` needs; zero needs one. -/
def hexWidth (n : Nat) : Nat :=
  n.log2 / 4 + 1

/-- `n` in hexadecimal after `0x`, without leading zeros. -/
def hex (n : Nat) : String :=
  "0x" ++ String.ofList (hexFixed (hexWidth n) n)

/-- A word as `0x` and sixteen digits. -/
def hexPadded (w : Word) : String :=
  "0x" ++ String.ofList (hexFixed 16 w.toNat)

/-- The value of a digit; letters of either case count from ten. -/
def digitValue (c : Char) : Option Nat :=
  if '0' ≤ c ∧ c ≤ '9' then some (c.toNat - 48)
  else if 'a' ≤ c ∧ c ≤ 'f' then some (c.toNat - 87)
  else if 'A' ≤ c ∧ c ≤ 'F' then some (c.toNat - 55)
  else none

/-- The value of `c` as a digit in base `radix`. -/
def digit? (radix : Nat) (c : Char) : Option Nat :=
  (digitValue c).filter (· < radix)

/-- The number that a list of digits spells, most significant digit first. -/
def ofDigits (radix : Nat) (digits : List Nat) : Nat :=
  digits.foldl (fun n d => n * radix + d) 0

/-- Drops one leading plus sign. -/
def dropPlus : List Char → List Char
  | '+' :: rest => rest
  | text => text

/-- Reads the digits of a number, of which there has to be at least one. -/
def readNat? (radix : Nat) (text : List Char) : Option Nat :=
  if text.isEmpty then none else (text.mapM (digit? radix)).map (ofDigits radix)

/-- Reads a word: an optional plus sign and digits with a value below 2 ^ 64. -/
def readWord? (radix : Nat) (text : List Char) : Option Word := do
  let n ← readNat? radix (dropPlus text)
  if n < UInt64.size then some (UInt64.ofNat n) else none

end Text
end AccessTrace
