/-!
Sparse storage for bytes. `Cells` covers `2 ^ depth` bytes and spends one node on each run of
equal bytes that fills a subtree, so storage of any size is cheap until it is written to.
-/

namespace AccessTrace

/-- Bytes by position: all positions alike, or two halves. -/
inductive Cells where
  | const (byte : UInt8)
  | node (low high : Cells)
deriving DecidableEq

namespace Cells

def low : Cells → Cells
  | const byte => const byte
  | node low _ => low

def high : Cells → Cells
  | const byte => const byte
  | node _ high => high

/-- The byte at position `i`, of which the lowest `depth` bits count. -/
def get : (depth : Nat) → Cells → (i : Nat) → UInt8
  | _, const byte, _ => byte
  | 0, node _ _, _ => 0
  | depth + 1, node low high, i => if i.testBit depth then get depth high i else get depth low i

/-- Sets the byte at position `j`, of which the lowest `depth` bits count. -/
def set : (depth : Nat) → Cells → (j : Nat) → UInt8 → Cells
  | 0, _, _, byte => const byte
  | depth + 1, cells, j, byte =>
    if j.testBit depth then node cells.low (set depth cells.high j byte)
    else node (set depth cells.low j byte) cells.high

/-- Sets the positions from `start` up to `stop`, `stop` not included, to `byte`. -/
def fill : (depth : Nat) → Cells → (start stop : Nat) → UInt8 → Cells
  | 0, cells, start, stop, byte => if start = 0 ∧ 0 < stop then const byte else cells
  | depth + 1, cells, start, stop, byte =>
    let half := 1 <<< depth
    if stop ≤ start ∨ half + half ≤ start then cells
    else if start = 0 ∧ half + half ≤ stop then const byte
    else
      node (fill depth cells.low start stop byte)
        (fill depth cells.high (start - half) (stop - half) byte)

end Cells

/-- `size` bytes of storage. -/
structure Storage where
  size : Nat
  cells : Cells

namespace Storage

/-- Enough halvings for every position. -/
def depth (s : Storage) : Nat :=
  s.size.log2 + 1

def zeroed (size : Nat) : Storage :=
  ⟨size, .const 0⟩

def get (s : Storage) (i : Nat) : UInt8 :=
  s.cells.get s.depth i

def set (s : Storage) (i : Nat) (byte : UInt8) : Storage :=
  { s with cells := s.cells.set s.depth i byte }

def fill (s : Storage) (start length : Nat) (byte : UInt8) : Storage :=
  { s with cells := s.cells.fill s.depth start (start + length) byte }

/-- The `length` bytes from `start` on. -/
def read (s : Storage) (start length : Nat) : List UInt8 :=
  (List.range length).map fun i => s.get (start + i)

/-- Puts `bytes` at `start` and after. -/
def write (s : Storage) (start : Nat) : List UInt8 → Storage
  | [] => s
  | byte :: rest => write (s.set start byte) (start + 1) rest

@[simp] theorem size_set (s : Storage) (i : Nat) (byte : UInt8) : (s.set i byte).size = s.size :=
  rfl

@[simp] theorem size_fill (s : Storage) (start length : Nat) (byte : UInt8) :
    (s.fill start length byte).size = s.size := rfl

@[simp] theorem size_write (s : Storage) (start : Nat) (bytes : List UInt8) :
    (s.write start bytes).size = s.size := by
  induction bytes generalizing s start with
  | nil => rfl
  | cons byte rest ih => rw [write, ih, size_set]

end Storage

end AccessTrace
