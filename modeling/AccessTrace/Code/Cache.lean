import AccessTrace.Code.Listing

/-!
Translated code by address. A fragment takes sixteen addresses for each node, so every node has
an address of its own; a fragment without nodes still has that of its entry.
-/

namespace AccessTrace

/-- The distance between the addresses of two neighbouring nodes. -/
def nodeStride : Nat := 16

/-- Where translated blocks are placed. -/
def blockAreaBase : Nat := 0x500000000000

/-- Blocks start at multiples of this from the start of their area. -/
def blockSpan : Nat := 0x100000

structure Fragment where
  base : Nat
  nodes : Array Node

namespace Fragment

def addressOf (f : Fragment) (index : Nat) : Nat :=
  f.base + index * nodeStride

/-- How many addresses the fragment takes. -/
def span (f : Fragment) : Nat :=
  max f.nodes.size 1 * nodeStride

/-- The last of the first `count` nodes that marks `l`. -/
def lastMark? (nodes : Array Node) (l : Label) : (count : Nat) → Option Nat
  | 0 => none
  | count + 1 =>
    if (nodes[count]?.map (·.marks l)).getD false then some count else lastMark? nodes l count

/-- Where a label stands; of several places the last one counts. -/
def labelIndex (f : Fragment) (l : Label) : Except MachineError Nat :=
  match lastMark? f.nodes l f.nodes.size with
  | some index => .ok index
  | none => .error (.unknownLabel l)

end Fragment

/-- The code of one thread: its translated blocks and the shared code that it can reach. -/
structure CodeCache where
  /-- Sorted by falling base; no two have the same base. -/
  fragments : List Fragment
  /-- The entry of the newest translated code of each block. -/
  entries : List (Word × Nat)
  nextBase : Nat

namespace CodeCache

def empty : CodeCache := ⟨[], [], blockAreaBase⟩

/-- Puts a fragment into its place; one with the same base gives way. -/
def insertSorted (f : Fragment) : List Fragment → List Fragment
  | [] => [f]
  | g :: rest =>
    if f.base < g.base then g :: insertSorted f rest
    else if f.base = g.base then f :: rest
    else f :: g :: rest

/-- Adds a fragment that has an address already. -/
def insertShared (c : CodeCache) (f : Fragment) : CodeCache :=
  { c with fragments := insertSorted f c.fragments }

/-- Places the translated nodes of block `tag` and gives their entry. -/
def insertBlock (c : CodeCache) (tag : Word) (nodes : List Node) : Nat × CodeCache :=
  let f : Fragment := ⟨c.nextBase, nodes.toArray⟩
  (c.nextBase,
    { fragments := insertSorted f c.fragments
      entries := (tag, c.nextBase) :: c.entries.filter (·.1 != tag)
      nextBase := c.nextBase + (f.span + (blockSpan - 1)) / blockSpan * blockSpan })

def entry? (c : CodeCache) (tag : Word) : Option Nat :=
  c.entries.lookup tag

/-- The fragment that holds an address, and the index of the node there. -/
def lookup (c : CodeCache) (address : Nat) : Option (Fragment × Nat) := do
  let f ← c.fragments.find? (·.base ≤ address)
  let offset := address - f.base
  if offset % nodeStride = 0 ∧ offset < f.span then some (f, offset / nodeStride) else none

/-- How many blocks have been translated. -/
def blockCount (c : CodeCache) : Nat :=
  c.entries.length

end CodeCache

end AccessTrace
