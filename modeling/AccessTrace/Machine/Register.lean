/-!
The sixteen general-purpose registers, the classes of registers that a reservation may ask for,
and sets of registers.
-/

namespace AccessTrace

inductive Register where
  | rax | rcx | rdx | rbx | rsp | rbp | rsi | rdi
  | r8 | r9 | r10 | r11 | r12 | r13 | r14 | r15
deriving DecidableEq, Repr

namespace Register

/-- All registers in the order of their numbers. -/
def all : List Register :=
  [rax, rcx, rdx, rbx, rsp, rbp, rsi, rdi, r8, r9, r10, r11, r12, r13, r14, r15]

/-- The number of a register. -/
def index : Register → Fin 16
  | rax => 0 | rcx => 1 | rdx => 2 | rbx => 3 | rsp => 4 | rbp => 5 | rsi => 6 | rdi => 7
  | r8 => 8 | r9 => 9 | r10 => 10 | r11 => 11 | r12 => 12 | r13 => 13 | r14 => 14 | r15 => 15

def ofIndex? (n : Nat) : Option Register :=
  all[n]?

def name : Register → String
  | rax => "rax" | rcx => "rcx" | rdx => "rdx" | rbx => "rbx"
  | rsp => "rsp" | rbp => "rbp" | rsi => "rsi" | rdi => "rdi"
  | r8 => "r8" | r9 => "r9" | r10 => "r10" | r11 => "r11"
  | r12 => "r12" | r13 => "r13" | r14 => "r14" | r15 => "r15"

def ofName? (name : String) : Option Register :=
  all.find? fun r => r.name == name

theorem ofIndex?_index (r : Register) : ofIndex? r.index = some r := by
  cases r <;> rfl

theorem index_of_ofIndex? {n : Nat} {r : Register} (h : ofIndex? n = some r) : r.index.val = n := by
  have hn : ∀ m < 16, (ofIndex? m).map (·.index.val) = some m := by decide
  have hm := hn n (List.getElem?_eq_some_iff.1 h).1
  rw [h] at hm
  exact Option.some.inj hm

theorem index_inj {r s : Register} (h : r.index = s.index) : r = s := by
  have hr := ofIndex?_index r
  rw [h, ofIndex?_index] at hr
  exact (Option.some.inj hr).symm

end Register

/-- What a reservation asks of a register. -/
inductive RegisterClass where
  /-- Any register except the stack pointer. -/
  | any
  /-- The counter register, which a jump on zero tests. -/
  | counter
deriving DecidableEq, Repr

namespace RegisterClass

def admits : RegisterClass → Register → Bool
  | any, r => r != .rsp
  | counter, r => r == .rcx

def name : RegisterClass → String
  | any => "Any"
  | counter => "Counter"

end RegisterClass

/-- A set of registers, one bit for each. -/
structure RegisterSet where
  bits : BitVec 16
deriving DecidableEq, Repr

namespace RegisterSet

def empty : RegisterSet := ⟨0⟩

def full : RegisterSet := ⟨BitVec.allOnes 16⟩

def contains (s : RegisterSet) (r : Register) : Bool :=
  s.bits.getLsbD r.index

def insert (s : RegisterSet) (r : Register) : RegisterSet :=
  ⟨s.bits ||| BitVec.twoPow 16 r.index⟩

def erase (s : RegisterSet) (r : Register) : RegisterSet :=
  ⟨s.bits &&& ~~~BitVec.twoPow 16 r.index⟩

def ofList (rs : List Register) : RegisterSet :=
  rs.foldl insert empty

/-- The members in the order of their numbers. -/
def toList (s : RegisterSet) : List Register :=
  Register.all.filter s.contains

def size (s : RegisterSet) : Nat :=
  s.toList.length

def isEmpty (s : RegisterSet) : Bool :=
  s.bits == 0

theorem contains_insert (s : RegisterSet) (r t : Register) :
    (s.insert r).contains t = (s.contains t || r == t) := by
  simp only [contains, insert, BitVec.getLsbD_or, BitVec.getLsbD_twoPow]
  by_cases h : r = t
  · simp [h]
  · have hi : (r.index : Nat) ≠ t.index := fun e => h (Register.index_inj (Fin.ext e))
    simp [h, hi]

theorem contains_erase (s : RegisterSet) (r t : Register) :
    (s.erase r).contains t = (s.contains t && r != t) := by
  simp only [contains, erase, BitVec.getLsbD_and, BitVec.getLsbD_not, BitVec.getLsbD_twoPow]
  by_cases h : r = t
  · simp [h]
  · have hi : (r.index : Nat) ≠ t.index := fun e => h (Register.index_inj (Fin.ext e))
    simp [h, hi]

end RegisterSet

end AccessTrace
