import AccessTrace.Proofs.Record.Queue

/-!
# A bounded first-in-first-out queue

What the owner of a buffer can do with it, in any order, and with anything happening beside it. The
records that were appended since the last drain or reset are the queue that the buffer answers
from: how many there are, whether there is room for more, and which ones a drain gives out.
-/

namespace AccessTrace

/-- What can happen to the memory of a buffer. To ask for the count of the pending records, or
whether the buffer is full, changes nothing and is no action. -/
inductive BufferAction where
  | append (r : Record)
  | drain
  | reset
  /-- An operation on the memory that is not one of the buffer. -/
  | other (op : MemoryOperation)

namespace BufferAction

def perform (b : TraceBuffer) (M : AddressSpace) : BufferAction → AddressSpace
  | append r => Step.final (b.append r) M
  | drain => Step.final b.drain M
  | reset => Step.final b.reset M
  | other op => op.perform M

/-- The memory after some actions. -/
def run (b : TraceBuffer) (actions : List BufferAction) (M : AddressSpace) : AddressSpace :=
  actions.foldl (perform b) M

/-- The queue after an action. -/
def queue (q : List Record) : BufferAction → List Record
  | append r => q ++ [r]
  | drain | reset => []
  | other _ => q

/-- The records that were appended since the last drain or reset. -/
def queued (actions : List BufferAction) : List Record :=
  actions.foldl queue []

/-- Records are appended only while there is room, and what is not an operation of the buffer does
not touch it. -/
def Allowed (b : TraceBuffer) (q : List Record) : BufferAction → Prop
  | append _ => q.length < b.capacity
  | drain | reset => True
  | other op => ¬ op.Touches b.headerAddress BufferHeader.length ∧
      ¬ op.Touches b.base b.storageLength

/-- Every action is allowed where it comes, from the queue `q` on. -/
def AllAllowed (b : TraceBuffer) : (q : List Record) → List BufferAction → Prop
  | _, [] => True
  | q, a :: rest => a.Allowed b q ∧ AllAllowed b (a.queue q) rest

end BufferAction

namespace TraceBuffer

open BufferAction (run queued)

variable {b : TraceBuffer} {q : List Record} {M M' : AddressSpace}

/-- An allowed action is a step on the queue. -/
theorem Queue.perform (h : b.Queue q M) {a : BufferAction} (ha : a.Allowed b q) :
    b.Queue (a.queue q) (a.perform b M) := by
  cases a with
  | append r =>
    obtain ⟨M', happend, hqueue⟩ := h.append ha r
    change b.Queue (q ++ [r]) (Step.final (b.append r) M)
    rwa [Step.final_of_ok happend]
  | drain =>
    change b.Queue [] (Step.final b.drain M)
    by_cases hblocked : q = [] ∧ b.Blocked M
    · obtain ⟨rfl, hblocked⟩ := hblocked
      rwa [Step.final_of_error (h.drain_of_blocked hblocked)]
    · obtain ⟨M', hdrain, hqueue, _⟩ := h.drain fun hempty hb => hblocked ⟨hempty, hb⟩
      rwa [Step.final_of_ok hdrain]
  | reset =>
    obtain ⟨M', hreset, hqueue, _⟩ := h.reset
    change b.Queue [] (Step.final b.reset M)
    rwa [Step.final_of_ok hreset]
  | other op => exact h.other ha.1 ha.2

/-- Any allowed actions are steps on the queue, one after the other. -/
theorem Queue.run (h : b.Queue q M) {actions : List BufferAction}
    (hactions : BufferAction.AllAllowed b q actions) :
    b.Queue (actions.foldl BufferAction.queue q) (run b actions M) := by
  induction actions generalizing q M with
  | nil => exact h
  | cons a rest ih =>
    obtain ⟨ha, hrest⟩ := hactions
    exact ih (h.perform ha) hrest

/-- What a buffer of the memory `M` answers while `q` is queued. -/
structure Answers (b : TraceBuffer) (q : List Record) (M : AddressSpace) : Prop where
  pending : b.pending M = .ok q.length
  isFull : b.isFull M = .ok (decide (q.length = b.capacity))
  /-- Base and negated end are those of the empty buffer, and the cursor stands at a record's place
  in the storage or at its end. -/
  header : ∃ cursor, b.header M = .ok { BufferHeader.forBuffer (UInt64.ofNat b.base) b.capacity with
      cursor } ∧
    b.base ≤ cursor.toNat ∧ cursor.toNat ≤ b.stop ∧ (cursor.toNat - b.base) % Record.length = 0
  append : q.length < b.capacity → ∀ r, ∃ M', b.append r M = .ok () M'
  reset : ∃ M', b.reset M = .ok () M' ∧
    M'.read b.base b.storageLength = .ok (List.replicate b.storageLength 0)
  drain : (q = [] → ¬ b.Blocked M) → ∃ M', b.drain M = .ok q M' ∧
    M'.read b.base b.storageLength = .ok (List.replicate b.storageLength 0)
  blocked : q = [] → b.Blocked M → b.drain M = .error (.machine (.fault b.base 0 .read)) M

theorem Queue.answers (h : b.Queue q M) : b.Answers q M := by
  constructor
  · exact h.pending_eq
  · exact h.isFull_eq
  · have hcursor := h.sited.slot_toNat h.room
    have hslot : b.slot q - b.base = q.length * Record.length := by
      unfold slot
      omega
    refine ⟨UInt64.ofNat (b.slot q), h.header_eq, ?_, ?_, ?_⟩
    · rw [hcursor]
      exact Nat.le_add_right _ _
    · rw [hcursor]
      exact (h.sited.slot_le h.room).1
    · rw [hcursor, hslot, Nat.mul_mod_left]
  · intro hroom r
    obtain ⟨M', happend, _⟩ := h.append hroom r
    exact ⟨M', happend⟩
  · obtain ⟨M', hreset, _, hzeros⟩ := h.reset
    exact ⟨M', hreset, hzeros⟩
  · intro hopen
    obtain ⟨M', hdrain, _, hzeros⟩ := h.drain hopen
    exact ⟨M', hdrain, hzeros⟩
  · rintro rfl hblocked
    exact h.drain_of_blocked hblocked

/-- A buffer answers from the queue of what was appended since the last drain or reset, whatever
has happened to it and beside it. -/
theorem answers_queued {capacity : Nat} (hM : M.Reachable)
    (hallocate : allocate capacity M = .ok b M') (hbound : b.stop < addressBound)
    {actions : List BufferAction} (hactions : BufferAction.AllAllowed b [] actions) :
    b.capacity = capacity ∧ b.Answers (queued actions) (run b actions M') := by
  obtain ⟨hcapacity, hqueue⟩ := allocate_queue hM.wellFormed hallocate hbound
  exact ⟨hcapacity, (hqueue.run hactions).answers⟩

end TraceBuffer

namespace Sample

def queueMemory : AddressSpace :=
  Step.final (TraceBuffer.allocate 2) .empty

def queueBuffer : TraceBuffer := ⟨heapBase, heapBase + 8192, 2⟩

theorem allocate_queueBuffer : TraceBuffer.allocate 2 .empty = .ok queueBuffer queueMemory := rfl

/-- A record that needs all eight bytes of its fields. -/
def record (n : Word) : Record := .of (n == 0) (0 - n) 8 (0x401000 + n)

/-- The buffer is filled and drained, a byte is mapped right behind it and written to, and it is
used once more. -/
def refill : List BufferAction :=
  [.append (record 1), .append (record 2), .drain, .other (.map queueBuffer.stop 1 .readWrite),
    .other (.write queueBuffer.stop [7]), .append (record 3)]

theorem answers_after_refill : queueBuffer.capacity = 2 ∧
    queueBuffer.Answers [record 3] (BufferAction.run queueBuffer refill queueMemory) := by
  have hbehind (base length : Nat) (h : base + length ≤ queueBuffer.stop) :
      ¬ (MemoryOperation.write queueBuffer.stop [7]).Touches base length := by
    rintro ⟨x, ⟨hx, _⟩, _, hx'⟩
    omega
  have hallowed : BufferAction.AllAllowed queueBuffer [] refill :=
    ⟨Nat.zero_lt_two, Nat.one_lt_two, trivial, ⟨id, id⟩,
      ⟨hbehind _ _ (by decide), hbehind _ _ (by decide)⟩, Nat.zero_lt_two, trivial⟩
  exact TraceBuffer.answers_queued (.withLimit ..) allocate_queueBuffer (by decide) hallowed

/-- Bytes that may not be read are mapped right before the storage. -/
def unreadableBefore : List BufferAction :=
  [.other (.map (queueBuffer.base - 16) 16 ⟨false, true, false⟩)]

/-- What does not touch the buffer can make its empty drain fail. -/
theorem drain_beside_unreadable :
    TraceBuffer.allocate 2 .empty = .ok queueBuffer queueMemory ∧
    BufferAction.AllAllowed queueBuffer [] unreadableBefore ∧
    BufferAction.queued unreadableBefore = [] ∧
    queueBuffer.pending (BufferAction.run queueBuffer unreadableBefore queueMemory) = .ok 0 ∧
    queueBuffer.drain (BufferAction.run queueBuffer unreadableBefore queueMemory) =
      .error (.machine (.fault queueBuffer.base 0 .read))
        (BufferAction.run queueBuffer unreadableBefore queueMemory) :=
  ⟨rfl, ⟨⟨id, id⟩, trivial⟩, rfl, rfl, rfl⟩

end Sample

end AccessTrace
