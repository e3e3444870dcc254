import BlackHV.BoundedFifo
import BlackHV.Circular
import BlackHV.Fault
import BlackHV.Runs

/-! # The byte queue

`queue.c`: a ring buffer of `bufferSize` bytes with a `front` and a `rear` index and
a flag `isFull` that tells a full queue from an empty one, whose indices are equal
too.  A `size_t` is a `Nat`: the only arithmetic is `index + 1` on an index below
`bufferSize`, which does not wrap.

Each of `queue_write` and `queue_read` is a guard, which the source evaluates
before it takes the mutex, and a body, which it runs inside.  They are separate
definitions here because threads interleave between them; a call that nothing
interrupts is the one followed by the other.
-/
namespace BlackHV

/-- `queue_t`, without its mutex.  The block `buffer` has `bufferSize` bytes. -/
structure Queue where
  bufferSize : Nat
  front : Nat
  rear : Nat
  isFull : UInt8
  buffer : List UInt8
  sized : buffer.length = bufferSize
  deriving DecidableEq

/-- `queue_new`.  `queueBlock` tells whether the first `malloc` succeeds, and
`bufferBlock` is the answer of the second: `NULL`, or a block of `bufferSize`
bytes with whatever contents. -/
def queueNew (bufferSize : Nat) (queueBlock : Bool)
    (bufferBlock : Option (Vector UInt8 bufferSize)) : Option Queue :=
  if queueBlock then
    bufferBlock.map fun block =>
      { bufferSize, front := 0, rear := 0, isFull := 0,
        buffer := block.toList, sized := block.length_toList }
  else
    none

namespace Queue

/-- `queue->buffer[index] = b`. -/
def store (q : Queue) (index : Nat) (b : UInt8) : Except Fault Queue :=
  if index < q.buffer.length then
    .ok { q with
      buffer := q.buffer.set index b
      sized := by rw [List.length_set, q.sized] }
  else
    .error .outOfBounds

/-- A store inside the block changes the block alone. -/
theorem store_ok (q : Queue) {index : Nat} (h : index < q.buffer.length) (b : UInt8) :
    ∃ q', q.store index b = .ok q' ∧ q'.buffer = q.buffer.set index b ∧ q'.front = q.front ∧
      q'.rear = q.rear ∧ q'.isFull = q.isFull :=
  ⟨_, if_pos h, rfl, rfl, rfl, rfl⟩

theorem store_bufferSize {q q' : Queue} {index : Nat} {b : UInt8} (h : q.store index b = .ok q') :
    q'.bufferSize = q.bufferSize := by
  unfold store at h
  split at h
  · cases h
    rfl
  · cases h

/-- `queue->buffer[index]`. -/
def load (q : Queue) (index : Nat) : Except Fault UInt8 :=
  match q.buffer[index]? with
  | some b => .ok b
  | none => .error .outOfBounds

/-- `(index + 1) % queue->buffer_size`. -/
def next (q : Queue) (index : Nat) : Except Fault Nat :=
  if q.bufferSize = 0 then .error .remainderByZero else .ok ((index + 1) % q.bufferSize)

/-- The do-while loop of `queue_write` on the bytes it has not stored yet, and how
many it stores. -/
def writeLoop (q : Queue) : List UInt8 → Except Fault (Queue × Nat)
  | [] => .error .outOfBounds
  | b :: rest => do
      let q ← q.store q.rear b
      let rear ← q.next q.rear
      let q := { q with rear }
      if q.front ≠ q.rear ∧ rest ≠ [] then
        let (q, i) ← writeLoop q rest
        .ok (q, i + 1)
      else
        .ok (q, 1)

/-- The do-while loop of `queue_read` with room for `left` more bytes, and the
bytes it stores into the caller's buffer. -/
def readLoop (q : Queue) : Nat → Except Fault (Queue × List UInt8)
  | 0 => .error .outOfBounds
  | left + 1 => do
      let b ← q.load q.front
      let front ← q.next q.front
      let q := { q with front }
      if q.front ≠ q.rear ∧ left ≠ 0 then
        let (q, bytes) ← readLoop q left
        .ok (q, b :: bytes)
      else
        .ok (q, [b])

end Queue

open Queue

/-- The guard of `queue_write`: whether a call for `size` bytes goes on to its body. -/
def queueWriteGuard (q : Queue) (size : Nat) : Bool := !(size == 0 || q.isFull == 1)

/-- The body of `queue_write`, under the mutex. -/
def queueWriteBody (q : Queue) (buffer : List UInt8) : Except Fault (Queue × Nat) := do
  let (q, i) ← writeLoop q buffer
  .ok (if q.front = q.rear then { q with isFull := 1 } else q, i)

/-- `queue_write(queue, buffer, size)` with `size` the length of `buffer`. -/
def queueWrite (q : Queue) (buffer : List UInt8) : Except Fault (Queue × Nat) :=
  if queueWriteGuard q buffer.length then queueWriteBody q buffer else .ok (q, 0)

/-- The guard of `queue_read`: whether a call for `size` bytes goes on to its body. -/
def queueReadGuard (q : Queue) (size : Nat) : Bool :=
  !(size == 0 || (q.isFull == 0 && q.front == q.rear))

/-- The body of `queue_read`, under the mutex. -/
def queueReadBody (q : Queue) (size : Nat) : Except Fault (Queue × List UInt8) := do
  let (q, bytes) ← readLoop q size
  .ok (if bytes.length ≠ 0 then { q with isFull := 0 } else q, bytes)

/-- `queue_read(queue, buffer, size)`: the bytes it stores into `buffer`, whose
number it returns. -/
def queueRead (q : Queue) (size : Nat) : Except Fault (Queue × List UInt8) :=
  if queueReadGuard q size then queueReadBody q size else .ok (q, [])

/-- `queue_empty`. -/
def queueEmpty (q : Queue) : UInt32 := if q.isFull ≠ 1 ∧ q.front = q.rear then 1 else 0

/-! ## What a queue holds -/

namespace Queue

/-- The number of bytes in the queue, as its fields tell it. -/
def length (q : Queue) : Nat :=
  if q.isFull = 1 then q.bufferSize else (q.rear + q.bufferSize - q.front) % q.bufferSize

/-- The bytes in the queue, oldest first, as its fields tell them. -/
def contents (q : Queue) : List UInt8 := Circular.window q.buffer q.front q.length

/-- The queue is a circular buffer of `items`, and its flag says whether it is full. -/
structure Represents (q : Queue) (items : List UInt8) : Prop where
  holds : Circular.Holds q.buffer q.front q.rear items
  flag : q.isFull = if items.length = q.bufferSize then 1 else 0

variable {q q' : Queue} {items : List UInt8}

namespace Represents

theorem size_pos (h : q.Represents items) : 0 < q.bufferSize := q.sized ▸ h.holds.length_pos

theorem fits (h : q.Represents items) : items.length ≤ q.bufferSize := q.sized ▸ h.holds.fits

theorem full_iff (h : q.Represents items) : q.isFull = 1 ↔ items.length = q.bufferSize := by
  rw [h.flag]
  split <;> simp [*]

theorem not_full_iff (h : q.Represents items) : q.isFull = 0 ↔ items.length < q.bufferSize := by
  have := h.fits
  rw [h.flag]
  split <;> simp <;> omega

/-- Equal indices and a cleared flag: the queue is empty. -/
theorem empty_iff (h : q.Represents items) : q.isFull = 0 ∧ q.front = q.rear ↔ items = [] := by
  have hpos := h.size_pos
  rw [h.not_full_iff, h.holds.front_eq_rear_iff, q.sized]
  constructor
  · rintro ⟨hlt, rfl | he⟩
    · rfl
    · omega
  · rintro rfl
    exact ⟨hpos, Or.inl rfl⟩

theorem length_eq (h : q.Represents items) : q.length = items.length := by
  unfold Queue.length
  split
  · exact (h.full_iff.mp ‹_›).symm
  · rename_i hn
    have hlt : items.length < q.buffer.length := by
      have := h.fits
      have := mt h.full_iff.mpr hn
      rw [q.sized]
      omega
    rw [h.holds.length_of_not_full hlt, q.sized]

/-- The fields determine the items. -/
theorem contents_eq (h : q.Represents items) : q.contents = items := by
  unfold contents
  rw [h.length_eq]
  exact h.holds.window_eq

end Represents

/-- A queue has at most `bufferSize` bytes, whatever its fields say. -/
theorem contents_length_le (q : Queue) : q.contents.length ≤ q.bufferSize :=
  q.sized ▸ Circular.length_window_le _ _ _

/-- `queue_new` makes an empty queue. -/
theorem represents_of_new {n : Nat} {queueBlock : Bool} {block : Option (Vector UInt8 n)}
    (hn : 1 ≤ n) (h : queueNew n queueBlock block = some q) :
    q.bufferSize = n ∧ q.Represents [] := by
  unfold queueNew at h
  split at h
  · obtain ⟨b, -, rfl⟩ := Option.map_eq_some_iff.mp h
    refine ⟨rfl, Circular.holds_nil (by simp only [Vector.length_toList]; omega), ?_⟩
    rw [if_neg (by simp; omega)]
  · cases h

end Queue

end BlackHV
