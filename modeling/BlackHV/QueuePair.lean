import BlackHV.QueueCalls

/-! # One writer and one reader

One thread calls `queue_write` and one calls `queue_read` on the same queue, as the
host and the guest do on each of the two queues of a serial device.  Every single
read or write of `is_full`, `front`, `rear` or a byte of the buffer is a step of its
own, and so are taking and releasing the mutex; the steps of the two threads
alternate in any order.  The mutex keeps the bodies apart, but not the guards: the
guard of `queue_read` reads up to three fields while a body of `queue_write` may be
between any two of its own steps, and the other way round.

The program counters below follow the source expression by expression.  C leaves
the order of the two reads of `front == rear` open; in the guard of `queue_read`,
where it could matter, both orders are allowed.
-/
namespace BlackHV

/-- The two threads. -/
inductive Side where
  | writer
  | reader
  deriving DecidableEq

/-- The next access of a body of `queue_write`, with what its last reads returned. -/
inductive WriterAt where
  | loadRear
  | store (rear : Nat)
  | reloadRear
  | advance (rear : Nat)
  | testFront
  | testRear (front : Nat)
  | fullFront
  | fullRear (front : Nat)
  | setFull
  | unlock

/-- Where the writer is.  In the body, `i` bytes of `buffer` are in the queue. -/
inductive WriterPc where
  | idle
  | guard (buffer : List UInt8)
  | lock (buffer : List UInt8)
  | body (buffer : List UInt8) (i : Nat) (next : WriterAt)

/-- The next access of a body of `queue_read`, with what its last reads returned. -/
inductive ReaderAt where
  | loadFront
  | load (front : Nat)
  | reloadFront (b : UInt8)
  | advance (b : UInt8) (front : Nat)
  | testFront
  | testRear (front : Nat)
  | clearFull
  | unlock

/-- Where the reader is.  In the guard it has read `is_full`, then one of the
indices; in the body, `bytes` have been taken out of the queue. -/
inductive ReaderPc where
  | idle
  | guardFull (size : Nat)
  | guardFront (size : Nat)
  | guardThenRear (size : Nat) (front : Nat)
  | guardRear (size : Nat)
  | guardThenFront (size : Nat) (rear : Nat)
  | lock (size : Nat)
  | body (size : Nat) (bytes : List UInt8) (next : ReaderAt)

/-- A queue with its mutex, its two threads, the bytes that completed calls of
`queue_write` accepted and completed calls of `queue_read` returned, and for every
cell of the buffer whether a byte was stored there that was not read yet. -/
structure QueuePair where
  queue : Queue
  mutex : Option Side
  writer : WriterPc
  reader : ReaderPc
  accepted : List UInt8
  returned : List UInt8
  unread : Nat → Bool

/-- Who takes the next step.  A thread outside any call makes one, with the given
arguments; `frontFirst` is the order in which the guard of `queue_read` reads the
indices. -/
inductive Turn where
  | writer (buffer : List UInt8)
  | reader (size : Nat) (frontFirst : Bool)

namespace QueuePair

/-- Both threads are outside the queue `q`. -/
def start (q : Queue) : QueuePair :=
  { queue := q, mutex := none, writer := .idle, reader := .idle, accepted := [], returned := [],
    unread := fun _ => false }

/-- The cell `c` is marked as holding an unread byte, or as not holding one. -/
def mark (s : QueuePair) (c : Nat) (u : Bool) : Nat → Bool :=
  fun d => if d = c then u else s.unread d

/-- One access of the body of `queue_write`. -/
def writerBody (s : QueuePair) (buffer : List UInt8) (i : Nat) :
    WriterAt → Except Fault QueuePair
  | .loadRear => .ok { s with writer := .body buffer i (.store s.queue.rear) }
  | .store rear =>
      match buffer[i]? with
      | none => .error .outOfBounds
      | some b => do
          let queue ← s.queue.store rear b
          .ok { s with queue, writer := .body buffer i .reloadRear, unread := s.mark rear true }
  | .reloadRear => .ok { s with writer := .body buffer i (.advance s.queue.rear) }
  | .advance rear => do
      let rear ← s.queue.next rear
      .ok { s with queue := { s.queue with rear }, writer := .body buffer (i + 1) .testFront }
  | .testFront => .ok { s with writer := .body buffer i (.testRear s.queue.front) }
  | .testRear front =>
      if front ≠ s.queue.rear ∧ i < buffer.length then
        .ok { s with writer := .body buffer i .loadRear }
      else
        .ok { s with writer := .body buffer i .fullFront }
  | .fullFront => .ok { s with writer := .body buffer i (.fullRear s.queue.front) }
  | .fullRear front =>
      if front = s.queue.rear then
        .ok { s with writer := .body buffer i .setFull }
      else
        .ok { s with writer := .body buffer i .unlock }
  | .setFull =>
      .ok { s with queue := { s.queue with isFull := 1 }, writer := .body buffer i .unlock }
  | .unlock =>
      .ok { s with mutex := none, writer := .idle, accepted := s.accepted ++ buffer.take i }

/-- One step of the thread that calls `queue_write`. -/
def writerStep (s : QueuePair) (buffer : List UInt8) : Except Fault QueuePair :=
  match s.writer with
  | .idle => .ok { s with writer := if buffer = [] then .idle else .guard buffer }
  | .guard buffer =>
      .ok { s with writer := if s.queue.isFull = 1 then .idle else .lock buffer }
  | .lock buffer =>
      match s.mutex with
      | some _ => .ok s
      | none => .ok { s with mutex := some .writer, writer := .body buffer 0 .loadRear }
  | .body buffer i next => s.writerBody buffer i next

/-- One access of the body of `queue_read`. -/
def readerBody (s : QueuePair) (size : Nat) (bytes : List UInt8) :
    ReaderAt → Except Fault QueuePair
  | .loadFront => .ok { s with reader := .body size bytes (.load s.queue.front) }
  | .load front =>
      if bytes.length < size then do
        let b ← s.queue.load front
        .ok { s with reader := .body size bytes (.reloadFront b), unread := s.mark front false }
      else
        .error .outOfBounds
  | .reloadFront b => .ok { s with reader := .body size bytes (.advance b s.queue.front) }
  | .advance b front => do
      let front ← s.queue.next front
      .ok { s with
        queue := { s.queue with front }
        reader := .body size (bytes ++ [b]) .testFront }
  | .testFront => .ok { s with reader := .body size bytes (.testRear s.queue.front) }
  | .testRear front =>
      if front ≠ s.queue.rear ∧ bytes.length < size then
        .ok { s with reader := .body size bytes .loadFront }
      else if bytes.length ≠ 0 then
        .ok { s with reader := .body size bytes .clearFull }
      else
        .ok { s with reader := .body size bytes .unlock }
  | .clearFull =>
      .ok { s with queue := { s.queue with isFull := 0 }, reader := .body size bytes .unlock }
  | .unlock => .ok { s with mutex := none, reader := .idle, returned := s.returned ++ bytes }

/-- One step of the thread that calls `queue_read`. -/
def readerStep (s : QueuePair) (size : Nat) (frontFirst : Bool) : Except Fault QueuePair :=
  match s.reader with
  | .idle => .ok { s with reader := if size = 0 then .idle else .guardFull size }
  | .guardFull size =>
      if s.queue.isFull = 0 then
        .ok { s with reader := if frontFirst then .guardFront size else .guardRear size }
      else
        .ok { s with reader := .lock size }
  | .guardFront size => .ok { s with reader := .guardThenRear size s.queue.front }
  | .guardThenRear size front =>
      .ok { s with reader := if front = s.queue.rear then .idle else .lock size }
  | .guardRear size => .ok { s with reader := .guardThenFront size s.queue.rear }
  | .guardThenFront size rear =>
      .ok { s with reader := if s.queue.front = rear then .idle else .lock size }
  | .lock size =>
      match s.mutex with
      | some _ => .ok s
      | none => .ok { s with mutex := some .reader, reader := .body size [] .loadFront }
  | .body size bytes next => s.readerBody size bytes next

/-- One step of the pair. -/
def step (s : QueuePair) : Turn → Except Fault QueuePair
  | .writer buffer => s.writerStep buffer
  | .reader size frontFirst => s.readerStep size frontFirst

/-- No body is about to overwrite a byte that was not read or to read a cell
without an unread byte. -/
def CellsRespected (s : QueuePair) : Prop :=
  (∀ buffer i rear, s.writer = .body buffer i (.store rear) → s.unread rear = false) ∧
  (∀ size bytes front, s.reader = .body size bytes (.load front) → s.unread front = true)

/-- What one writer and one reader of a queue of `n` bytes can rely on: the bytes
returned are a prefix of the bytes accepted; outside the bodies the rest of them, at
most `n` bytes, is in the queue; and the bodies respect the cells. -/
structure Safe (n : Nat) (s : QueuePair) : Prop where
  returned_prefix : s.returned <+: s.accepted
  rest : s.mutex = none → s.returned ++ s.queue.contents = s.accepted ∧
    s.queue.contents.length ≤ n
  cells : s.CellsRespected

/-! ## The capacity -/

variable {s s' : QueuePair}

theorem writerBody_bufferSize {buffer : List UInt8} {i : Nat} {next : WriterAt}
    (h : s.writerBody buffer i next = .ok s') : s'.queue.bufferSize = s.queue.bufferSize := by
  cases next with
  | store rear =>
      rw [writerBody] at h
      split at h
      · cases h
      · obtain ⟨q, hq, hs⟩ := bind_eq_ok.mp h
        cases hs
        exact Queue.store_bufferSize hq
  | advance rear =>
      obtain ⟨rear', -, hs⟩ := bind_eq_ok.mp h
      cases hs
      rfl
  | testRear front =>
      rw [writerBody] at h
      split at h <;> (cases h; rfl)
  | fullRear front =>
      rw [writerBody] at h
      split at h <;> (cases h; rfl)
  | _ =>
      cases h
      rfl

theorem readerBody_bufferSize {size : Nat} {bytes : List UInt8} {next : ReaderAt}
    (h : s.readerBody size bytes next = .ok s') : s'.queue.bufferSize = s.queue.bufferSize := by
  cases next with
  | load front =>
      rw [readerBody] at h
      split at h
      · obtain ⟨b, -, hs⟩ := bind_eq_ok.mp h
        cases hs
        rfl
      · cases h
  | advance b front =>
      obtain ⟨front', -, hs⟩ := bind_eq_ok.mp h
      cases hs
      rfl
  | testRear front =>
      rw [readerBody] at h
      split at h
      · cases h
        rfl
      · split at h <;> (cases h; rfl)
  | _ =>
      cases h
      rfl

/-- No step changes the capacity of the queue. -/
theorem step_bufferSize {turn : Turn} (h : s.step turn = .ok s') :
    s'.queue.bufferSize = s.queue.bufferSize := by
  cases turn with
  | writer buffer =>
      rw [step, writerStep] at h
      split at h
      · cases h
        rfl
      · cases h
        rfl
      · split at h <;> (cases h; rfl)
      · exact writerBody_bufferSize h
  | reader size frontFirst =>
      rw [step, readerStep] at h
      split at h
      · cases h
        rfl
      · split at h <;> (cases h; rfl)
      all_goals first
        | exact readerBody_bufferSize h
        | (cases h; rfl)
        | (split at h <;> (cases h; rfl))

end QueuePair

end BlackHV
