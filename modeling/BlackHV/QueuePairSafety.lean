import BlackHV.QueuePair

/-! # One writer and one reader are safe

The invariant behind `queue_pair_safe`.  The guards are evaluated without the mutex
and their answers can be out of date when the body starts, but only towards the safe
side: while the writer is between its guard and its body nobody but the reader
changes the queue, and the reader only makes room; while the reader is between its
guard and its body only the writer changes it, and the writer only adds bytes.  So
what each guard has seen is stable under the steps of the other thread
(`WriterOk.stable`, `ReaderOk.stable`), and what a body knows is only read while it
has the mutex.
-/
namespace BlackHV

namespace WriterPc

/-- The writer has the mutex. -/
def inBody : WriterPc → Bool
  | .body _ _ _ => true
  | _ => false

/-- The bytes the running body has put into the queue. -/
def given : WriterPc → List UInt8
  | .body buffer i _ => buffer.take i
  | _ => []

/-- The running body has stored a byte that `rear` has not passed yet. -/
def stored : WriterPc → Bool
  | .body _ _ .reloadRear => true
  | .body _ _ (.advance _) => true
  | _ => false

end WriterPc

namespace ReaderPc

/-- The reader has the mutex. -/
def inBody : ReaderPc → Bool
  | .body _ _ _ => true
  | _ => false

/-- The bytes the running body has taken out of the queue. -/
def taken : ReaderPc → List UInt8
  | .body _ bytes _ => bytes
  | _ => []

/-- The running body has loaded a byte that `front` has not passed yet. -/
def loaded : ReaderPc → Bool
  | .body _ _ (.reloadFront _) => true
  | .body _ _ (.advance _ _) => true
  | _ => false

theorem taken_eq_nil {pc : ReaderPc} (h : pc.inBody = false) : pc.taken = [] := by
  cases pc <;> first | rfl | cases h

theorem not_loaded {pc : ReaderPc} (h : pc.inBody = false) : pc.loaded = false := by
  cases pc <;> first | rfl | cases h

end ReaderPc

theorem WriterPc.given_eq_nil {pc : WriterPc} (h : pc.inBody = false) : pc.given = [] := by
  cases pc <;> first | rfl | cases h

theorem WriterPc.not_stored {pc : WriterPc} (h : pc.inBody = false) : pc.stored = false := by
  cases pc <;> first | rfl | cases h

namespace QueuePair

/-! ## The invariant -/

/-- There is a byte left to store and room for it. -/
def Room (q : Queue) (items buffer : List UInt8) (i : Nat) : Prop :=
  i < buffer.length ∧ items.length < q.buffer.length ∧ q.isFull = 0

/-- What the writer knows in its body. -/
def WriterBodyOk (q : Queue) (items buffer : List UInt8) (i : Nat) : WriterAt → Prop
  | .loadRear => Room q items buffer i
  | .store rear => rear = q.rear ∧ Room q items buffer i
  | .reloadRear => q.buffer[q.rear]? = buffer[i]? ∧ Room q items buffer i
  | .advance rear => rear = q.rear ∧ q.buffer[q.rear]? = buffer[i]? ∧ Room q items buffer i
  | .testFront => items ≠ [] ∧ q.isFull = 0
  | .testRear front => front = q.front ∧ items ≠ [] ∧ q.isFull = 0
  | .fullFront => items ≠ [] ∧ q.isFull = 0
  | .fullRear front => front = q.front ∧ items ≠ [] ∧ q.isFull = 0
  | .setFull => items.length = q.buffer.length
  | .unlock => q.isFull = if items.length = q.buffer.length then 1 else 0

/-- What the writer knows. -/
def WriterOk (q : Queue) (items : List UInt8) : WriterPc → Prop
  | .idle => True
  | .guard buffer => buffer ≠ []
  | .lock buffer => buffer ≠ [] ∧ q.isFull = 0
  | .body buffer i next =>
      i ≤ buffer.length ∧ i ≤ items.length ∧ WriterBodyOk q items buffer i next

/-- What the reader knows in its body. -/
def ReaderBodyOk (q : Queue) (items : List UInt8) (size : Nat) (bytes : List UInt8) :
    ReaderAt → Prop
  | .loadFront => bytes.length < size ∧ items ≠ []
  | .load front => front = q.front ∧ bytes.length < size ∧ items ≠ []
  | .reloadFront b => items.head? = some b
  | .advance b front => front = q.front ∧ items.head? = some b
  | .testFront => bytes ≠ [] ∧ items.length < q.buffer.length
  | .testRear front => front = q.front ∧ bytes ≠ [] ∧ items.length < q.buffer.length
  | .clearFull => items.length < q.buffer.length
  | .unlock => q.isFull = 0 ∧ items.length < q.buffer.length

/-- What the reader knows. -/
def ReaderOk (q : Queue) (items : List UInt8) : ReaderPc → Prop
  | .idle => True
  | .guardFull size => size ≠ 0
  | .guardFront size => size ≠ 0
  | .guardThenRear size front => size ≠ 0 ∧ front = q.front
  | .guardRear size => size ≠ 0
  | .guardThenFront size rear => size ≠ 0 ∧ (q.front ≠ rear → items ≠ [])
  | .lock size => size ≠ 0 ∧ items ≠ []
  | .body size bytes next => ReaderBodyOk q items size bytes next

/-- What the guard of `queue_write` has seen stays true while the reader runs. -/
theorem WriterOk.stable {q q' : Queue} {items items' : List UInt8} {pc : WriterPc}
    (h : WriterOk q items pc) (hb : pc.inBody = false) (hf : q.isFull = 0 → q'.isFull = 0) :
    WriterOk q' items' pc := by
  cases pc with
  | idle => trivial
  | guard buffer => exact h
  | lock buffer => exact ⟨h.1, hf h.2⟩
  | body buffer i next => cases hb

/-- What the guard of `queue_read` has seen stays true while the writer runs. -/
theorem ReaderOk.stable {q q' : Queue} {items items' : List UInt8} {pc : ReaderPc}
    (h : ReaderOk q items pc) (hb : pc.inBody = false) (hf : q'.front = q.front)
    (hi : items ≠ [] → items' ≠ []) : ReaderOk q' items' pc := by
  cases pc with
  | idle => trivial
  | guardFull size => exact h
  | guardFront size => exact h
  | guardThenRear size front => exact ⟨h.1, h.2.trans hf.symm⟩
  | guardRear size => exact h
  | guardThenFront size rear =>
      refine ⟨h.1, fun hn => hi (h.2 ?_)⟩
      rwa [← hf]
  | lock size => exact ⟨h.1, hi h.2⟩
  | body size bytes next => cases hb

/-- The invariant of the pair, with the bytes that are in the queue: behind `front`
and before `rear`. -/
structure Inv (s : QueuePair) (items : List UInt8) : Prop where
  holds : Circular.Holds s.queue.buffer s.queue.front s.queue.rear items
  flow : s.returned ++ s.reader.taken ++ items = s.accepted ++ s.writer.given
  flag : s.queue.isFull = 0 ∨ s.queue.isFull = 1
  full : s.queue.isFull = 1 → s.reader.inBody = false → items.length = s.queue.buffer.length
  room : s.queue.isFull = 0 → s.writer.inBody = false → items.length < s.queue.buffer.length
  writerLock : s.mutex = some .writer ↔ s.writer.inBody = true
  readerLock : s.mutex = some .reader ↔ s.reader.inBody = true
  writerOk : WriterOk s.queue items s.writer
  readerOk : ReaderOk s.queue items s.reader
  unread : ∀ c, s.unread c = true ↔
    (Circular.Occupied s.queue.buffer.length s.queue.front items.length c ∧
      ¬ (s.reader.loaded = true ∧ c = s.queue.front)) ∨
    (s.writer.stored = true ∧ c = s.queue.rear)

namespace Inv
variable {s : QueuePair} {items : List UInt8}

/-- While the writer has the mutex the reader is outside its body. -/
theorem reader_out (h : Inv s items) (hw : s.writer.inBody = true) : s.reader.inBody = false := by
  have hm := h.writerLock.mpr hw
  apply Bool.eq_false_iff.mpr
  intro hr
  have hm' := h.readerLock.mpr hr
  rw [hm] at hm'
  cases hm'

/-- While the reader has the mutex the writer is outside its body. -/
theorem writer_out (h : Inv s items) (hr : s.reader.inBody = true) : s.writer.inBody = false := by
  apply Bool.eq_false_iff.mpr
  intro hw
  rw [h.reader_out hw] at hr
  cases hr

/-- With the mutex free both threads are outside their bodies. -/
theorem both_out (h : Inv s items) (hm : s.mutex = none) :
    s.writer.inBody = false ∧ s.reader.inBody = false := by
  constructor
  · apply Bool.eq_false_iff.mpr
    intro hw
    rw [h.writerLock.mpr hw] at hm
    cases hm
  · apply Bool.eq_false_iff.mpr
    intro hr
    rw [h.readerLock.mpr hr] at hm
    cases hm

/-- What a body of `queue_write` knows where it starts a step. -/
theorem writerBodyOk (h : Inv s items) {buffer : List UInt8} {i : Nat} {next : WriterAt}
    (hw : s.writer = .body buffer i next) :
    i ≤ buffer.length ∧ i ≤ items.length ∧ WriterBodyOk s.queue items buffer i next := by
  have := h.writerOk
  rwa [hw] at this

/-- What a body of `queue_read` knows where it starts a step. -/
theorem readerBodyOk (h : Inv s items) {size : Nat} {bytes : List UInt8} {next : ReaderAt}
    (hr : s.reader = .body size bytes next) : ReaderBodyOk s.queue items size bytes next := by
  have := h.readerOk
  rwa [hr] at this

/-! ## Steps that only read

A step of one thread that changes nothing but its program counter, and neither enters
nor leaves the body, keeps the invariant if the thread still knows what it should. -/

theorem moveWriter (h : Inv s items) {pc : WriterPc} (hb : pc.inBody = s.writer.inBody)
    (hs : pc.stored = s.writer.stored) (hg : pc.given = s.writer.given)
    (hok : WriterOk s.queue items pc) : Inv { s with writer := pc } items where
  holds := h.holds
  flow := by rw [hg]; exact h.flow
  flag := h.flag
  full := h.full
  room := by rw [hb]; exact h.room
  writerLock := by rw [hb]; exact h.writerLock
  readerLock := h.readerLock
  writerOk := hok
  readerOk := h.readerOk
  unread := by rw [hs]; exact h.unread

theorem moveReader (h : Inv s items) {pc : ReaderPc} (hb : pc.inBody = s.reader.inBody)
    (hl : pc.loaded = s.reader.loaded) (ht : pc.taken = s.reader.taken)
    (hok : ReaderOk s.queue items pc) : Inv { s with reader := pc } items where
  holds := h.holds
  flow := by rw [ht]; exact h.flow
  flag := h.flag
  full := by rw [hb]; exact h.full
  room := h.room
  writerLock := h.writerLock
  readerLock := by rw [hb]; exact h.readerLock
  writerOk := h.writerOk
  readerOk := hok
  unread := by rw [hl]; exact h.unread

/-- Between two places outside the body there is only what the writer knows. -/
theorem moveWriterOut (h : Inv s items) (hw : s.writer.inBody = false) {pc : WriterPc}
    (hb : pc.inBody = false) (hok : WriterOk s.queue items pc) :
    Inv { s with writer := pc } items :=
  h.moveWriter (hb.trans hw.symm) ((WriterPc.not_stored hb).trans (WriterPc.not_stored hw).symm)
    ((WriterPc.given_eq_nil hb).trans (WriterPc.given_eq_nil hw).symm) hok

/-- Between two places of the body that neither follow a store, or both do. -/
theorem moveWriterBody (h : Inv s items) {buffer : List UInt8} {i : Nat} {next next' : WriterAt}
    (hw : s.writer = .body buffer i next)
    (hs : (WriterPc.body buffer i next').stored = (WriterPc.body buffer i next).stored)
    (hok : WriterBodyOk s.queue items buffer i next') :
    Inv { s with writer := .body buffer i next' } items := by
  obtain ⟨hi, hi', -⟩ := h.writerBodyOk hw
  exact h.moveWriter (by rw [hw]; rfl) (by rw [hw, hs]) (by rw [hw]; rfl) ⟨hi, hi', hok⟩

theorem moveReaderOut (h : Inv s items) (hr : s.reader.inBody = false) {pc : ReaderPc}
    (hb : pc.inBody = false) (hok : ReaderOk s.queue items pc) :
    Inv { s with reader := pc } items :=
  h.moveReader (hb.trans hr.symm) ((ReaderPc.not_loaded hb).trans (ReaderPc.not_loaded hr).symm)
    ((ReaderPc.taken_eq_nil hb).trans (ReaderPc.taken_eq_nil hr).symm) hok

theorem moveReaderBody (h : Inv s items) {size : Nat} {bytes : List UInt8}
    {next next' : ReaderAt} (hr : s.reader = .body size bytes next)
    (hl : (ReaderPc.body size bytes next').loaded = (ReaderPc.body size bytes next).loaded)
    (hok : ReaderBodyOk s.queue items size bytes next') :
    Inv { s with reader := .body size bytes next' } items :=
  h.moveReader (by rw [hr]; rfl) (by rw [hr, hl]) (by rw [hr]; rfl) hok

/-! ## Steps of the writer -/

theorem writer_lock (h : Inv s items) {buffer : List UInt8} (hw : s.writer = .lock buffer)
    (hm : s.mutex = none) :
    Inv { s with mutex := some .writer, writer := .body buffer 0 .loadRear } items where
  holds := h.holds
  flow := by
    have := h.flow
    rwa [hw] at this
  flag := h.flag
  full := h.full
  room := fun _ hb => by cases hb
  writerLock := ⟨fun _ => rfl, fun _ => rfl⟩
  readerLock := by
    rw [(h.both_out hm).2]
    constructor <;> intro hc <;> cases hc
  writerOk := by
    have hok := h.writerOk
    rw [hw] at hok
    exact ⟨Nat.zero_le _, Nat.zero_le _, List.length_pos_iff.mpr hok.1,
      h.room hok.2 (h.both_out hm).1, hok.2⟩
  readerOk := h.readerOk
  unread := by
    have := h.unread
    rwa [hw] at this

/-- The writer stores its next byte behind the bytes in the queue. -/
theorem writer_store (h : Inv s items) {buffer : List UInt8} {i rear : Nat} {b : UInt8}
    {q : Queue} (hw : s.writer = .body buffer i (.store rear)) (hb : buffer[i]? = some b)
    (hq : q.buffer = s.queue.buffer.set rear b) (hf : q.front = s.queue.front)
    (hr : q.rear = s.queue.rear) (hfull : q.isFull = s.queue.isFull) :
    Inv { s with queue := q, writer := .body buffer i .reloadRear, unread := s.mark rear true }
      items := by
  obtain ⟨hi, hi', rfl, hlt, hroom, hzero⟩ := h.writerBodyOk hw
  have hout := h.reader_out (by rw [hw]; rfl)
  have hlen : q.buffer.length = s.queue.buffer.length := by rw [hq, List.length_set]
  refine ⟨?_, ?_, ?_, ?_, (fun _ hb => by cases hb), ?_, h.readerLock, ?_, ?_, ?_⟩
  · rw [hq, hf, hr]
    exact h.holds.store hroom b
  · have := h.flow
    rwa [hw] at this
  · rw [hfull]
    exact h.flag
  · rw [hfull, hlen]
    exact h.full
  · exact ⟨fun _ => rfl, fun _ => h.writerLock.mpr (by rw [hw]; rfl)⟩
  · refine ⟨hi, hi', ?_, hlt, by rwa [hlen], hfull.trans hzero⟩
    rw [hr, hq, List.getElem?_set_self h.holds.rear_lt, hb]
  · exact h.readerOk.stable hout hf id
  · intro c
    -- the cell just stored into is unread; the others are as before
    have hu := h.unread c
    simp only [hw, WriterPc.stored, Bool.false_eq_true, false_and, or_false] at hu
    simp only [mark, hlen, hf, hr, WriterPc.stored, true_and]
    split
    · rename_i hc
      exact ⟨fun _ => Or.inr hc, fun _ => rfl⟩
    · rename_i hc
      rw [hu, or_iff_left hc]

/-- `rear` passes the byte the writer has stored. -/
theorem writer_advance (h : Inv s items) {buffer : List UInt8} {i rear : Nat}
    (hw : s.writer = .body buffer i (.advance rear)) :
    ∃ b, Inv { s with
      queue := { s.queue with rear := (rear + 1) % s.queue.bufferSize }
      writer := .body buffer (i + 1) .testFront } (items ++ [b]) := by
  obtain ⟨hi, hi', rfl, hcell, hlt, hroom, hzero⟩ := h.writerBodyOk hw
  have hout := h.reader_out (by rw [hw]; rfl)
  obtain ⟨b, hb⟩ : ∃ b, buffer[i]? = some b := ⟨_, List.getElem?_eq_getElem hlt⟩
  refine ⟨b, ?_, ?_, h.flag, ?_, (fun _ hb => by cases hb), ?_, h.readerLock, ?_, ?_, ?_⟩
  · have := h.holds.extend hroom (hcell.trans hb)
    rwa [s.queue.sized] at this
  · have := h.flow
    rw [hw] at this
    show s.returned ++ s.reader.taken ++ (items ++ [b]) = s.accepted ++ buffer.take (i + 1)
    rw [← List.append_assoc, this, List.take_add_one, hb, List.append_assoc]
    rfl
  · intro hone
    rw [hzero] at hone
    cases hone
  · exact ⟨fun _ => rfl, fun _ => h.writerLock.mpr (by rw [hw]; rfl)⟩
  · refine ⟨hlt, ?_, List.append_ne_nil_of_right_ne_nil _ (List.cons_ne_nil _ _), hzero⟩
    rw [List.length_append, List.length_singleton]
    exact Nat.succ_le_succ hi'
  · exact h.readerOk.stable hout rfl fun _ =>
      List.append_ne_nil_of_right_ne_nil _ (List.cons_ne_nil _ _)
  · intro c
    -- the stored cell becomes the last of the occupied ones
    have hu := h.unread c
    simp only [hw, WriterPc.stored, ReaderPc.not_loaded hout, Bool.false_eq_true, false_and,
      not_false_eq_true, and_true, true_and] at hu
    simp only [WriterPc.stored, ReaderPc.not_loaded hout, Bool.false_eq_true, false_and,
      not_false_eq_true, and_true, or_false, List.length_append, List.length_singleton]
    rw [hu, Circular.occupied_succ, ← h.holds.rear_eq]

theorem writer_setFull (h : Inv s items) {buffer : List UInt8} {i : Nat}
    (hw : s.writer = .body buffer i .setFull) :
    Inv { s with
      queue := { s.queue with isFull := 1 }
      writer := .body buffer i .unlock } items := by
  obtain ⟨hi, hi', hlen⟩ := h.writerBodyOk hw
  have hout := h.reader_out (by rw [hw]; rfl)
  refine ⟨h.holds, ?_, Or.inr rfl, fun _ _ => hlen, (fun _ hb => by cases hb), ?_, h.readerLock,
    ⟨hi, hi', (if_pos hlen).symm⟩, h.readerOk.stable hout rfl id, ?_⟩
  · have := h.flow
    rwa [hw] at this
  · exact ⟨fun _ => rfl, fun _ => h.writerLock.mpr (by rw [hw]; rfl)⟩
  · have := h.unread
    rwa [hw] at this

theorem writer_unlock (h : Inv s items) {buffer : List UInt8} {i : Nat}
    (hw : s.writer = .body buffer i .unlock) :
    Inv { s with mutex := none, writer := .idle, accepted := s.accepted ++ buffer.take i }
      items := by
  obtain ⟨-, -, hflag⟩ := h.writerBodyOk hw
  have hout := h.reader_out (by rw [hw]; rfl)
  refine ⟨h.holds, ?_, h.flag, h.full, ?_, ?_, ?_, trivial, h.readerOk, ?_⟩
  · have := h.flow
    rw [hw] at this
    rw [this]
    exact (List.append_nil _).symm
  · intro hzero _
    have hfits := h.holds.fits
    have : items.length ≠ s.queue.buffer.length := by
      intro he
      rw [hflag, if_pos he] at hzero
      cases hzero
    show items.length < s.queue.buffer.length
    omega
  · constructor <;> intro hc <;> cases hc
  · rw [hout]
    constructor <;> intro hc <;> cases hc
  · have := h.unread
    rwa [hw] at this

/-! ## Steps of the reader -/

theorem reader_lock (h : Inv s items) {size : Nat} (hr : s.reader = .lock size)
    (hm : s.mutex = none) :
    Inv { s with mutex := some .reader, reader := .body size [] .loadFront } items where
  holds := h.holds
  flow := by
    have := h.flow
    rwa [hr] at this
  flag := h.flag
  full := fun _ hb => by cases hb
  room := h.room
  writerLock := by
    rw [(h.both_out hm).1]
    constructor <;> intro hc <;> cases hc
  readerLock := ⟨fun _ => rfl, fun _ => rfl⟩
  writerOk := h.writerOk
  readerOk := by
    have hok := h.readerOk
    rw [hr] at hok
    exact ⟨Nat.pos_of_ne_zero hok.1, hok.2⟩
  unread := by
    have := h.unread
    rwa [hr] at this

/-- The reader loads the oldest byte in the queue. -/
theorem reader_load (h : Inv s items) {size front : Nat} {bytes : List UInt8}
    (hr : s.reader = .body size bytes (.load front)) :
    ∃ b, s.queue.buffer[front]? = some b ∧
      Inv { s with reader := .body size bytes (.reloadFront b), unread := s.mark front false }
        items := by
  obtain ⟨rfl, -, hne⟩ := h.readerBodyOk hr
  have hout := h.writer_out (by rw [hr]; rfl)
  obtain ⟨b, rest, rfl⟩ := List.exists_cons_of_ne_nil hne
  refine ⟨b, h.holds.pop.1, h.holds, ?_, h.flag, (fun _ hb => by cases hb), h.room, h.writerLock,
    ?_, h.writerOk, rfl, ?_⟩
  · have := h.flow
    rwa [hr] at this
  · exact ⟨fun _ => rfl, fun _ => h.readerLock.mpr (by rw [hr]; rfl)⟩
  · intro c
    -- the loaded cell is still occupied, but read
    have hu := h.unread c
    simp only [hr, ReaderPc.loaded, WriterPc.not_stored hout, Bool.false_eq_true, false_and,
      not_false_eq_true, and_true, or_false] at hu
    simp only [mark, ReaderPc.loaded, WriterPc.not_stored hout, Bool.false_eq_true, false_and,
      true_and, or_false]
    split
    · rename_i hc
      exact ⟨(fun hf => by cases hf), (fun ho => absurd hc ho.2)⟩
    · rename_i hc
      rw [hu, and_iff_left hc]

/-- `front` passes the byte the reader has loaded. -/
theorem reader_advance (h : Inv s items) {size front : Nat} {bytes : List UInt8} {b : UInt8}
    (hr : s.reader = .body size bytes (.advance b front)) :
    Inv { s with
      queue := { s.queue with front := (front + 1) % s.queue.bufferSize }
      reader := .body size (bytes ++ [b]) .testFront } items.tail := by
  obtain ⟨rfl, hhead⟩ := h.readerBodyOk hr
  have hout := h.writer_out (by rw [hr]; rfl)
  obtain ⟨rest, rfl⟩ := List.head?_eq_some_iff.mp hhead
  have hfits : rest.length < s.queue.buffer.length := h.holds.fits
  refine ⟨?_, ?_, h.flag, (fun _ hb => by cases hb), (fun _ _ => hfits), h.writerLock, ?_,
    h.writerOk.stable hout id,
    ⟨List.append_ne_nil_of_right_ne_nil _ (List.cons_ne_nil _ _), hfits⟩, ?_⟩
  · have := h.holds.pop.2
    rwa [s.queue.sized] at this
  · have := h.flow
    rw [hr] at this
    show s.returned ++ (bytes ++ [b]) ++ rest = _
    rw [← this, List.append_assoc, List.append_assoc, List.append_assoc]
    rfl
  · exact ⟨fun _ => rfl, fun _ => h.readerLock.mpr (by rw [hr]; rfl)⟩
  · intro c
    -- the loaded cell is the one that leaves the occupied ones
    have hu := h.unread c
    have hnext := Circular.occupied_next h.holds.front_lt hfits c
    simp only [hr, ReaderPc.loaded, WriterPc.not_stored hout, Bool.false_eq_true, false_and,
      true_and, or_false, List.length_cons] at hu
    rw [s.queue.sized] at hu hnext
    simp only [ReaderPc.loaded, WriterPc.not_stored hout, Bool.false_eq_true, false_and,
      not_false_eq_true, and_true, or_false, List.tail_cons, s.queue.sized]
    rw [hu, hnext]

theorem reader_clearFull (h : Inv s items) {size : Nat} {bytes : List UInt8}
    (hr : s.reader = .body size bytes .clearFull) :
    Inv { s with
      queue := { s.queue with isFull := 0 }
      reader := .body size bytes .unlock } items := by
  have hlt : items.length < s.queue.buffer.length := h.readerBodyOk hr
  have hout := h.writer_out (by rw [hr]; rfl)
  refine ⟨h.holds, ?_, Or.inl rfl, (fun _ hb => by cases hb), (fun _ _ => hlt), h.writerLock, ?_,
    h.writerOk.stable hout (fun _ => rfl), ⟨rfl, hlt⟩, ?_⟩
  · have := h.flow
    rwa [hr] at this
  · exact ⟨fun _ => rfl, fun _ => h.readerLock.mpr (by rw [hr]; rfl)⟩
  · have := h.unread
    rwa [hr] at this

theorem reader_unlock (h : Inv s items) {size : Nat} {bytes : List UInt8}
    (hr : s.reader = .body size bytes .unlock) :
    Inv { s with mutex := none, reader := .idle, returned := s.returned ++ bytes } items := by
  obtain ⟨hzero, hlt⟩ := h.readerBodyOk hr
  have hout := h.writer_out (by rw [hr]; rfl)
  refine ⟨h.holds, ?_, h.flag, ?_, h.room, ?_, ?_, h.writerOk, trivial, ?_⟩
  · have := h.flow
    rw [hr] at this
    rw [← this]
    exact congrArg (· ++ items) (List.append_nil _)
  · intro hone
    rw [hzero] at hone
    cases hone
  · rw [hout]
    constructor <;> intro hc <;> cases hc
  · constructor <;> intro hc <;> cases hc
  · have := h.unread
    rwa [hr] at this

/-! ## Every step -/

theorem next_eq (h : Inv s items) (index : Nat) :
    s.queue.next index = .ok ((index + 1) % s.queue.bufferSize) := by
  have := h.holds.length_pos
  rw [s.queue.sized] at this
  exact if_neg (by omega)

/-- The pointers meet on a queue that is not empty: it is full. -/
theorem full_of_meet (h : Inv s items) (hne : items ≠ []) (he : s.queue.front = s.queue.rear) :
    items.length = s.queue.buffer.length :=
  (h.holds.front_eq_rear_iff.mp he).resolve_left hne

/-- The pointers differ: there is a byte and there is room. -/
theorem between_of_differ (h : Inv s items) (hn : s.queue.front ≠ s.queue.rear) :
    items ≠ [] ∧ items.length < s.queue.buffer.length := by
  have hfits := h.holds.fits
  have hne := mt h.holds.front_eq_rear_iff.mpr hn
  rw [not_or] at hne
  exact ⟨hne.1, by omega⟩

theorem writerBody_step (h : Inv s items) {buffer : List UInt8} {i : Nat} {next : WriterAt}
    (hw : s.writer = .body buffer i next) :
    ∃ s', s.writerBody buffer i next = .ok s' ∧ ∃ items', Inv s' items' := by
  obtain ⟨-, -, hok⟩ := h.writerBodyOk hw
  cases next with
  | loadRear => exact ⟨_, rfl, items, h.moveWriterBody hw rfl ⟨rfl, hok⟩⟩
  | store rear =>
      obtain ⟨rfl, hlt, -, -⟩ := hok
      have hb : buffer[i]? = some buffer[i] := List.getElem?_eq_getElem hlt
      obtain ⟨q, hq, hbuf, hf, hr, hfull⟩ := s.queue.store_ok h.holds.rear_lt buffer[i]
      refine ⟨_, ?_, items, h.writer_store hw hb hbuf hf hr hfull⟩
      simp only [writerBody, hb, hq]
      rfl
  | reloadRear => exact ⟨_, rfl, items, h.moveWriterBody hw rfl ⟨rfl, hok⟩⟩
  | advance rear =>
      obtain ⟨b, hb⟩ := h.writer_advance hw
      exact ⟨_, by rw [writerBody, h.next_eq]; rfl, _, hb⟩
  | testFront => exact ⟨_, rfl, items, h.moveWriterBody hw rfl ⟨rfl, hok⟩⟩
  | testRear front =>
      obtain ⟨rfl, hok⟩ := hok
      rw [writerBody]
      by_cases hc : s.queue.front ≠ s.queue.rear ∧ i < buffer.length
      · rw [if_pos hc]
        obtain ⟨-, hlt⟩ := h.between_of_differ hc.1
        exact ⟨_, rfl, items, h.moveWriterBody hw rfl ⟨hc.2, hlt, hok.2⟩⟩
      · rw [if_neg hc]
        exact ⟨_, rfl, items, h.moveWriterBody hw rfl hok⟩
  | fullFront => exact ⟨_, rfl, items, h.moveWriterBody hw rfl ⟨rfl, hok⟩⟩
  | fullRear front =>
      obtain ⟨rfl, hne, hzero⟩ := hok
      rw [writerBody]
      by_cases hc : s.queue.front = s.queue.rear
      · rw [if_pos hc]
        exact ⟨_, rfl, items, h.moveWriterBody hw rfl (h.full_of_meet hne hc)⟩
      · rw [if_neg hc]
        refine ⟨_, rfl, items, h.moveWriterBody hw rfl ?_⟩
        obtain ⟨-, hlt⟩ := h.between_of_differ hc
        rw [WriterBodyOk, if_neg (Nat.ne_of_lt hlt), hzero]
  | setFull => exact ⟨_, rfl, items, h.writer_setFull hw⟩
  | unlock => exact ⟨_, rfl, items, h.writer_unlock hw⟩

theorem writer_step (h : Inv s items) (buffer : List UInt8) :
    ∃ s', s.writerStep buffer = .ok s' ∧ ∃ items', Inv s' items' := by
  have hok := h.writerOk
  cases hw : s.writer with
  | idle =>
      have hout : s.writer.inBody = false := by rw [hw]; rfl
      simp only [writerStep, hw]
      by_cases hb : buffer = []
      · rw [if_pos hb]
        exact ⟨_, rfl, items, h.moveWriterOut hout rfl trivial⟩
      · rw [if_neg hb]
        exact ⟨_, rfl, items, h.moveWriterOut hout rfl hb⟩
  | guard buffer =>
      have hout : s.writer.inBody = false := by rw [hw]; rfl
      rw [hw] at hok
      simp only [writerStep, hw]
      by_cases hf : s.queue.isFull = 1
      · rw [if_pos hf]
        exact ⟨_, rfl, items, h.moveWriterOut hout rfl trivial⟩
      · rw [if_neg hf]
        exact ⟨_, rfl, items, h.moveWriterOut hout rfl ⟨hok, h.flag.resolve_right hf⟩⟩
  | lock buffer =>
      simp only [writerStep, hw]
      cases hm : s.mutex with
      | some side => exact ⟨s, rfl, items, h⟩
      | none => exact ⟨_, rfl, items, h.writer_lock hw hm⟩
  | body buffer i next =>
      simp only [writerStep, hw]
      exact h.writerBody_step hw

theorem readerBody_step (h : Inv s items) {size : Nat} {bytes : List UInt8} {next : ReaderAt}
    (hr : s.reader = .body size bytes next) :
    ∃ s', s.readerBody size bytes next = .ok s' ∧ ∃ items', Inv s' items' := by
  have hok := h.readerBodyOk hr
  cases next with
  | loadFront => exact ⟨_, rfl, items, h.moveReaderBody hr rfl ⟨rfl, hok⟩⟩
  | load front =>
      obtain ⟨b, hb, hinv⟩ := h.reader_load hr
      refine ⟨_, ?_, items, hinv⟩
      rw [readerBody, if_pos hok.2.1, Queue.load, hb]
      rfl
  | reloadFront b => exact ⟨_, rfl, items, h.moveReaderBody hr rfl ⟨rfl, hok⟩⟩
  | advance b front => exact ⟨_, by rw [readerBody, h.next_eq]; rfl, _, h.reader_advance hr⟩
  | testFront => exact ⟨_, rfl, items, h.moveReaderBody hr rfl ⟨rfl, hok⟩⟩
  | testRear front =>
      obtain ⟨rfl, hne, hlt⟩ := hok
      rw [readerBody]
      by_cases hc : s.queue.front ≠ s.queue.rear ∧ bytes.length < size
      · rw [if_pos hc]
        obtain ⟨hitems, -⟩ := h.between_of_differ hc.1
        exact ⟨_, rfl, items, h.moveReaderBody hr rfl ⟨hc.2, hitems⟩⟩
      · rw [if_neg hc, if_pos (mt List.length_eq_zero_iff.mp hne)]
        exact ⟨_, rfl, items, h.moveReaderBody hr rfl hlt⟩
  | clearFull => exact ⟨_, rfl, items, h.reader_clearFull hr⟩
  | unlock => exact ⟨_, rfl, items, h.reader_unlock hr⟩

theorem reader_step (h : Inv s items) (size : Nat) (frontFirst : Bool) :
    ∃ s', s.readerStep size frontFirst = .ok s' ∧ ∃ items', Inv s' items' := by
  have hok := h.readerOk
  have hpos := h.holds.length_pos
  cases hr : s.reader with
  | idle =>
      have hout : s.reader.inBody = false := by rw [hr]; rfl
      simp only [readerStep, hr]
      by_cases hs : size = 0
      · rw [if_pos hs]
        exact ⟨_, rfl, items, h.moveReaderOut hout rfl trivial⟩
      · rw [if_neg hs]
        exact ⟨_, rfl, items, h.moveReaderOut hout rfl hs⟩
  | guardFull size =>
      have hout : s.reader.inBody = false := by rw [hr]; rfl
      rw [hr] at hok
      simp only [readerStep, hr]
      by_cases hf : s.queue.isFull = 0
      · rw [if_pos hf]
        cases frontFirst with
        | false => exact ⟨_, rfl, items, h.moveReaderOut hout rfl hok⟩
        | true => exact ⟨_, rfl, items, h.moveReaderOut hout rfl hok⟩
      · -- the flag is set and the reader is outside its body: the queue is full
        rw [if_neg hf]
        have hfull := h.full (h.flag.resolve_left hf) hout
        have hne : items ≠ [] := List.length_pos_iff.mp (by omega)
        exact ⟨_, rfl, items, h.moveReaderOut hout rfl ⟨hok, hne⟩⟩
  | guardFront size =>
      rw [hr] at hok
      simp only [readerStep, hr]
      exact ⟨_, rfl, items, h.moveReaderOut (by rw [hr]; rfl) rfl ⟨hok, rfl⟩⟩
  | guardThenRear size front =>
      have hout : s.reader.inBody = false := by rw [hr]; rfl
      rw [hr] at hok
      obtain ⟨hs, rfl⟩ := hok
      simp only [readerStep, hr]
      by_cases he : s.queue.front = s.queue.rear
      · rw [if_pos he]
        exact ⟨_, rfl, items, h.moveReaderOut hout rfl trivial⟩
      · rw [if_neg he]
        obtain ⟨hne, -⟩ := h.between_of_differ he
        exact ⟨_, rfl, items, h.moveReaderOut hout rfl ⟨hs, hne⟩⟩
  | guardRear size =>
      rw [hr] at hok
      simp only [readerStep, hr]
      exact ⟨_, rfl, items, h.moveReaderOut (by rw [hr]; rfl) rfl
        ⟨hok, fun hn => (h.between_of_differ hn).1⟩⟩
  | guardThenFront size rear =>
      have hout : s.reader.inBody = false := by rw [hr]; rfl
      rw [hr] at hok
      simp only [readerStep, hr]
      by_cases he : s.queue.front = rear
      · rw [if_pos he]
        exact ⟨_, rfl, items, h.moveReaderOut hout rfl trivial⟩
      · rw [if_neg he]
        exact ⟨_, rfl, items, h.moveReaderOut hout rfl ⟨hok.1, hok.2 he⟩⟩
  | lock size =>
      simp only [readerStep, hr]
      cases hm : s.mutex with
      | some side => exact ⟨s, rfl, items, h⟩
      | none => exact ⟨_, rfl, items, h.reader_lock hr hm⟩
  | body size bytes next =>
      simp only [readerStep, hr]
      exact h.readerBody_step hr

/-! ## Safety -/

/-- Outside the bodies the queue represents the bytes the invariant names. -/
theorem represents (h : Inv s items) (hm : s.mutex = none) : s.queue.Represents items := by
  obtain ⟨hw, hr⟩ := h.both_out hm
  refine ⟨h.holds, ?_⟩
  rcases h.flag with hzero | hone
  · have := h.room hzero hw
    rw [hzero, if_neg]
    rw [← s.queue.sized]
    omega
  · rw [hone, if_pos]
    rw [← s.queue.sized]
    exact h.full hone hr

theorem returned_prefix (h : Inv s items) : s.returned <+: s.accepted := by
  have hflow := h.flow
  by_cases hw : s.writer.inBody = true
  · rw [ReaderPc.taken_eq_nil (h.reader_out hw), List.append_nil] at hflow
    -- what the running body has stored is still in the queue, behind what was accepted
    have hle : s.writer.given.length ≤ items.length := by
      have hok := h.writerOk
      cases hpc : s.writer with
      | body buffer i next =>
          rw [hpc] at hok
          show (buffer.take i).length ≤ items.length
          rw [List.length_take_of_le hok.1]
          exact hok.2.1
      | idle => exact Nat.zero_le _
      | guard buffer => exact Nat.zero_le _
      | lock buffer => exact Nat.zero_le _
    have hlen := congrArg List.length hflow
    rw [List.length_append, List.length_append] at hlen
    exact List.prefix_of_prefix_length_le (List.prefix_append _ _)
      (hflow ▸ List.prefix_append s.accepted s.writer.given) (by omega)
  · rw [WriterPc.given_eq_nil (Bool.eq_false_iff.mpr hw), List.append_nil,
      List.append_assoc] at hflow
    exact ⟨_, hflow⟩

theorem cellsRespected (h : Inv s items) : s.CellsRespected := by
  constructor
  · intro buffer i rear hw
    obtain ⟨-, -, rfl, -, hroom, -⟩ := h.writerBodyOk hw
    have hu := h.unread s.queue.rear
    simp only [hw, WriterPc.stored, Bool.false_eq_true, false_and, or_false] at hu
    apply Bool.eq_false_iff.mpr
    intro hc
    exact h.holds.rear_not_occupied hroom (hu.mp hc).1
  · intro size bytes front hr
    obtain ⟨rfl, -, hne⟩ := h.readerBodyOk hr
    have hu := h.unread s.queue.front
    simp only [hr, ReaderPc.loaded, Bool.false_eq_true, not_false_eq_true, and_true] at hu
    exact hu.mpr (Or.inl (Circular.occupied_front h.holds.front_lt (List.length_pos_iff.mpr hne)))

theorem safe (h : Inv s items) : s.Safe s.queue.bufferSize where
  returned_prefix := h.returned_prefix
  rest := by
    intro hm
    obtain ⟨hw, hr⟩ := h.both_out hm
    have hflow := h.flow
    rw [ReaderPc.taken_eq_nil hr, WriterPc.given_eq_nil hw, List.append_nil,
      List.append_nil] at hflow
    rw [(h.represents hm).contents_eq]
    exact ⟨hflow, (h.represents hm).fits⟩
  cells := h.cellsRespected

end Inv

theorem inv_start {q : Queue} (h : q.Represents []) : Inv (start q) [] where
  holds := h.holds
  flow := rfl
  flag := Or.inl (h.empty_iff.mpr rfl).1
  full := by
    intro hone
    have : q.isFull = 1 := hone
    rw [(h.empty_iff.mpr rfl).1] at this
    cases this
  room := fun _ _ => h.holds.length_pos
  writerLock := by constructor <;> intro hc <;> cases hc
  readerLock := by constructor <;> intro hc <;> cases hc
  writerOk := trivial
  readerOk := trivial
  unread := by
    intro c
    constructor
    · intro hc
      cases hc
    · rintro (⟨⟨k, hk, -⟩, -⟩ | ⟨hc, -⟩)
      · exact absurd hk (Nat.not_lt_zero _)
      · cases hc

end QueuePair

/-- **One writer and one reader are safe without more locking.**  On a new queue for
`n ≥ 1` bytes and in every interleaving of the single accesses of one thread that
calls `queue_write` and one that calls `queue_read`, no access faults and every
state is safe: the bytes returned are a prefix of the bytes accepted; whenever no
body is in progress the others, at most `n`, are in the queue in order; no body
overwrites a byte that was not read, or reads a cell without an unread byte. -/
theorem queue_pair_safe {n : Nat} {queueBlock : Bool} {block : Option (Vector UInt8 n)}
    {q : Queue} (hn : 1 ≤ n) (hq : queueNew n queueBlock block = some q) (turns : List Turn) :
    Runs.AlwaysAlong QueuePair.step (QueuePair.Safe n) (QueuePair.start q) turns := by
  obtain ⟨hsize, hr⟩ := Queue.represents_of_new hn hq
  refine Runs.alwaysAlong_of_invariant
    (I := fun s => s.queue.bufferSize = n ∧ ∃ items, QueuePair.Inv s items)
    (E := fun _ => True) ?_ ?_ ⟨hsize, [], QueuePair.inv_start hr⟩ fun _ _ => trivial
  · rintro s turn - ⟨hs, items, h⟩
    obtain ⟨s', he, hinv⟩ : ∃ s', s.step turn = .ok s' ∧ ∃ items', QueuePair.Inv s' items' := by
      cases turn with
      | writer buffer => exact h.writer_step buffer
      | reader size frontFirst => exact h.reader_step size frontFirst
    exact ⟨s', he, (QueuePair.step_bufferSize he).trans hs, hinv⟩
  · rintro s ⟨rfl, items, h⟩
    exact h.safe

/-- A queue of one byte, with the guards of both threads evaluated before either
body. -/
theorem queue_pair_safe_one :
    Runs.AlwaysAlong QueuePair.step (QueuePair.Safe 1)
      (QueuePair.start
        { bufferSize := 1, front := 0, rear := 0, isFull := 0, buffer := [0], sized := rfl })
      [.writer [7], .reader 1 true, .writer [], .reader 1 true, .writer []] :=
  queue_pair_safe (by decide) (show queueNew 1 true (some #v[0]) = some _ from rfl) _

end BlackHV
