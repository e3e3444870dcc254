import BlackHV.Queue

/-! # Calls of the byte queue

What one call does to the bytes a queue represents, first for the loops, then for
the bodies under the mutex, then for whole calls.  `queue_refines_fifo` is the
consequence for every sequence of calls: the queue is a bounded FIFO.
-/
namespace BlackHV

namespace Queue
variable {q q' : Queue} {items : List UInt8}

/-! ## One pass of each loop -/

/-- The queue after one pass of the loop of `queue_write`. -/
def put (q : Queue) (b : UInt8) : Queue :=
  { q with
    buffer := q.buffer.set q.rear b
    rear := (q.rear + 1) % q.bufferSize
    sized := by rw [List.length_set, q.sized] }

/-- The queue after one pass of the loop of `queue_read`. -/
def advance (q : Queue) : Queue := { q with front := (q.front + 1) % q.bufferSize }

theorem writeLoop_cons (h : q.rear < q.bufferSize) (b : UInt8) (rest : List UInt8) :
    q.writeLoop (b :: rest) =
      if (q.put b).front ≠ (q.put b).rear ∧ rest ≠ [] then
        (q.put b).writeLoop rest >>= fun r => .ok (r.1, r.2 + 1)
      else
        .ok (q.put b, 1) := by
  have h₁ : q.store q.rear b = .ok { q with
      buffer := q.buffer.set q.rear b
      sized := by rw [List.length_set, q.sized] } := if_pos (q.sized.symm ▸ h)
  have h₂ : ∀ i, q.next i = .ok ((i + 1) % q.bufferSize) := fun i => if_neg (by omega)
  simp only [next] at h₂
  simp only [writeLoop, h₁, ok_bind, next, h₂, put]
  rfl

theorem readLoop_succ {b : UInt8} (h : q.buffer[q.front]? = some b) (left : Nat) :
    q.readLoop (left + 1) =
      if q.advance.front ≠ q.advance.rear ∧ left ≠ 0 then
        q.advance.readLoop left >>= fun r => .ok (r.1, b :: r.2)
      else
        .ok (q.advance, [b]) := by
  have hlt := (List.getElem?_eq_some_iff.mp h).1
  have h₂ : q.next q.front = .ok ((q.front + 1) % q.bufferSize) :=
    if_neg (by rw [← q.sized]; omega)
  simp only [readLoop, load, h, ok_bind, h₂, advance]
  rfl

theorem holds_put (h : Circular.Holds q.buffer q.front q.rear items)
    (hl : items.length < q.bufferSize) (b : UInt8) :
    Circular.Holds (q.put b).buffer (q.put b).front (q.put b).rear (items ++ [b]) := by
  have := h.push (q.sized.symm ▸ hl) b
  rwa [q.sized] at this

theorem holds_advance {b : UInt8} (h : Circular.Holds q.buffer q.front q.rear (b :: items)) :
    Circular.Holds q.advance.buffer q.advance.front q.advance.rear items := by
  have := h.pop.2
  rwa [q.sized] at this

/-! ## The loops -/

/-- The loop of `queue_write`, entered with bytes to store and room for one, stores
as many as fit. -/
theorem writeLoop_spec {buffer : List UInt8} (hb : buffer ≠ [])
    (hl : items.length < q.bufferSize) (h : Circular.Holds q.buffer q.front q.rear items) :
    ∃ q', q.writeLoop buffer = .ok (q', min buffer.length (q.bufferSize - items.length)) ∧
      q'.bufferSize = q.bufferSize ∧ q'.isFull = q.isFull ∧
      Circular.Holds q'.buffer q'.front q'.rear
        (items ++ buffer.take (q.bufferSize - items.length)) := by
  induction buffer generalizing q items with
  | nil => exact absurd rfl hb
  | cons b rest ih =>
      have hput := holds_put h hl b
      have hsize : (q.put b).bufferSize = q.bufferSize := rfl
      obtain ⟨m, hm⟩ := Nat.exists_eq_add_of_lt hl
      have hroom : q.bufferSize - items.length = m + 1 := by omega
      have hroom' : q.bufferSize - (items ++ [b]).length = m := by
        rw [List.length_append, List.length_singleton]
        omega
      rw [writeLoop_cons (q.sized ▸ h.rear_lt), hroom, List.take_succ_cons]
      split
      · rename_i hc
        -- the indices differ, so the queue is not full and the loop goes on
        have hnf : (items ++ [b]).length < (q.put b).bufferSize := by
          have hf := hput.fits
          have := mt hput.front_eq_rear_iff.mpr hc.1
          rw [(q.put b).sized] at hf this
          omega
        obtain ⟨q', he, hs, hflag, hh⟩ := ih hc.2 hnf hput
        rw [hsize, hroom'] at he hh
        refine ⟨q', ?_, hs, hflag, ?_⟩
        · rw [he, ok_bind, List.length_cons, Nat.add_min_add_right]
        · rwa [List.append_assoc] at hh
      · rename_i hc
        have hstop : rest.take m = [] ∧ min (rest.length + 1) (m + 1) = 1 := by
          by_cases hrest : rest = []
          · subst hrest
            exact ⟨List.take_nil, by simp⟩
          · -- the indices are equal on a queue that is not empty: it is full
            have heq : (q.put b).front = (q.put b).rear :=
              Classical.byContradiction fun hn => hc ⟨hn, hrest⟩
            rcases hput.front_eq_rear_iff.mp heq with hnil | hfull
            · exact absurd hnil (by simp)
            · rw [(q.put b).sized, hsize] at hfull
              have : m = 0 := by omega
              subst this
              exact ⟨List.take_zero, by omega⟩
        refine ⟨q.put b, ?_, rfl, rfl, ?_⟩
        · rw [List.length_cons, hstop.2]
        · rwa [hstop.1]

/-- The loop of `queue_write` leaves `front` where it is. -/
theorem writeLoop_front {buffer : List UInt8} {i : Nat} (h : q.writeLoop buffer = .ok (q', i)) :
    q'.front = q.front := by
  induction buffer generalizing q i with
  | nil => cases h
  | cons b rest ih =>
      obtain ⟨q₁, hstore, h⟩ := bind_eq_ok.mp h
      obtain ⟨rear, -, h⟩ := bind_eq_ok.mp h
      have hfront : q₁.front = q.front := by
        unfold store at hstore
        split at hstore
        · cases hstore
          rfl
        · cases hstore
      dsimp only at h
      split at h
      · obtain ⟨⟨q₂, j⟩, hloop, h⟩ := bind_eq_ok.mp h
        cases h
        exact (ih hloop).trans hfront
      · cases h
        exact hfront

/-- The loop of `queue_read`, entered with room for a byte and one to read, reads
the oldest bytes. -/
theorem readLoop_spec {left : Nat} (hleft : left ≠ 0) (hne : items ≠ [])
    (h : Circular.Holds q.buffer q.front q.rear items) :
    ∃ q', q.readLoop left = .ok (q', items.take left) ∧
      q'.bufferSize = q.bufferSize ∧ q'.isFull = q.isFull ∧
      Circular.Holds q'.buffer q'.front q'.rear (items.drop left) := by
  induction left generalizing q items with
  | zero => exact absurd rfl hleft
  | succ left ih =>
      obtain ⟨b, rest, rfl⟩ := List.exists_cons_of_ne_nil hne
      have hadv := holds_advance h
      rw [readLoop_succ h.pop.1, List.take_succ_cons, List.drop_succ_cons]
      split
      · rename_i hc
        have hrest : rest ≠ [] := fun he => hc.1 (hadv.front_eq_rear_iff.mpr (Or.inl he))
        obtain ⟨q', he, hs, hflag, hh⟩ := ih hc.2 hrest hadv
        exact ⟨q', by rw [he, ok_bind], hs, hflag, hh⟩
      · rename_i hc
        have hstop : rest.take left = [] ∧ rest.drop left = rest := by
          by_cases hz : left = 0
          · subst hz
            exact ⟨List.take_zero, List.drop_zero⟩
          · -- the indices are equal on a queue that is not full: it is empty
            have heq : q.advance.front = q.advance.rear :=
              Classical.byContradiction fun hn => hc ⟨hn, hz⟩
            rcases hadv.front_eq_rear_iff.mp heq with rfl | hfull
            · exact ⟨List.take_nil, List.drop_nil⟩
            · have hf := h.fits
              rw [List.length_cons] at hf
              exact absurd hfull (Nat.ne_of_lt hf)
        exact ⟨q.advance, by rw [hstop.1], rfl, rfl, by rwa [hstop.2]⟩

end Queue

open Queue

section Calls
variable {q : Queue} {items : List UInt8}

/-! ## The bodies -/

/-- The body of `queue_write`, on a queue that is not full. -/
theorem queueWriteBody_spec (h : q.Represents items) (hl : items.length < q.bufferSize)
    {buffer : List UInt8} (hb : buffer ≠ []) :
    ∃ q', queueWriteBody q buffer =
        .ok (q', min buffer.length (q.bufferSize - items.length)) ∧
      q'.bufferSize = q.bufferSize ∧
      q'.Represents (items ++ buffer.take (q.bufferSize - items.length)) := by
  obtain ⟨q', he, hs, hflag, hh⟩ := writeLoop_spec hb hl h.holds
  have hne : items ++ buffer.take (q.bufferSize - items.length) ≠ [] := by
    have : 0 < (buffer.take (q.bufferSize - items.length)).length := by
      have := List.length_pos_iff.mpr hb
      rw [List.length_take]
      omega
    exact List.append_ne_nil_of_right_ne_nil _ (List.length_pos_iff.mp this)
  have hfull := hh.front_eq_rear_iff
  rw [q'.sized, or_iff_right hne] at hfull
  have hzero : q'.isFull = 0 := hflag.trans (h.not_full_iff.mpr hl)
  refine ⟨if q'.front = q'.rear then { q' with isFull := 1 } else q', ?_, ?_, ?_⟩
  · rw [queueWriteBody, he, ok_bind]
  · split <;> exact hs
  · split
    · rename_i heq
      exact ⟨hh, (if_pos (hfull.mp heq)).symm⟩
    · rename_i heq
      exact ⟨hh, by rw [if_neg (mt hfull.mpr heq), hzero]⟩

theorem queueWriteBody_front {q' : Queue} {buffer : List UInt8} {i : Nat}
    (h : queueWriteBody q buffer = .ok (q', i)) : q'.front = q.front := by
  obtain ⟨⟨q₁, j⟩, hloop, h⟩ := bind_eq_ok.mp h
  have hfront := writeLoop_front hloop
  cases h
  split <;> exact hfront

/-- The body of `queue_read`, on a queue that is not empty. -/
theorem queueReadBody_spec (h : q.Represents items) (hne : items ≠ [])
    {size : Nat} (hs : size ≠ 0) :
    ∃ q', queueReadBody q size = .ok (q', items.take size) ∧
      q'.bufferSize = q.bufferSize ∧ q'.Represents (items.drop size) := by
  obtain ⟨q', he, hsize, -, hh⟩ := readLoop_spec hs hne h.holds
  have hpos := List.length_pos_iff.mpr hne
  refine ⟨{ q' with isFull := 0 }, ?_, hsize, hh, ?_⟩
  · have : (items.take size).length ≠ 0 := by
      rw [List.length_take]
      omega
    simp only [queueReadBody, he, ok_bind, if_pos this]
  · have := h.fits
    rw [if_neg]
    rw [List.length_drop, hsize]
    omega

/-! ## Whole calls -/

/-- A call of `queue_write` goes on to its body exactly when it has a byte to store
and the queue has room for one. -/
theorem queueWriteGuard_iff (h : q.Represents items) (size : Nat) :
    queueWriteGuard q size = true ↔ size ≠ 0 ∧ items.length < q.bufferSize := by
  have hf := h.full_iff
  have := h.fits
  rw [queueWriteGuard]
  simp only [Bool.not_eq_true', Bool.or_eq_false_iff, beq_eq_false_iff_ne, ne_eq, hf]
  omega

/-- A call of `queue_read` goes on to its body exactly when it has room for a byte
and the queue has one. -/
theorem queueReadGuard_iff (h : q.Represents items) (size : Nat) :
    queueReadGuard q size = true ↔ size ≠ 0 ∧ items ≠ [] := by
  rw [ne_eq items, ← h.empty_iff, queueReadGuard]
  simp [or_iff_not_imp_left]

/-- `queue_write` appends the bytes that fit, in order, and returns their number. -/
theorem queueWrite_spec (h : q.Represents items) (buffer : List UInt8) :
    ∃ q', queueWrite q buffer = .ok (q', min buffer.length (q.bufferSize - items.length)) ∧
      q'.bufferSize = q.bufferSize ∧
      q'.Represents (items ++ buffer.take (q.bufferSize - items.length)) := by
  have hg := queueWriteGuard_iff h buffer.length
  unfold queueWrite
  split
  · obtain ⟨hb, hl⟩ := hg.mp ‹_›
    exact queueWriteBody_spec h hl (mt List.length_eq_zero_iff.mpr hb)
  · rename_i hn
    have hstop : buffer.length = 0 ∨ q.bufferSize - items.length = 0 := by
      rw [hg] at hn
      omega
    refine ⟨q, ?_, rfl, ?_⟩
    · rw [Nat.min_eq_zero_iff.mpr hstop]
    · rw [List.take_eq_nil_iff.mpr (hstop.symm.imp_right List.length_eq_zero_iff.mp),
        List.append_nil]
      exact h

/-- `queue_read` removes the oldest bytes and returns them, in order. -/
theorem queueRead_spec (h : q.Represents items) (size : Nat) :
    ∃ q', queueRead q size = .ok (q', items.take size) ∧
      q'.bufferSize = q.bufferSize ∧ q'.Represents (items.drop size) := by
  have hg := queueReadGuard_iff h size
  unfold queueRead
  split
  · obtain ⟨hs, hne⟩ := hg.mp ‹_›
    exact queueReadBody_spec h hne hs
  · rename_i hn
    rw [hg, not_and_or, not_not, not_not] at hn
    refine ⟨q, ?_, rfl, ?_⟩
    · rw [List.take_eq_nil_iff.mpr hn]
    · rcases hn with rfl | rfl
      · exact h
      · rwa [List.drop_nil]

/-- `queue_empty` returns 1 when there is no byte in the queue and 0 otherwise. -/
theorem queueEmpty_spec (h : q.Represents items) :
    queueEmpty q = if items.isEmpty then 1 else 0 := by
  have he := h.empty_iff
  have hzero : q.isFull ≠ 1 ↔ q.isFull = 0 := by
    rw [h.flag]
    split <;> simp
  simp only [queueEmpty, hzero, he, List.isEmpty_iff]

end Calls

/-! ## Sequences of calls -/

/-- A call on a queue. -/
inductive QueueCall where
  | write (buffer : List UInt8)
  | read (size : Nat)
  | empty

/-- What a call returns: the count of `queue_write`, the bytes `queue_read` stores,
the answer of `queue_empty`. -/
inductive QueueAnswer where
  | written (count : Nat)
  | read (bytes : List UInt8)
  | empty (answer : UInt32)
  deriving DecidableEq

/-- One call on the queue. -/
def Queue.call (q : Queue) : QueueCall → Except Fault (Queue × QueueAnswer)
  | .write buffer => do
      let (q, i) ← queueWrite q buffer
      .ok (q, .written i)
  | .read size => do
      let (q, bytes) ← queueRead q size
      .ok (q, .read bytes)
  | .empty => .ok (q, .empty (queueEmpty q))

/-- The same call on a bounded FIFO of bytes: what the queue is for. -/
def fifoCall {n : Nat} (f : BoundedFifo UInt8 n) : QueueCall → BoundedFifo UInt8 n × QueueAnswer
  | .write buffer => ((f.push buffer).1, .written (f.push buffer).2)
  | .read size => ((f.pop size).1, .read (f.pop size).2)
  | .empty => (f, .empty (if f.isEmpty then 1 else 0))

/-- `queue_write` pushes. -/
theorem queueWrite_fifo {n : Nat} {q : Queue} {f : BoundedFifo UInt8 n} (hn : q.bufferSize = n)
    (h : q.Represents f.items) (buffer : List UInt8) :
    ∃ q', queueWrite q buffer = .ok (q', (f.push buffer).2) ∧ q'.bufferSize = n ∧
      q'.Represents (f.push buffer).1.items := by
  subst hn
  exact queueWrite_spec h buffer

/-- `queue_read` pops. -/
theorem queueRead_fifo {n : Nat} {q : Queue} {f : BoundedFifo UInt8 n} (hn : q.bufferSize = n)
    (h : q.Represents f.items) (size : Nat) :
    ∃ q', queueRead q size = .ok (q', (f.pop size).2) ∧ q'.bufferSize = n ∧
      q'.Represents (f.pop size).1.items := by
  subst hn
  exact queueRead_spec h size

/-- One call on a queue that represents a FIFO does what it does on the FIFO. -/
theorem Queue.call_simulates {n : Nat} {q : Queue} {f : BoundedFifo UInt8 n}
    (hn : q.bufferSize = n) (h : q.Represents f.items) (c : QueueCall) :
    ∃ q', q.call c = .ok (q', (fifoCall f c).2) ∧
      q'.bufferSize = n ∧ q'.Represents (fifoCall f c).1.items := by
  cases c with
  | write buffer =>
      obtain ⟨q', he, hs, hr⟩ := queueWrite_fifo hn h buffer
      exact ⟨q', by rw [Queue.call, he]; rfl, hs, hr⟩
  | read size =>
      obtain ⟨q', he, hs, hr⟩ := queueRead_fifo hn h size
      exact ⟨q', by rw [Queue.call, he]; rfl, hs, hr⟩
  | empty =>
      exact ⟨q, by rw [Queue.call, queueEmpty_spec h]; rfl, hn, h⟩

/-- **The queue is a bounded FIFO.**  On a queue made by `queue_new` for `n ≥ 1`
bytes, every sequence of calls returns what it returns on a FIFO of capacity `n`,
and leaves the bytes the FIFO is left with.  No call faults: every index into the
block of `n` bytes is below `n`. -/
theorem queue_refines_fifo {n : Nat} {queueBlock : Bool} {block : Option (Vector UInt8 n)}
    {q : Queue} (hn : 1 ≤ n) (hq : queueNew n queueBlock block = some q)
    (calls : List QueueCall) :
    ∃ q', Runs.trace Queue.call q calls =
        .ok (q', (Runs.traceTotal fifoCall (BoundedFifo.empty UInt8 n) calls).2) ∧
      q'.contents = (Runs.traceTotal fifoCall (BoundedFifo.empty UInt8 n) calls).1.items := by
  obtain ⟨hs, hr⟩ := Queue.represents_of_new hn hq
  obtain ⟨q', ht, -, h'⟩ := Runs.trace_simulates fifoCall
    (fun (q : Queue) f => q.bufferSize = n ∧ q.Represents f.items)
    (fun _ _ c h => Queue.call_simulates h.1 h.2 c) (a := BoundedFifo.empty UInt8 n)
    ⟨hs, hr⟩ calls
  exact ⟨q', ht, h'.contents_eq⟩

/-- A queue of two bytes that is filled, drained by one and wraps. -/
theorem queue_refines_fifo_two :
    ∃ q', Runs.trace Queue.call
        { bufferSize := 2, front := 0, rear := 0, isFull := 0, buffer := [0, 0], sized := rfl }
        [.write [1, 2, 3], .read 1, .write [4], .empty, .read 5] =
        .ok (q', [.written 2, .read [1], .written 1, .empty 0, .read [2, 4]]) ∧
      q'.contents = [] :=
  queue_refines_fifo (by decide) (show queueNew 2 true (some #v[0, 0]) = some _ from rfl) _

end BlackHV
