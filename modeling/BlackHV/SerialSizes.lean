import BlackHV.SerialOutput

/-! # The sizes of the queues of a serial port

`serial_new` makes its two queues with any size that `malloc` has a block for, 0 included.
A queue of size 0 is neither full nor is anything in it: `queue_read` and `queue_empty`
never get as far as its buffer, but `queue_write` stores before it looks at anything.
-/
namespace BlackHV

/-- A queue without room. -/
structure Queue.Hollow (q : Queue) : Prop where
  size : q.bufferSize = 0
  flag : q.isFull = 0
  indices : q.front = q.rear

namespace Queue.Hollow
variable {q : Queue}

theorem of_new {queueBlock : Bool} {block : Option (Vector UInt8 0)}
    (h : queueNew 0 queueBlock block = some q) : q.Hollow := by
  unfold queueNew at h
  split at h
  · obtain ⟨b, -, rfl⟩ := Option.map_eq_some_iff.mp h
    exact ⟨rfl, rfl, rfl⟩
  · cases h

/-- There is nothing to read. -/
theorem queueRead_eq (h : q.Hollow) (size : Nat) : queueRead q size = .ok (q, []) := by
  rw [queueRead, if_neg]
  simp [queueReadGuard, h.flag, h.indices]

theorem queueWrite_nil : queueWrite q [] = .ok (q, 0) := if_neg (by simp [queueWriteGuard])

/-- The first store of the loop is at the end of the buffer. -/
theorem queueWrite_eq (h : q.Hollow) {buffer : List UInt8} (hb : buffer ≠ []) :
    queueWrite q buffer = .error .outOfBounds := by
  obtain ⟨b, rest, rfl⟩ := List.exists_cons_of_ne_nil hb
  have hguard : queueWriteGuard q (b :: rest).length = true := by
    simp [queueWriteGuard, h.flag]
  have hstore : q.store q.rear b = .error .outOfBounds := by
    refine if_neg ?_
    rw [q.sized, h.size]
    exact Nat.not_lt_zero _
  simp only [queueWrite, hguard, if_true, queueWriteBody, Queue.writeLoop, hstore, error_bind]

end Queue.Hollow

namespace SerialEvent

/-- A guest's access is to the registers of the device. -/
def OnRegisters (port : UInt16) : SerialEvent → Prop
  | .guest access => (access.port - port).toNat < 8
  | .hostRead _ | .hostWrite _ => True

/-- The guest writes to `THR`, or the host at least one byte. -/
def Writes (port : UInt16) : SerialEvent → Prop
  | .guest access => ∃ data, access = .outb (port + thr) data
  | .hostRead _ => False
  | .hostWrite buffer => buffer ≠ []

end SerialEvent

namespace SerialSession
variable {table : HandlerTable Unit Serials} {port : UInt16} {address : UInt64} {serial : Serial}
  {guest : List UInt8} {s : SerialSession}

/-- On a device with room in its queues, no step faults. -/
theorem step_total (hw : Wired table port address)
    (h : ∃ serial guest, Holds port address serial guest s) {e : SerialEvent}
    (he : e.OnRegisters port) :
    ∃ s', step table port address s e = .ok s' ∧
      ∃ serial guest, Holds port address serial guest s' := by
  obtain ⟨serial, guest, h⟩ := h
  cases e with
  | guest access =>
      by_cases hthr : ∃ data, access = .outb (port + thr) data
      · obtain ⟨data, rfl⟩ := hthr
        obtain ⟨serial', s', hs, h', -⟩ := step_thr hw h data
        exact ⟨s', hs, _, _, h'⟩
      · obtain ⟨serial', s', hs, h', -⟩ := step_access hw h he fun data he' => hthr ⟨data, he'⟩
        exact ⟨s', hs, _, _, h'⟩
  | hostRead len =>
      obtain ⟨serial', s', hs, h', -⟩ := step_hostRead h len
      exact ⟨s', hs, _, _, h'⟩
  | hostWrite buffer =>
      obtain ⟨serial', s', hs, h', -⟩ := step_hostWrite h buffer
      exact ⟨s', hs, _, _, h'⟩

/-- The device at `address` has queues of size 0. -/
structure HoldsHollow (port : UInt16) (address : UInt64) (serial : Serial) (s : SerialSession) :
    Prop where
  device : s.devs address = some serial
  base : serial.port = port
  guestQueue : serial.guestQueue.Hollow
  hostQueue : serial.hostQueue.Hollow

/-- Where nothing is written, such a device stays as it is. -/
theorem step_hollow (hw : Wired table port address)
    (h : ∃ serial, HoldsHollow port address serial s) {e : SerialEvent}
    (hregs : e.OnRegisters port) (hquiet : ¬ e.Writes port) :
    ∃ s', step table port address s e = .ok s' ∧ ∃ serial, HoldsHollow port address serial s' := by
  obtain ⟨serial, h⟩ := h
  cases e with
  | guest access =>
      obtain ⟨hostQueue, s', hs, hdev, hhost, -⟩ :=
        step_access_of_read hw h.device h.base h.hostQueue
          ⟨_, _, h.hostQueue.queueRead_eq 1, h.hostQueue⟩ hregs fun data he => hquiet ⟨data, he⟩
      exact ⟨s', hs, _, hdev, h.base, h.guestQueue, hhost⟩
  | hostRead len =>
      have hread : serialRead s.devs address len = .ok (s.devs.put address serial, []) := by
        simp only [serialRead, Serials.deref_ok h.device, ok_bind, h.guestQueue.queueRead_eq]
      exact ⟨{ s with devs := s.devs.put address serial, returned := s.returned ++ [] },
        by rw [step, hread, ok_bind], serial, Serials.put_self .., h.base, h.guestQueue,
        h.hostQueue⟩
  | hostWrite buffer =>
      obtain rfl := not_not.mp hquiet
      have hwrite : serialWrite s.devs address [] = .ok (s.devs.put address serial, 0) := by
        simp only [serialWrite, Serials.deref_ok h.device, ok_bind, Queue.Hollow.queueWrite_nil]
      exact ⟨{ s with devs := s.devs.put address serial }, by rw [step, hwrite, ok_bind], serial,
        Serials.put_self .., h.base, h.guestQueue, h.hostQueue⟩

/-- What is written to it is stored outside its buffer. -/
theorem step_hollow_writes (hw : Wired table port address)
    (h : ∃ serial, HoldsHollow port address serial s) {e : SerialEvent} (he : e.Writes port) :
    step table port address s e = .error .outOfBounds := by
  obtain ⟨serial, h⟩ := h
  cases e with
  | guest access =>
      obtain ⟨data, rfl⟩ := he
      have hthr : port + thr - port = thr := by rw [UInt16.add_comm, UInt16.add_sub_cancel]
      have hat := @Wired.at_ok _ _ _ hw (port + thr) (by rw [hthr]; decide)
      have hbase : port + thr - serial.port = thr := h.base ▸ hthr
      have hq := h.guestQueue.queueWrite_eq (List.cons_ne_nil data [])
      simp only [step, ioHandle, ioHandleOutb, hat, ok_bind, serialHandler, serialOutb,
        if_neg hw.nonnull, Serials.deref_ok h.device, hbase, if_true, writeData, hq, error_bind]
  | hostRead len => exact absurd he id
  | hostWrite buffer =>
      have hq := h.hostQueue.queueWrite_eq he
      simp only [step, serialWrite, Serials.deref_ok h.device, ok_bind, hq, error_bind]

/-- The run reaches no remainder by zero and no access outside a buffer. -/
def QueueSafe (table : HandlerTable Unit Serials) (port : UInt16) (address : UInt64)
    (s : SerialSession) (events : List SerialEvent) : Prop :=
  ∀ fault, Runs.run (step table port address) s events = .error fault →
    fault ≠ .remainderByZero ∧ fault ≠ .outOfBounds

theorem queueSafe_of_ok {events : List SerialEvent}
    (h : ∃ s', Runs.run (step table port address) s events = .ok s') :
    QueueSafe table port address s events := by
  obtain ⟨s', hrun⟩ := h
  intro fault hfault
  rw [hrun] at hfault
  cases hfault

end SerialSession

/-- **Every size but 0 is safe.**  On a device that `serial_new` made with queues of `n` bytes, a
run is safe exactly if there is room, or nothing is ever written. -/
theorem serial_sizes_safe_iff {table table' : HandlerTable Unit Serials} {devs devs' : Serials}
    {port : UInt16} {n : Nat} {blocks : SerialBlocks n} {address : UInt64} (ha : address ≠ 0)
    (hnew : serialNew table devs port n blocks = .ok (some address, table', devs'))
    {events : List SerialEvent} (hregs : ∀ e ∈ events, e.OnRegisters port) :
    SerialSession.QueueSafe table' port address (SerialSession.start devs') events ↔
      1 ≤ n ∨ ∀ e ∈ events, ¬ e.Writes port := by
  have hw := SerialSession.Wired.of_serialNew ha hnew
  obtain ⟨⟨guestQueue, hostQueue, hg, hh, rfl⟩, -⟩ := serialNew_ok hnew
  rcases Nat.eq_zero_or_pos n with rfl | hn
  · have hstart : SerialSession.HoldsHollow port address { port, guestQueue, hostQueue }
        (SerialSession.start (devs.put address { port, guestQueue, hostQueue })) :=
      ⟨Serials.put_self .., rfl, .of_new hg, .of_new hh⟩
    rw [or_iff_right (by decide)]
    constructor
    · intro hsafe
      by_contra hwrites
      have hfault := Runs.run_eq_error (E := fun e : SerialEvent => ¬ e.Writes port)
        (I := fun s => ∃ serial, SerialSession.HoldsHollow port address serial s)
        (fun _ _ h => SerialSession.step_hollow hw h)
        (fun _ _ h he => SerialSession.step_hollow_writes hw h (not_not.mp he)) ⟨_, hstart⟩ hregs
        hwrites
      exact (hsafe _ hfault).2 rfl
    · intro hquiet
      obtain ⟨s', hrun, -⟩ := Runs.run_of_eachStep
        (fun _ _ h he => SerialSession.step_hollow hw h he.1 he.2) ⟨_, hstart⟩
        (Runs.eachStep_of_forall (E := fun e : SerialEvent => e.OnRegisters port ∧ ¬ e.Writes port)
          fun e he => ⟨hregs e he, hquiet e he⟩)
      exact SerialSession.queueSafe_of_ok ⟨s', hrun⟩
  · have hstart : SerialSession.Holds port address { port, guestQueue, hostQueue } []
        (SerialSession.start (devs.put address { port, guestQueue, hostQueue })) :=
      ⟨Serials.put_self .., rfl, (Queue.represents_of_new hn hg).2, [],
        (Queue.represents_of_new hn hh).2⟩
    obtain ⟨s', hrun, -⟩ := Runs.run_of_eachStep
      (fun _ _ h he => SerialSession.step_total hw h he) ⟨_, _, hstart⟩
      (Runs.eachStep_of_forall (E := fun e : SerialEvent => e.OnRegisters port) hregs)
    exact ⟨fun _ => Or.inl hn, fun _ => SerialSession.queueSafe_of_ok ⟨s', hrun⟩⟩

/-- A device of size 0 that is only asked for its line status and for what is there to read. -/
theorem serial_sizes_safe_iff_zero :
    ∃ table' devs', serialNew HandlerTable.zero (fun _ => none) 0x3F8 0
        ⟨some 0x1000, (true, some #v[]), (true, some #v[])⟩ = .ok (some 0x1000, table', devs') ∧
      SerialSession.QueueSafe table' 0x3F8 0x1000 (SerialSession.start devs')
        [.guest (.inb 0x3FD), .guest (.inb 0x3F8), .hostRead 4, .hostWrite []] := by
  refine ⟨_, _, rfl, (serial_sizes_safe_iff (by decide)
    (show serialNew HandlerTable.zero (fun _ => none) 0x3F8 0
      ⟨some 0x1000, (true, some #v[]), (true, some #v[])⟩ = .ok (some 0x1000, _, _) from rfl)
    ?_).mpr (Or.inr ?_)⟩
  · simp only [List.forall_mem_cons]
    exact ⟨show ((0x3FD : UInt16) - 0x3F8).toNat < 8 by decide,
      show ((0x3F8 : UInt16) - 0x3F8).toNat < 8 by decide, trivial, trivial,
      fun _ h => absurd h List.not_mem_nil⟩
  · simp only [List.forall_mem_cons]
    refine ⟨?_, ?_, id, fun h => h rfl, fun _ h => absurd h List.not_mem_nil⟩
    · rintro ⟨data, h⟩
      cases h
    · rintro ⟨data, h⟩
      cases h

/-- A device of size 0: a byte that the guest writes to `THR` is stored outside the buffer. -/
theorem serial_size_zero_overflows :
    ∃ table' devs', serialNew HandlerTable.zero (fun _ => none) 0x3F8 0
        ⟨some 0x1000, (true, some #v[]), (true, some #v[])⟩ = .ok (some 0x1000, table', devs') ∧
      ¬ SerialSession.QueueSafe table' 0x3F8 0x1000 (SerialSession.start devs')
        [.guest (.outb 0x3F8 0x41)] :=
  ⟨_, _, rfl, fun h => (h .outOfBounds rfl).2 rfl⟩

end BlackHV
