import BlackHV.Serial

/-! # What a guest prints reaches the host

A guest that follows the UART protocol writes a byte to `THR` only directly after it
has read `LSR` with bit 5, transmitter holding register empty.  The device answers
with that bit whatever the state of its guest queue, and `queue_write` stores nothing
on a full queue.  So a byte is lost exactly when it is written to a full queue, and
`serial_output_iff` says that nothing else loses one, over every interleaving of the
guest's accesses with the host's reads and writes.
-/
namespace BlackHV

/-- A step of the guest or of the host. -/
inductive SerialEvent where
  /-- The guest accesses a register. -/
  | guest (access : PortAccess)
  /-- `serial_read` for `len` bytes. -/
  | hostRead (len : Nat)
  /-- `serial_write`. -/
  | hostWrite (buffer : List UInt8)

/-- The devices, with what the guest has written to `THR` of one of them, what
`serial_read` has returned, and whether the guest's last access read `LSR` with
bit 5. -/
structure SerialSession where
  devs : Serials
  written : List UInt8
  returned : List UInt8
  ready : Bool

namespace SerialSession

/-- The session before any access. -/
def start (devs : Serials) : SerialSession :=
  { devs, written := [], returned := [], ready := false }

/-- The bytes written to `THR` after an access. -/
def noteWrite (port : UInt16) (written : List UInt8) : PortAccess → List UInt8
  | .outb p data => if p = port + thr then written ++ [data] else written
  | _ => written

/-- Whether an access read `LSR` with bit 5, transmitter holding register empty. -/
def sawReady (port : UInt16) : PortAccess → PortAnswer → Bool
  | .inb p, .inb (some status) => p == port + lsr && status &&& (0x20 : UInt8) != 0
  | _, _ => false

/-- One step of a session with the device at `address`, whose registers start at
`port`. -/
def step (table : HandlerTable Unit Serials) (port : UInt16) (address : UInt64)
    (s : SerialSession) : SerialEvent → Except Fault SerialSession
  | .guest access => do
      let (devs, answer) ← ioHandle table () s.devs access
      .ok { s with
        devs, written := noteWrite port s.written access, ready := sawReady port access answer }
  | .hostRead len => do
      let (devs, bytes) ← serialRead s.devs address len
      .ok { s with devs, returned := s.returned ++ bytes }
  | .hostWrite buffer => do
      let (devs, _) ← serialWrite s.devs address buffer
      .ok { s with devs }

/-- The guest accesses the device's registers only, and writes to `THR` only directly
after a read of `LSR` with bit 5. -/
def Disciplined (port : UInt16) (s : SerialSession) : SerialEvent → Prop
  | .guest access => (access.port - port).toNat < 8 ∧
      ∀ data, access = .outb (port + thr) data → s.ready = true
  | _ => True

/-- A byte written to `THR` finds the guest queue not full. -/
def HasRoom (port : UInt16) (address : UInt64) (s : SerialSession) : SerialEvent → Prop
  | .guest access => ∀ data, access = .outb (port + thr) data →
      ∀ serial, s.devs address = some serial → serial.guestQueue.isFull ≠ 1
  | _ => True

/-- What the host has been given, followed by the guest queue, is what the guest has
written. -/
def NothingLost (address : UInt64) (s : SerialSession) : Prop :=
  ∃ serial, s.devs address = some serial ∧
    s.returned ++ serial.guestQueue.contents = s.written

/-! ## The steps -/

/-- The registers from `port` on dispatch to the device at `address`. -/
structure Wired (table : HandlerTable Unit Serials) (port : UInt16) (address : UInt64) : Prop where
  nonnull : address ≠ 0
  entry : ∀ p : UInt16, (p - port).toNat < 8 → p ≠ 0xFFFF ∧ table p = serialHandler address

theorem Wired.at_ok {table : HandlerTable Unit Serials} {port : UInt16} {address : UInt64}
    (hw : Wired table port address) {p : UInt16} (hp : (p - port).toNat < 8) :
    table.at p = .ok (serialHandler address) := by
  obtain ⟨hne, hentry⟩ := hw.entry p hp
  rw [HandlerTable.at_ok hne, hentry]

/-- The registers of a device that `serial_new` made. -/
theorem Wired.of_serialNew {table table' : HandlerTable Unit Serials} {devs devs' : Serials}
    {port : UInt16} {n : Nat} {blocks : SerialBlocks n} {address : UInt64} (ha : address ≠ 0)
    (hnew : serialNew table devs port n blocks = .ok (some address, table', devs')) :
    Wired table' port address := by
  refine ⟨ha, fun p hp => ?_⟩
  have hpe : port + UInt16.ofNat (p - port).toNat = p := by
    rw [UInt16.ofNat_toNat, UInt16.add_comm, UInt16.sub_add_cancel]
  exact hpe ▸ (serialNew_ok hnew).2 _ hp

/-- The device at `address` is `serial`, with `guest` in its guest queue. -/
structure Holds (port : UInt16) (address : UInt64) (serial : Serial) (guest : List UInt8)
    (s : SerialSession) : Prop where
  device : s.devs address = some serial
  base : serial.port = port
  guestQueue : serial.guestQueue.Represents guest
  hostQueue : ∃ host, serial.hostQueue.Represents host

variable {table : HandlerTable Unit Serials} {port : UInt16} {address : UInt64} {serial : Serial}
  {guest : List UInt8} {s : SerialSession}

theorem step_guest {access : PortAccess} {devs : Serials} {answer : PortAnswer}
    (h : ioHandle table () s.devs access = .ok (devs, answer)) :
    ∃ s', step table port address s (.guest access) = .ok s' ∧ s'.devs = devs ∧
      s'.written = noteWrite port s.written access ∧ s'.returned = s.returned :=
  ⟨{ s with
      devs, written := noteWrite port s.written access, ready := sawReady port access answer },
    by rw [step, h, ok_bind], rfl, rfl, rfl⟩

/-- A byte written to `THR` is appended if there is room, and dropped if there is none. -/
theorem step_thr (hw : Wired table port address) (h : Holds port address serial guest s)
    (data : UInt8) :
    ∃ serial' s', step table port address s (.guest (.outb (port + thr) data)) = .ok s' ∧
      Holds port address serial'
        (guest ++ [data].take (serial.guestQueue.bufferSize - guest.length)) s' ∧
      s'.written = s.written ++ [data] ∧ s'.returned = s.returned := by
  obtain ⟨q, hq, -, hr⟩ := queueWrite_spec h.guestQueue [data]
  have hthr : port + thr - port = thr := by rw [UInt16.add_comm, UInt16.add_sub_cancel]
  have hat := @Wired.at_ok _ _ _ hw (port + thr) (by rw [hthr]; decide)
  have hout := @serialOutb_thr _ _ _ _ () (port + thr) hw.nonnull h.device (h.base ▸ hthr) _ _ _ hq
  have hio : ioHandle table () s.devs (.outb (port + thr) data) =
      .ok (s.devs.put address { serial with guestQueue := q }, .out true) := by
    simp only [ioHandle, ioHandleOutb, hat, ok_bind, serialHandler, hout]
  obtain ⟨s', hs, hdevs, hwritten, hreturned⟩ := step_guest hio
  refine ⟨{ serial with guestQueue := q }, s', hs,
    ⟨by rw [hdevs]; exact Serials.put_self .., h.base, hr, h.hostQueue⟩, ?_, hreturned⟩
  rw [hwritten, noteWrite, if_pos rfl]

/-- Any other access to a register leaves the device as it is but for the host queue, and keeps
what `queue_read` keeps of that. -/
theorem step_access_of_read {P : Queue → Prop} (hw : Wired table port address)
    (hdev : s.devs address = some serial) (hbase : serial.port = port) (hP : P serial.hostQueue)
    (hread : ∃ q bytes, queueRead serial.hostQueue 1 = .ok (q, bytes) ∧ P q) {access : PortAccess}
    (ha : (access.port - port).toNat < 8) (hthr : ∀ data, access ≠ .outb (port + thr) data) :
    ∃ hostQueue s', step table port address s (.guest access) = .ok s' ∧
      s'.devs address = some { serial with hostQueue } ∧ P hostQueue ∧ s'.written = s.written ∧
      s'.returned = s.returned := by
  have hat := hw.at_ok ha
  cases access with
  | outb p data =>
      have hne : p ≠ port + thr := fun he => hthr data (he ▸ rfl)
      have hreg : p - serial.port ≠ thr := by
        rw [hbase]
        intro he
        exact hne (by rw [← he, UInt16.add_comm, UInt16.sub_add_cancel])
      have hout := @serialOutb_other _ _ _ _ () p hw.nonnull hdev hreg data
      have hio : ioHandle table () s.devs (.outb p data) = .ok (s.devs, .out true) := by
        simp only [ioHandle, ioHandleOutb, (show table.at p = _ from hat), ok_bind, serialHandler,
          hout]
      obtain ⟨s', hs, hdevs, hwritten, hreturned⟩ := step_guest hio
      refine ⟨serial.hostQueue, s', hs, hdevs ▸ hdev, hP, ?_, hreturned⟩
      rw [hwritten, noteWrite, if_neg hne]
  | inb p =>
      obtain ⟨byte, devs', q, hin, hdev', hPq⟩ :=
        @serialInb_spec _ _ _ _ () p _ hw.nonnull hdev hP hread
      have hio : ioHandle table () s.devs (.inb p) = .ok (devs', .inb (some byte)) := by
        simp only [ioHandle, ioHandleInb, (show table.at p = _ from hat), ok_bind, serialHandler,
          hin]
      obtain ⟨s', hs, hdevs, hwritten, hreturned⟩ := step_guest hio
      exact ⟨q, s', hs, hdevs ▸ hdev', hPq, hwritten, hreturned⟩
  | outw p data =>
      have hio : ioHandle table () s.devs (.outw p data) = .ok (s.devs, .out false) := by
        simp only [ioHandle, ioHandleOutw, (show table.at p = _ from hat), ok_bind, serialHandler]
      obtain ⟨s', hs, hdevs, hwritten, hreturned⟩ := step_guest hio
      exact ⟨serial.hostQueue, s', hs, hdevs ▸ hdev, hP, hwritten, hreturned⟩
  | inw p =>
      have hio : ioHandle table () s.devs (.inw p) = .ok (s.devs, .inw none) := by
        simp only [ioHandle, ioHandleInw, (show table.at p = _ from hat), ok_bind, serialHandler]
      obtain ⟨s', hs, hdevs, hwritten, hreturned⟩ := step_guest hio
      exact ⟨serial.hostQueue, s', hs, hdevs ▸ hdev, hP, hwritten, hreturned⟩

theorem step_access (hw : Wired table port address) (h : Holds port address serial guest s)
    {access : PortAccess} (ha : (access.port - port).toNat < 8)
    (hthr : ∀ data, access ≠ .outb (port + thr) data) :
    ∃ serial' s', step table port address s (.guest access) = .ok s' ∧
      Holds port address serial' guest s' ∧ s'.written = s.written ∧ s'.returned = s.returned := by
  obtain ⟨host, hh⟩ := h.hostQueue
  obtain ⟨q, hq, -, hr⟩ := queueRead_spec hh 1
  obtain ⟨hostQueue, s', hs, hdev, hhost, hwritten, hreturned⟩ :=
    step_access_of_read (P := fun q => ∃ host, q.Represents host) hw h.device h.base h.hostQueue
      ⟨q, _, hq, _, hr⟩ ha hthr
  exact ⟨_, s', hs, ⟨hdev, h.base, h.guestQueue, hhost⟩, hwritten, hreturned⟩

/-- `serial_read` moves the oldest bytes from the guest queue to the host. -/
theorem step_hostRead (h : Holds port address serial guest s) (len : Nat) :
    ∃ serial' s', step table port address s (.hostRead len) = .ok s' ∧
      Holds port address serial' (guest.drop len) s' ∧ s'.written = s.written ∧
      s'.returned = s.returned ++ guest.take len := by
  obtain ⟨q, hq, -, hr⟩ := queueRead_spec h.guestQueue len
  have hread : serialRead s.devs address len =
      .ok (s.devs.put address { serial with guestQueue := q }, guest.take len) := by
    simp only [serialRead, Serials.deref_ok h.device, ok_bind, hq]
  exact ⟨{ serial with guestQueue := q },
    { s with
      devs := s.devs.put address { serial with guestQueue := q }
      returned := s.returned ++ guest.take len },
    by rw [step, hread, ok_bind], ⟨Serials.put_self .., h.base, hr, h.hostQueue⟩, rfl, rfl⟩

/-- `serial_write` leaves the guest queue as it is. -/
theorem step_hostWrite (h : Holds port address serial guest s) (buffer : List UInt8) :
    ∃ serial' s', step table port address s (.hostWrite buffer) = .ok s' ∧
      Holds port address serial' guest s' ∧ s'.written = s.written ∧ s'.returned = s.returned := by
  obtain ⟨host, hh⟩ := h.hostQueue
  obtain ⟨q, hq, -, hr⟩ := queueWrite_spec hh buffer
  have hwrite : ∃ count, serialWrite s.devs address buffer =
      .ok (s.devs.put address { serial with hostQueue := q }, count) :=
    ⟨_, by simp only [serialWrite, Serials.deref_ok h.device, ok_bind, hq]; rfl⟩
  obtain ⟨count, hwrite⟩ := hwrite
  exact ⟨{ serial with hostQueue := q },
    { s with devs := s.devs.put address { serial with hostQueue := q } },
    by rw [step, hwrite, ok_bind],
    ⟨Serials.put_self .., h.base, h.guestQueue, _, hr⟩, rfl, rfl⟩

/-! ## The runs -/

theorem nothingLost_iff (h : Holds port address serial guest s) :
    NothingLost address s ↔ s.returned ++ guest = s.written := by
  constructor
  · rintro ⟨serial', hdev, hlost⟩
    rw [h.device] at hdev
    cases hdev
    rwa [h.guestQueue.contents_eq] at hlost
  · intro hlost
    exact ⟨serial, h.device, by rw [h.guestQueue.contents_eq, hlost]⟩

/-- A step that finds room loses nothing. -/
theorem step_keeps (hw : Wired table port address) (h : Holds port address serial guest s)
    (hlost : NothingLost address s) {e : SerialEvent} (hd : Disciplined port s e)
    (hroom : HasRoom port address s e) :
    ∃ s', step table port address s e = .ok s' ∧
      (∃ serial' guest', Holds port address serial' guest' s') ∧ NothingLost address s' := by
  rw [nothingLost_iff h] at hlost
  cases e with
  | guest access =>
      by_cases hthr : ∃ data, access = .outb (port + thr) data
      · obtain ⟨data, rfl⟩ := hthr
        obtain ⟨serial', s', hs, h', hwritten, hreturned⟩ := step_thr hw h data
        refine ⟨s', hs, ⟨_, _, h'⟩, (nothingLost_iff h').mpr ?_⟩
        -- the queue is not full, so it takes the byte
        have hlt : guest.length < serial.guestQueue.bufferSize := by
          have := h.guestQueue.fits
          have := mt h.guestQueue.full_iff.mpr (hroom data rfl serial h.device)
          omega
        obtain ⟨m, hm⟩ := Nat.exists_eq_add_of_lt hlt
        have hfree : serial.guestQueue.bufferSize - guest.length = m + 1 := by omega
        rw [hfree, List.take_succ_cons, List.take_nil, hwritten, hreturned, ← List.append_assoc,
          hlost]
      · obtain ⟨serial', s', hs, h', hwritten, hreturned⟩ :=
          step_access hw h hd.1 fun data he => hthr ⟨data, he⟩
        refine ⟨s', hs, ⟨_, _, h'⟩, (nothingLost_iff h').mpr ?_⟩
        rw [hwritten, hreturned, hlost]
  | hostRead len =>
      obtain ⟨serial', s', hs, h', hwritten, hreturned⟩ := step_hostRead h len
      refine ⟨s', hs, ⟨_, _, h'⟩, (nothingLost_iff h').mpr ?_⟩
      rw [hwritten, hreturned, List.append_assoc, List.take_append_drop, hlost]
  | hostWrite buffer =>
      obtain ⟨serial', s', hs, h', hwritten, hreturned⟩ := step_hostWrite h buffer
      refine ⟨s', hs, ⟨_, _, h'⟩, (nothingLost_iff h').mpr ?_⟩
      rw [hwritten, hreturned, hlost]

/-- A byte written to a full queue is lost. -/
theorem step_breaks (hw : Wired table port address) (h : Holds port address serial guest s)
    (hlost : NothingLost address s) {e : SerialEvent} (hroom : ¬ HasRoom port address s e)
    {s' : SerialSession} (hs : step table port address s e = .ok s') :
    ¬ NothingLost address s' := by
  rw [nothingLost_iff h] at hlost
  cases e with
  | guest access =>
      by_cases hthr : ∃ data, access = .outb (port + thr) data
      · obtain ⟨data, rfl⟩ := hthr
        -- no room means that the flag is set, so the queue takes nothing
        have hfull : serial.guestQueue.isFull = 1 := by
          refine Classical.byContradiction fun hne => hroom ?_
          intro data' _ serial' hdev
          rw [h.device] at hdev
          cases hdev
          exact hne
        obtain ⟨serial₁, s₁, hs₁, h₁, hwritten, hreturned⟩ := step_thr hw h data
        rw [hs₁] at hs
        cases hs
        rw [nothingLost_iff h₁, hwritten, hreturned, h.guestQueue.full_iff.mp hfull, Nat.sub_self,
          List.take_zero, List.append_nil, hlost]
        exact fun he => absurd (congrArg List.length he) (by simp)
      · exact absurd (fun data he => absurd ⟨data, he⟩ hthr) hroom
  | hostRead len => exact absurd trivial hroom
  | hostWrite buffer => exact absurd trivial hroom

end SerialSession

/-- **The guest's output is complete exactly as long as the host keeps up.**  On a
device made by `serial_new` with `n ≥ 1` bytes a queue, in a run whose guest writes to
`THR` only directly after `LSR` showed bit 5, nothing is lost in any state of the run
if and only if no byte is written to `THR` while the guest queue is full. -/
theorem serial_output_iff {table table' : HandlerTable Unit Serials} {devs devs' : Serials}
    {port : UInt16} {n : Nat} {blocks : SerialBlocks n} {address : UInt64} (hn : 1 ≤ n)
    (ha : address ≠ 0)
    (hnew : serialNew table devs port n blocks = .ok (some address, table', devs'))
    {events : List SerialEvent}
    (hd : Runs.EachStep (SerialSession.step table' port address)
      (SerialSession.Disciplined port) (SerialSession.start devs') events) :
    Runs.AlwaysAlong (SerialSession.step table' port address)
        (SerialSession.NothingLost address) (SerialSession.start devs') events ↔
      Runs.EachStep (SerialSession.step table' port address)
        (SerialSession.HasRoom port address) (SerialSession.start devs') events := by
  obtain ⟨⟨guestQueue, hostQueue, hg, hh, rfl⟩, -⟩ := serialNew_ok hnew
  have hw := SerialSession.Wired.of_serialNew ha hnew
  have hstart : SerialSession.Holds port address { port, guestQueue, hostQueue } []
      (SerialSession.start (devs.put address { port, guestQueue, hostQueue })) :=
    ⟨Serials.put_self .., rfl, (Queue.represents_of_new hn hg).2,
      [], (Queue.represents_of_new hn hh).2⟩
  exact Runs.alwaysAlong_iff_eachStep
    (I := fun s => ∃ serial guest, SerialSession.Holds port address serial guest s)
    (fun _ _ ⟨_, _, h⟩ hP hD hC => SerialSession.step_keeps hw h hP hD hC)
    (fun _ _ _ ⟨_, _, h⟩ hP _ hC hs => SerialSession.step_breaks hw h hP hC hs)
    ⟨_, _, hstart⟩ ((SerialSession.nothingLost_iff hstart).mpr rfl) hd

/-- A device of one byte a queue, whose host reads each byte before the next one. -/
theorem serial_output_iff_one :
    ∃ table' devs', serialNew HandlerTable.zero (fun _ => none) 0x3F8 1
        ⟨some 0x1000, (true, some #v[0]), (true, some #v[0])⟩ = .ok (some 0x1000, table', devs') ∧
      (Runs.AlwaysAlong (SerialSession.step table' 0x3F8 0x1000)
          (SerialSession.NothingLost 0x1000) (SerialSession.start devs')
          [.guest (.inb 0x3FD), .guest (.outb 0x3F8 7), .hostRead 1] ↔
        Runs.EachStep (SerialSession.step table' 0x3F8 0x1000)
          (SerialSession.HasRoom 0x3F8 0x1000) (SerialSession.start devs')
          [.guest (.inb 0x3FD), .guest (.outb 0x3F8 7), .hostRead 1]) := by
  refine ⟨_, _, rfl, serial_output_iff (by decide) (by decide)
    (show serialNew HandlerTable.zero (fun _ => none) 0x3F8 1
      ⟨some 0x1000, (true, some #v[0]), (true, some #v[0])⟩ = .ok (some 0x1000, _, _) from rfl) ?_⟩
  refine .cons ⟨by decide, fun _ h => by cases h⟩ rfl ?_
  refine .cons ⟨by decide, fun _ _ => rfl⟩ rfl ?_
  exact .cons trivial rfl trivial

/-- On a device of one byte a queue, a guest that reads `LSR` before each of two bytes
is told both times that the transmitter is empty, and the second byte is lost. -/
theorem serial_output_lost :
    ∃ table' devs', serialNew HandlerTable.zero (fun _ => none) 0x3F8 1
        ⟨some 0x1000, (true, some #v[0]), (true, some #v[0])⟩ = .ok (some 0x1000, table', devs') ∧
      Runs.EachStep (SerialSession.step table' 0x3F8 0x1000)
        (SerialSession.Disciplined 0x3F8) (SerialSession.start devs')
        [.guest (.inb 0x3FD), .guest (.outb 0x3F8 1), .guest (.inb 0x3FD),
          .guest (.outb 0x3F8 2)] ∧
      ¬ Runs.AlwaysAlong (SerialSession.step table' 0x3F8 0x1000)
        (SerialSession.NothingLost 0x1000) (SerialSession.start devs')
        [.guest (.inb 0x3FD), .guest (.outb 0x3F8 1), .guest (.inb 0x3FD),
          .guest (.outb 0x3F8 2)] := by
  refine ⟨_, _, rfl, ?_, fun h => ?_⟩
  · refine .cons ⟨by decide, fun _ h => by cases h⟩ rfl ?_
    refine .cons ⟨by decide, fun _ _ => rfl⟩ rfl ?_
    refine .cons ⟨by decide, fun _ h => by cases h⟩ rfl ?_
    exact .cons ⟨by decide, fun _ _ => rfl⟩ rfl trivial
  · obtain ⟨s, hs, serial, hdev, hlost⟩ := h.last
    cases hs
    cases hdev
    exact absurd hlost (by decide)

end BlackHV
