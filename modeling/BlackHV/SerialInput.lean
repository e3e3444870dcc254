import BlackHV.Serial

/-! # What the host types reaches the guest

The other direction of a serial device: the host thread calls `serial_write`, and the
guest takes the bytes out of `RBR`, each of them directly after `LSR` has shown bit 0,
data ready.  The guest's `LSR` is `queue_empty` and its `RBR` starts with the guard of
`queue_read`.  Both read `is_full`, `front` and `rear` one after the other and without
the mutex; the bodies under the mutex are one step each.

The guard can be wrong in one way only.  It has found `is_full` clear; then
`serial_write` fills the queue; now the indices are equal, and the guard takes the full
queue for an empty one.  `RBR` has no way to say so, and gives the guest a zero that
nobody has sent.
-/
namespace BlackHV

/-- An access of the guest to the device's registers. -/
inductive InputAccess where
  | lsr
  | rbr
  | thr (data : UInt8)
  /-- Any other register, read or written. -/
  | other

/-- Where the guest is.  Outside an access it knows whether the last one has read `LSR`
with bit 0.  `queue_empty` and the guard of `queue_read` read `is_full` and then the
indices, in either order. -/
inductive GuestPc where
  | idle (ready : Bool)
  | emptyFull
  | emptyFront
  | emptyThenRear (front : Nat)
  | emptyRear
  | emptyThenFront (rear : Nat)
  | guardFull
  | guardFront
  | guardThenRear (front : Nat)
  | guardRear
  | guardThenFront (rear : Nat)
  | body

/-- Where the host is: outside `serial_write`, or past its guard. -/
inductive HostPc where
  | idle
  | body (buffer : List UInt8)

/-- A device with its two threads, the bytes `serial_write` has accepted and those that
reads of `RBR` have given to the guest. -/
structure SerialInput where
  serial : Serial
  guest : GuestPc
  host : HostPc
  accepted : List UInt8
  received : List UInt8

/-- Who takes the next step.  A thread outside any call makes the given one; `frontFirst`
is the order in which the guest reads the indices. -/
inductive InputTurn where
  | guest (access : InputAccess) (frontFirst : Bool)
  | host (buffer : List UInt8)

namespace SerialInput

/-- Both threads are outside the device. -/
def start (serial : Serial) : SerialInput :=
  { serial, guest := .idle false, host := .idle, accepted := [], received := [] }

/-- The guest's thread goes on at `pc`. -/
def goto (s : SerialInput) (pc : GuestPc) : SerialInput := { s with guest := pc }

/-- A read of `RBR` gives the guest a byte. -/
def receive (s : SerialInput) (data : UInt8) : SerialInput :=
  { s with guest := .idle false, received := s.received ++ [data] }

/-- An access the guest starts. -/
def access (s : SerialInput) : InputAccess → Except Fault SerialInput
  | .lsr => .ok (s.goto .emptyFull)
  | .rbr => .ok (s.goto .guardFull)
  | .thr data => do
      let (guestQueue, _) ← queueWrite s.serial.guestQueue [data]
      .ok { s with serial := { s.serial with guestQueue }, guest := .idle false }
  | .other => .ok (s.goto (.idle false))

/-- One step of the guest. -/
def guestStep (s : SerialInput) (start : InputAccess) (frontFirst : Bool) :
    Except Fault SerialInput :=
  match s.guest with
  | .idle _ => s.access start
  | .emptyFull =>
      if s.serial.hostQueue.isFull ≠ 1 then
        .ok (s.goto (if frontFirst then .emptyFront else .emptyRear))
      else
        .ok (s.goto (.idle true))
  | .emptyFront => .ok (s.goto (.emptyThenRear s.serial.hostQueue.front))
  | .emptyThenRear front => .ok (s.goto (.idle (front ≠ s.serial.hostQueue.rear)))
  | .emptyRear => .ok (s.goto (.emptyThenFront s.serial.hostQueue.rear))
  | .emptyThenFront rear => .ok (s.goto (.idle (s.serial.hostQueue.front ≠ rear)))
  | .guardFull =>
      if s.serial.hostQueue.isFull = 0 then
        .ok (s.goto (if frontFirst then .guardFront else .guardRear))
      else
        .ok (s.goto .body)
  | .guardFront => .ok (s.goto (.guardThenRear s.serial.hostQueue.front))
  | .guardThenRear front =>
      .ok (if front = s.serial.hostQueue.rear then s.receive 0 else s.goto .body)
  | .guardRear => .ok (s.goto (.guardThenFront s.serial.hostQueue.rear))
  | .guardThenFront rear =>
      .ok (if s.serial.hostQueue.front = rear then s.receive 0 else s.goto .body)
  | .body => do
      let (hostQueue, bytes) ← queueReadBody s.serial.hostQueue 1
      .ok ({ s with serial := { s.serial with hostQueue } }.receive (bytes.headD 0))

/-- One step of the host. -/
def hostStep (s : SerialInput) (buffer : List UInt8) : Except Fault SerialInput :=
  match s.host with
  | .idle =>
      .ok (if queueWriteGuard s.serial.hostQueue buffer.length then
        { s with host := .body buffer } else s)
  | .body buffer => do
      let (hostQueue, i) ← queueWriteBody s.serial.hostQueue buffer
      .ok { s with
        serial := { s.serial with hostQueue }
        host := .idle
        accepted := s.accepted ++ buffer.take i }

/-- One step of the device. -/
def step (s : SerialInput) : InputTurn → Except Fault SerialInput
  | .guest access frontFirst => s.guestStep access frontFirst
  | .host buffer => s.hostStep buffer

/-- The guest reads `RBR` only directly after `LSR` with bit 0. -/
def Disciplined (s : SerialInput) : InputTurn → Prop
  | .guest .rbr _ => s.guest ≠ .idle false
  | _ => True

/-- Every byte the guest has received was the oldest one accepted and not delivered: the
bytes received, followed by those in the queue, are the bytes accepted. -/
def Delivered (s : SerialInput) : Prop :=
  s.received ++ s.serial.hostQueue.contents = s.accepted

/-- The guard of a read of `RBR` does not find the indices equal: the queue has not been
filled since the guard found `is_full` clear, or not before it read `rear`. -/
def NotFilled (s : SerialInput) : InputTurn → Prop
  | .guest _ _ =>
      match s.guest with
      | .guardThenRear _ => s.serial.hostQueue.isFull ≠ 1
      | .guardThenFront rear => s.serial.hostQueue.front ≠ rear
      | _ => True
  | _ => True

/-! ## The invariant -/

/-- What the guest knows of the host queue.  Only the guest takes bytes out of it, so
what it has seen there is still there. -/
def GuestOk (q : Queue) (items : List UInt8) : GuestPc → Prop
  | .idle ready => ready = true → items ≠ []
  | .emptyFull => True
  | .emptyFront => True
  | .emptyThenRear front => front = q.front
  | .emptyRear => True
  | .emptyThenFront rear => q.front ≠ rear → items ≠ []
  | .guardThenRear front => front = q.front ∧ items ≠ []
  | _ => items ≠ []

/-- What the host knows of it. -/
def HostOk (q : Queue) (items : List UInt8) : HostPc → Prop
  | .idle => True
  | .body buffer => buffer ≠ [] ∧ items.length < q.bufferSize

/-- The invariant, with the bytes in the host queue. -/
structure Inv (s : SerialInput) (items : List UInt8) : Prop where
  hostQueue : s.serial.hostQueue.Represents items
  guestQueue : ∃ guest, s.serial.guestQueue.Represents guest
  guestOk : GuestOk s.serial.hostQueue items s.guest
  hostOk : HostOk s.serial.hostQueue items s.host

theorem GuestOk.stable {q q' : Queue} {items items' : List UInt8} {pc : GuestPc}
    (h : GuestOk q items pc) (hf : q'.front = q.front) (hi : items ≠ [] → items' ≠ []) :
    GuestOk q' items' pc := by
  cases pc with
  | idle ready => exact fun hr => hi (h hr)
  | emptyThenRear front => exact h.trans hf.symm
  | emptyThenFront rear =>
      intro hn
      rw [hf] at hn
      exact hi (h hn)
  | guardThenRear front => exact ⟨h.1.trans hf.symm, hi h.2⟩
  | emptyFull | emptyFront | emptyRear => trivial
  | guardFull | guardFront | guardRear | guardThenFront _ | body => exact hi h

namespace Inv
variable {s : SerialInput} {items : List UInt8}

/-- A step of the guest that changes nothing but where it is. -/
theorem goto (h : Inv s items) {pc : GuestPc} (hok : GuestOk s.serial.hostQueue items pc) :
    Inv (s.goto pc) items := ⟨h.hostQueue, h.guestQueue, hok, h.hostOk⟩

/-- The indices differ on a queue that is not empty and not full, and are equal on a full
one. -/
theorem indices (h : Inv s items) (hne : items ≠ []) :
    s.serial.hostQueue.front = s.serial.hostQueue.rear ↔ s.serial.hostQueue.isFull = 1 := by
  rw [h.hostQueue.holds.front_eq_rear_iff, h.hostQueue.full_iff, s.serial.hostQueue.sized,
    or_iff_right hne]

theorem delivered_iff (h : Inv s items) :
    s.Delivered ↔ s.received ++ items = s.accepted := by
  rw [Delivered, h.hostQueue.contents_eq]

/-! ## Steps of the guest -/

/-- The body of `queue_read` gives the guest the oldest byte. -/
theorem guest_body (h : Inv s items) (hne : items ≠ []) (hd : s.received ++ items = s.accepted)
    {start : InputAccess} {frontFirst : Bool} (hg : s.guest = .body) :
    ∃ s' items', s.guestStep start frontFirst = .ok s' ∧ Inv s' items' ∧
      s'.received ++ items' = s'.accepted := by
  obtain ⟨b, rest, rfl⟩ := List.exists_cons_of_ne_nil hne
  obtain ⟨q, he, hsize, hr⟩ := queueReadBody_spec h.hostQueue hne Nat.one_ne_zero
  refine ⟨({ s with serial := { s.serial with hostQueue := q } } : SerialInput).receive b, rest,
    ?_, ⟨hr, h.guestQueue, ?_, ?_⟩, ?_⟩
  · simp only [guestStep, hg, he, ok_bind, List.take_succ_cons, List.headD_cons]
  · intro hready
    cases hready
  · have hok := h.hostOk
    show HostOk q rest s.host
    cases hh : s.host with
    | idle => trivial
    | body buffer =>
        rw [hh] at hok
        refine ⟨hok.1, ?_⟩
        rw [hsize]
        exact Nat.lt_of_succ_lt hok.2
  · show s.received ++ [b] ++ rest = s.accepted
    rw [List.append_assoc]
    exact hd

/-- An access the guest starts leaves the host queue alone; `RBR` is read where the queue
has bytes. -/
theorem guest_access (h : Inv s items) (hd : s.received ++ items = s.accepted)
    {access : InputAccess} (hne : access = .rbr → items ≠ []) :
    ∃ s', s.access access = .ok s' ∧ Inv s' items ∧ s'.received ++ items = s'.accepted := by
  cases access with
  | lsr => exact ⟨_, rfl, h.goto trivial, hd⟩
  | rbr => exact ⟨_, rfl, h.goto (hne rfl), hd⟩
  | thr data =>
      obtain ⟨guest, hguest⟩ := h.guestQueue
      obtain ⟨q, he, -, hr⟩ := queueWrite_spec hguest [data]
      refine ⟨{ s with serial := { s.serial with guestQueue := q }, guest := .idle false },
        ?_, ⟨h.hostQueue, ⟨_, hr⟩, ?_, h.hostOk⟩, hd⟩
      · simp only [access, he, ok_bind]
      · intro hready
        cases hready
  | other => exact ⟨_, rfl, h.goto (fun hready => by cases hready), hd⟩

/-- **A step of the guest** that does not take a full queue for an empty one delivers
nothing, or the oldest byte. -/
theorem guest_step (h : Inv s items) (hd : s.received ++ items = s.accepted)
    {start : InputAccess} {frontFirst : Bool} (hdis : s.Disciplined (.guest start frontFirst))
    (hc : s.NotFilled (.guest start frontFirst)) :
    ∃ s' items', s.guestStep start frontFirst = .ok s' ∧ Inv s' items' ∧
      s'.received ++ items' = s'.accepted := by
  have hok := h.guestOk
  cases hg : s.guest with
  | idle ready =>
      rw [hg] at hok
      simp only [guestStep, hg]
      obtain ⟨s', he, h', hd'⟩ := h.guest_access hd fun hrbr : start = .rbr => by
        subst hrbr
        cases ready with
        | true => exact hok rfl
        | false => exact absurd hg hdis
      exact ⟨s', items, he, h', hd'⟩
  | emptyFull =>
      simp only [guestStep, hg]
      by_cases hf : s.serial.hostQueue.isFull = 1
      · rw [if_neg (not_not.mpr hf)]
        refine ⟨_, items, rfl, h.goto fun _ hnil => ?_, hd⟩
        have hlen := h.hostQueue.full_iff.mp hf
        have hpos := h.hostQueue.size_pos
        rw [hnil, List.length_nil] at hlen
        omega
      · rw [if_pos hf]
        cases frontFirst with
        | false => exact ⟨_, items, rfl, h.goto trivial, hd⟩
        | true => exact ⟨_, items, rfl, h.goto trivial, hd⟩
  | emptyFront =>
      simp only [guestStep, hg]
      exact ⟨_, items, rfl, h.goto rfl, hd⟩
  | emptyThenRear front =>
      rw [hg] at hok
      simp only [guestStep, hg]
      refine ⟨_, items, rfl, h.goto fun hready hnil => ?_, hd⟩
      have hf : front = s.serial.hostQueue.front := hok
      have hne := of_decide_eq_true hready
      rw [hf] at hne
      exact hne (h.hostQueue.holds.front_eq_rear_iff.mpr (Or.inl hnil))
  | emptyRear =>
      simp only [guestStep, hg]
      refine ⟨_, items, rfl, h.goto fun hne hnil => ?_, hd⟩
      exact hne (h.hostQueue.holds.front_eq_rear_iff.mpr (Or.inl hnil))
  | emptyThenFront rear =>
      rw [hg] at hok
      simp only [guestStep, hg]
      exact ⟨_, items, rfl, h.goto fun hready => hok (of_decide_eq_true hready), hd⟩
  | guardFull =>
      rw [hg] at hok
      simp only [guestStep, hg]
      by_cases hf : s.serial.hostQueue.isFull = 0
      · rw [if_pos hf]
        cases frontFirst with
        | false => exact ⟨_, items, rfl, h.goto hok, hd⟩
        | true => exact ⟨_, items, rfl, h.goto hok, hd⟩
      · rw [if_neg hf]
        exact ⟨_, items, rfl, h.goto hok, hd⟩
  | guardFront =>
      rw [hg] at hok
      simp only [guestStep, hg]
      exact ⟨_, items, rfl, h.goto ⟨rfl, hok⟩, hd⟩
  | guardThenRear front =>
      rw [hg] at hok
      simp only [NotFilled, hg] at hc
      obtain ⟨rfl, hne⟩ := hok
      simp only [guestStep, hg]
      rw [if_neg (mt (h.indices hne).mp hc)]
      exact ⟨_, items, rfl, h.goto hne, hd⟩
  | guardRear =>
      rw [hg] at hok
      simp only [guestStep, hg]
      exact ⟨_, items, rfl, h.goto hok, hd⟩
  | guardThenFront rear =>
      rw [hg] at hok
      simp only [NotFilled, hg] at hc
      simp only [guestStep, hg]
      rw [if_neg hc]
      exact ⟨_, items, rfl, h.goto hok, hd⟩
  | body =>
      rw [hg] at hok
      exact h.guest_body hok hd hg

/-- A guard that takes a full queue for an empty one gives the guest a byte too many. -/
theorem guest_breaks (h : Inv s items) (hd : s.received ++ items = s.accepted)
    {start : InputAccess} {frontFirst : Bool} (hc : ¬ s.NotFilled (.guest start frontFirst))
    {s' : SerialInput} (he : s.guestStep start frontFirst = .ok s') : ¬ s'.Delivered := by
  have hreceived : s' = s.receive 0 := by
    have hok := h.guestOk
    cases hg : s.guest with
    | guardThenRear front =>
        rw [hg] at hok
        simp only [NotFilled, hg, ne_eq, not_not] at hc
        obtain ⟨rfl, hne⟩ := hok
        simp only [guestStep, hg, if_pos ((h.indices hne).mpr hc)] at he
        exact (Except.ok.inj he).symm
    | guardThenFront rear =>
        simp only [NotFilled, hg, ne_eq, not_not] at hc
        simp only [guestStep, hg, if_pos hc] at he
        exact (Except.ok.inj he).symm
    | _ =>
        simp only [NotFilled, hg] at hc
        exact absurd trivial hc
  rw [hreceived]
  intro hd'
  have hlen := congrArg List.length hd
  have hlen' : (s.received ++ [0] ++ s.serial.hostQueue.contents).length = s.accepted.length :=
    congrArg List.length hd'
  rw [h.hostQueue.contents_eq] at hlen'
  simp only [List.length_append, List.length_singleton] at hlen hlen'
  omega

/-! ## Steps of the host -/

theorem host_step (h : Inv s items) (hd : s.received ++ items = s.accepted) (buffer : List UInt8) :
    ∃ s' items', s.hostStep buffer = .ok s' ∧ Inv s' items' ∧
      s'.received ++ items' = s'.accepted := by
  have hok := h.hostOk
  cases hh : s.host with
  | idle =>
      simp only [hostStep, hh]
      by_cases hguard : queueWriteGuard s.serial.hostQueue buffer.length = true
      · rw [if_pos hguard]
        obtain ⟨hb, hl⟩ := (queueWriteGuard_iff h.hostQueue _).mp hguard
        exact ⟨_, items, rfl, ⟨h.hostQueue, h.guestQueue, h.guestOk,
          mt List.length_eq_zero_iff.mpr hb, hl⟩, hd⟩
      · rw [if_neg hguard]
        exact ⟨s, items, rfl, h, hd⟩
  | body pending =>
      rw [hh] at hok
      obtain ⟨hb, hl⟩ := hok
      obtain ⟨q, he, -, hr⟩ := queueWriteBody_spec h.hostQueue hl hb
      have hfront := queueWriteBody_front he
      refine ⟨{ s with
          serial := { s.serial with hostQueue := q }
          host := .idle
          accepted := s.accepted ++ pending.take
            (min pending.length (s.serial.hostQueue.bufferSize - items.length)) },
        _, ?_, ⟨hr, h.guestQueue, ?_, trivial⟩, ?_⟩
      · simp only [hostStep, hh, he, ok_bind]
      · exact h.guestOk.stable hfront fun hne => List.append_ne_nil_of_left_ne_nil hne _
      · show s.received ++ (items ++ _) = s.accepted ++ _
        rw [← List.append_assoc, hd, List.take_eq_take_min, Nat.min_comm]

end Inv

/-- A step that meets `NotFilled` keeps the invariant and delivers in order. -/
theorem step_keeps {s : SerialInput} {turn : InputTurn} (hI : ∃ items, Inv s items)
    (hP : s.Delivered) (hD : s.Disciplined turn) (hC : s.NotFilled turn) :
    ∃ s', s.step turn = .ok s' ∧ (∃ items, Inv s' items) ∧ s'.Delivered := by
  obtain ⟨items, h⟩ := hI
  have hd := h.delivered_iff.mp hP
  have hstep : ∃ s' items', s.step turn = .ok s' ∧ Inv s' items' ∧
      s'.received ++ items' = s'.accepted := by
    cases turn with
    | guest access frontFirst => exact h.guest_step hd hD hC
    | host buffer => exact h.host_step hd buffer
  obtain ⟨s', items', he, h', hd'⟩ := hstep
  exact ⟨s', he, ⟨items', h'⟩, h'.delivered_iff.mpr hd'⟩

theorem step_breaks {s s' : SerialInput} {turn : InputTurn} (hI : ∃ items, Inv s items)
    (hP : s.Delivered) (hC : ¬ s.NotFilled turn) (he : s.step turn = .ok s') : ¬ s'.Delivered := by
  obtain ⟨items, h⟩ := hI
  cases turn with
  | guest access frontFirst => exact h.guest_breaks (h.delivered_iff.mp hP) hC he
  | host buffer => exact absurd trivial hC

end SerialInput

/-- **What the host writes reaches the guest in order, exactly as long as no read of
`RBR` takes a full queue for an empty one.**  On a device made by `serial_new` with
`n ≥ 1` bytes a queue, whose guest reads `RBR` only directly after `LSR` showed bit 0,
and for any interleaving of the two threads: every byte the guest receives is the oldest
one accepted and not delivered, in every state of the run, if and only if no guard of
`queue_read` that has found `is_full` clear then finds the indices equal. -/
theorem serial_input_iff {table table' : HandlerTable Unit Serials} {devs devs' : Serials}
    {port : UInt16} {n : Nat} {blocks : SerialBlocks n} {address : UInt64} {serial : Serial}
    (hn : 1 ≤ n)
    (hnew : serialNew table devs port n blocks = .ok (some address, table', devs'))
    (hserial : devs' address = some serial) {turns : List InputTurn}
    (hd : Runs.EachStep SerialInput.step SerialInput.Disciplined (SerialInput.start serial)
      turns) :
    Runs.AlwaysAlong SerialInput.step SerialInput.Delivered (SerialInput.start serial) turns ↔
      Runs.EachStep SerialInput.step SerialInput.NotFilled (SerialInput.start serial) turns := by
  obtain ⟨⟨guestQueue, hostQueue, hg, hh, rfl⟩, -⟩ := serialNew_ok hnew
  rw [Serials.put_self] at hserial
  cases hserial
  have hstart : SerialInput.Inv (SerialInput.start { port, guestQueue, hostQueue }) [] := by
    refine ⟨(Queue.represents_of_new hn hh).2, ⟨[], (Queue.represents_of_new hn hg).2⟩, ?_, trivial⟩
    intro hready
    cases hready
  exact Runs.alwaysAlong_iff_eachStep
    (fun _ _ hI hP hD hC => SerialInput.step_keeps hI hP hD hC)
    (fun _ _ _ hI hP _ hC he => SerialInput.step_breaks hI hP hC he)
    ⟨[], hstart⟩ (hstart.delivered_iff.mpr rfl) hd

/-- A device of one byte a queue: the host writes a byte, and the guest sees it in `LSR`
and reads it. -/
theorem serial_input_iff_one :
    ∃ (table' : HandlerTable Unit Serials) (devs' : Serials) (serial : Serial),
      serialNew HandlerTable.zero (fun _ => none) 0x3F8 1
        ⟨some 0x1000, (true, some #v[0]), (true, some #v[0])⟩ = .ok (some 0x1000, table', devs') ∧
      devs' 0x1000 = some serial ∧
      (Runs.AlwaysAlong SerialInput.step SerialInput.Delivered (SerialInput.start serial)
          [.host [7], .host [], .guest .lsr true, .guest .lsr true, .guest .rbr true,
            .guest .rbr true, .guest .rbr true] ↔
        Runs.EachStep SerialInput.step SerialInput.NotFilled (SerialInput.start serial)
          [.host [7], .host [], .guest .lsr true, .guest .lsr true, .guest .rbr true,
            .guest .rbr true, .guest .rbr true]) := by
  refine ⟨_, _, _, rfl, rfl, serial_input_iff (by decide)
    (show serialNew HandlerTable.zero (fun _ => none) 0x3F8 1
      ⟨some 0x1000, (true, some #v[0]), (true, some #v[0])⟩ = .ok (some 0x1000, _, _) from rfl)
    rfl ?_⟩
  refine .cons trivial rfl (.cons trivial rfl (.cons trivial rfl (.cons trivial rfl ?_)))
  refine .cons ?_ rfl (.cons ?_ rfl (.cons ?_ rfl trivial))
  · intro h
    cases h
  · intro h
    cases h
  · intro h
    cases h

/-- On a device of two bytes a queue, the guest sees the first byte in `LSR`, and the
guard of its read of `RBR` finds `is_full` clear.  The host's second byte fills the
queue; the indices are equal; the guest receives a zero that nobody has sent. -/
theorem serial_input_extra :
    ∃ (table' : HandlerTable Unit Serials) (devs' : Serials) (serial : Serial) (s : SerialInput),
      serialNew HandlerTable.zero (fun _ => none) 0x3F8 2
        ⟨some 0x1000, (true, some #v[0, 0]), (true, some #v[0, 0])⟩ =
          .ok (some 0x1000, table', devs') ∧
      devs' 0x1000 = some serial ∧
      Runs.EachStep SerialInput.step SerialInput.Disciplined (SerialInput.start serial)
        [.host [1], .host [], .guest .lsr true, .guest .lsr true, .guest .lsr true,
          .guest .lsr true, .guest .rbr true, .guest .rbr true, .host [2], .host [],
          .guest .rbr true, .guest .rbr true] ∧
      Runs.run SerialInput.step (SerialInput.start serial)
        [.host [1], .host [], .guest .lsr true, .guest .lsr true, .guest .lsr true,
          .guest .lsr true, .guest .rbr true, .guest .rbr true, .host [2], .host [],
          .guest .rbr true, .guest .rbr true] = .ok s ∧
      s.accepted = [1, 2] ∧ s.received = [0] ∧ ¬ s.received <+: s.accepted := by
  refine ⟨_, _, _, _, rfl, rfl, ?_, rfl, rfl, rfl, by decide⟩
  refine .cons trivial rfl (.cons trivial rfl (.cons trivial rfl (.cons trivial rfl ?_)))
  refine .cons trivial rfl (.cons trivial rfl (.cons ?_ rfl (.cons ?_ rfl ?_)))
  · intro h
    cases h
  · intro h
    cases h
  refine .cons trivial rfl (.cons trivial rfl (.cons ?_ rfl (.cons ?_ rfl trivial)))
  · intro h
    cases h
  · intro h
    cases h

end BlackHV
