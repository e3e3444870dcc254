import BlackHV.Io
import BlackHV.QueueCalls

/-! # The serial port

`serial.c`: a UART whose transmitter and receiver are two byte queues.  Its registers
are eight consecutive ports; the handlers find the device through the pointer they
are registered with, so the devices live in a heap, `Serials`, from addresses to
live `serial_t` blocks.
-/
namespace BlackHV

/-- `THR`, written. -/
def thr : UInt16 := 0x0
/-- `RBR`, read. -/
def rbr : UInt16 := 0x0
/-- `LSR`, read. -/
def lsr : UInt16 := 0x5

/-- `serial_t`. -/
structure Serial where
  port : UInt16
  guestQueue : Queue
  hostQueue : Queue
  deriving DecidableEq

/-- The live devices, by their address. -/
abbrev Serials := UInt64 → Option Serial

namespace Serials

/-- `*address`. -/
def deref (devs : Serials) (address : UInt64) : Except Fault Serial :=
  match devs address with
  | some serial => .ok serial
  | none => .error .notAllocated

/-- The heap with `serial` at an address. -/
def put (devs : Serials) (address : UInt64) (serial : Serial) : Serials :=
  fun a => if a = address then some serial else devs a

@[simp] theorem put_self (devs : Serials) (address : UInt64) (serial : Serial) :
    devs.put address serial address = some serial := if_pos rfl

theorem put_ne {a address : UInt64} (h : a ≠ address) (devs : Serials) (serial : Serial) :
    devs.put address serial a = devs a := if_neg h

theorem deref_ok {devs : Serials} {address : UInt64} {serial : Serial}
    (h : devs address = some serial) : devs.deref address = .ok serial := by
  rw [deref, h]

end Serials

variable {Env : Type}

/-- `write_data`. -/
def writeData (devs : Serials) (address : UInt64) (data : UInt8) : Except Fault Serials := do
  let serial ← devs.deref address
  let (guestQueue, _) ← queueWrite serial.guestQueue [data]
  .ok (devs.put address { serial with guestQueue })

/-- `serial_outb`. -/
def serialOutb (_ : Env) (port : UInt16) (data : UInt8) (params : UInt64) (devs : Serials) :
    Except Fault Serials :=
  if params = 0 then
    .error .exit
  else do
    let serial ← devs.deref params
    let serialRegister := port - serial.port
    if serialRegister = thr then writeData devs params data else .ok devs

/-- The value of `LSR`: bit 0 tells that the host queue has data, bit 5 is always set. -/
def lineStatus (serial : Serial) : UInt8 :=
  ((if queueEmpty serial.hostQueue = 0 then (1 : UInt8) else 0) &&& (1 : UInt8)) |||
    ((1 : UInt8) <<< (5 : UInt8))

/-- `serial_inb`. -/
def serialInb (_ : Env) (port : UInt16) (params : UInt64) (devs : Serials) :
    Except Fault (UInt8 × Serials) :=
  if params = 0 then
    .error .exit
  else do
    let serial ← devs.deref params
    let serialPort := port - serial.port
    if serialPort = rbr then
      let (hostQueue, bytes) ← queueRead serial.hostQueue 1
      .ok (bytes.headD 0, devs.put params { serial with hostQueue })
    else if serialPort = lsr then
      .ok (lineStatus serial, devs)
    else
      .ok (0, devs)

section Registers
variable {devs : Serials} {address : UInt64} {serial : Serial} {env : Env} {port : UInt16}

/-- A write to `THR` goes to the guest queue. -/
theorem serialOutb_thr (ha : address ≠ 0) (hd : devs address = some serial)
    (hreg : port - serial.port = thr) {data : UInt8} {q : Queue} {count : Nat}
    (hq : queueWrite serial.guestQueue [data] = .ok (q, count)) :
    serialOutb env port data address devs =
      .ok (devs.put address { serial with guestQueue := q }) := by
  have hderef := Serials.deref_ok hd
  simp only [serialOutb, if_neg ha, hderef, ok_bind, hreg, if_pos, writeData, hq]

/-- A write to another register does nothing. -/
theorem serialOutb_other (ha : address ≠ 0) (hd : devs address = some serial)
    (hreg : port - serial.port ≠ thr) (data : UInt8) :
    serialOutb env port data address devs = .ok devs := by
  simp only [serialOutb, if_neg ha, Serials.deref_ok hd, ok_bind, if_neg hreg]

/-- A read of `RBR` takes a byte from the host queue. -/
theorem serialInb_rbr (ha : address ≠ 0) (hd : devs address = some serial)
    (hreg : port - serial.port = rbr) {q : Queue} {bytes : List UInt8}
    (hq : queueRead serial.hostQueue 1 = .ok (q, bytes)) :
    serialInb env port address devs =
      .ok (bytes.headD 0, devs.put address { serial with hostQueue := q }) := by
  simp only [serialInb, if_neg ha, Serials.deref_ok hd, ok_bind, if_pos hreg, hq]

/-- A read of another register gives the line status or 0. -/
theorem serialInb_other (ha : address ≠ 0) (hd : devs address = some serial)
    (hreg : port - serial.port ≠ rbr) : serialInb env port address devs =
      .ok (if port - serial.port = lsr then lineStatus serial else 0, devs) := by
  simp only [serialInb, if_neg ha, Serials.deref_ok hd, ok_bind, if_neg hreg]
  split <;> rfl

/-- A read of a register takes at most a byte from the host queue, and keeps what `queue_read`
keeps of it. -/
theorem serialInb_spec {P : Queue → Prop} (ha : address ≠ 0) (hd : devs address = some serial)
    (hP : P serial.hostQueue)
    (hread : ∃ q bytes, queueRead serial.hostQueue 1 = .ok (q, bytes) ∧ P q) :
    ∃ byte devs' hostQueue, serialInb env port address devs = .ok (byte, devs') ∧
      devs' address = some { serial with hostQueue } ∧ P hostQueue := by
  by_cases hrbr : port - serial.port = rbr
  · obtain ⟨q, bytes, hq, hPq⟩ := hread
    exact ⟨_, _, q, serialInb_rbr ha hd hrbr hq, Serials.put_self .., hPq⟩
  · exact ⟨_, devs, serial.hostQueue, serialInb_other ha hd hrbr, hd, hP⟩

/-- The line status of a device, by what is in its host queue. -/
theorem lineStatus_eq {host : List UInt8} (hh : serial.hostQueue.Represents host) :
    lineStatus serial = (if host.isEmpty then 0 else 1) ||| 0x20 := by
  rw [lineStatus, queueEmpty_spec hh]
  cases host with
  | nil => rfl
  | cons b host =>
      rw [List.isEmpty_cons]
      decide

end Registers

/-- What the allocations of `serial_new` return: the address of the `serial_t` block,
and for each queue what `queue_new` is given by its own. -/
structure SerialBlocks (internalBufferSize : Nat) where
  serial : Option UInt64
  guestQueue : Bool × Option (Vector UInt8 internalBufferSize)
  hostQueue : Bool × Option (Vector UInt8 internalBufferSize)

/-- The handler of every register of the device at an address. -/
def serialHandler (address : UInt64) : Handler Env Serials :=
  { inbHandler := some serialInb, outbHandler := some serialOutb, params := address }

/-- What `serial_new` registers. -/
def serialRegistrations (port : UInt16) (address : UInt64) : List (UInt16 × Handler Env Serials) :=
  (List.range 8).map fun i => (port + UInt16.ofNat i, serialHandler address)

/-- `serial_new`: the address of the device where it does not return `NULL`. -/
def serialNew (table : HandlerTable Env Serials) (devs : Serials) (port : UInt16)
    (internalBufferSize : Nat) (blocks : SerialBlocks internalBufferSize) :
    Except Fault (Option UInt64 × HandlerTable Env Serials × Serials) :=
  match blocks.serial with
  | none => .ok (none, table, devs)
  | some address =>
      match queueNew internalBufferSize blocks.guestQueue.1 blocks.guestQueue.2,
        queueNew internalBufferSize blocks.hostQueue.1 blocks.hostQueue.2 with
      | some guestQueue, some hostQueue => do
          let table ← (serialRegistrations port address).foldlM
            (fun t r => ioRegisterHandler t r.1 r.2) table
          .ok (some address, table, devs.put address { port, guestQueue, hostQueue })
      | _, _ => .ok (none, table, devs)

/-- A device that `serial_new` made: its block, and the entries of the table at its
registers. -/
theorem serialNew_ok {table table' : HandlerTable Env Serials} {devs devs' : Serials}
    {port : UInt16} {n : Nat} {blocks : SerialBlocks n} {address : UInt64}
    (h : serialNew table devs port n blocks = .ok (some address, table', devs')) :
    (∃ guestQueue hostQueue,
      queueNew n blocks.guestQueue.1 blocks.guestQueue.2 = some guestQueue ∧
      queueNew n blocks.hostQueue.1 blocks.hostQueue.2 = some hostQueue ∧
      devs' = devs.put address { port, guestQueue, hostQueue }) ∧
    ∀ i, i < 8 → port + UInt16.ofNat i ≠ 0xFFFF ∧
      table' (port + UInt16.ofNat i) = serialHandler address := by
  unfold serialNew at h
  split at h
  · cases h
  · split at h
    · rename_i guestQueue hostQueue hg hh
      obtain ⟨t, ht, he⟩ := bind_eq_ok.mp h
      cases he
      obtain ⟨hports, rfl⟩ := HandlerTable.register_all_ok ht
      have hmem : ∀ i, i < 8 → (port + UInt16.ofNat i, serialHandler address) ∈
          (serialRegistrations port address : List (UInt16 × Handler Env Serials)) :=
        fun i hi => List.mem_map.mpr ⟨i, List.mem_range.mpr hi, rfl⟩
      refine ⟨⟨guestQueue, hostQueue, hg, hh, rfl⟩, fun i hi => ⟨hports _ (hmem i hi), ?_⟩⟩
      refine HandlerTable.foldl_update_same (fun r hr => ?_)
        (Or.inl (List.mem_map_of_mem (hmem i hi)))
      obtain ⟨_, -, rfl⟩ := List.mem_map.mp hr
      rfl
    · cases h

/-- `serial_read` on a device that is not `NULL`, into a buffer of `len` bytes: the
bytes it stores, whose number it returns. -/
def serialRead (devs : Serials) (address : UInt64) (len : Nat) :
    Except Fault (Serials × List UInt8) := do
  let serial ← devs.deref address
  let (guestQueue, bytes) ← queueRead serial.guestQueue len
  .ok (devs.put address { serial with guestQueue }, bytes)

/-- `serial_write` on a device that is not `NULL`. -/
def serialWrite (devs : Serials) (address : UInt64) (buffer : List UInt8) :
    Except Fault (Serials × Nat) := do
  let serial ← devs.deref address
  let (hostQueue, count) ← queueWrite serial.hostQueue buffer
  .ok (devs.put address { serial with hostQueue }, count)

end BlackHV
