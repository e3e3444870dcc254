import BlackHV.GuestRouting
import BlackHV.SerialFamily
import BlackHV.VmRun

/-! # The echo program

`examples/guests`: `guest32.c` is a guest that writes a line to the serial port, draws into
the framebuffer, and then writes back every byte it reads.  `main.c` runs it with two threads
beside the virtual CPU: `worker0` writes the lines of the user to the port, and `worker1`
prints what the guest writes.

The guest is seen where it leaves the CPU: each step is one access to a port or one store.
Of its stack there are the stores, which may come at any time, and not what it keeps there;
its code is where it was loaded.

One exit and one call of a worker are one step.  `queue_read` looks at the queue without its
lock, and what two threads do to one queue inside their calls is not part of this.
-/
namespace BlackHV

/-! ## The guest -/

/-- `COM1`. -/
def com1 : UInt16 := 0x3F8

/-- A store of a byte. -/
abbrev ByteStore := UInt64 × UInt8

/-- What the guest does next. -/
inductive GuestAccess where
  | inb (port : UInt16)
  | outb (port : UInt16) (data : UInt8)
  | store (store : ByteStore)

/-- Where the guest is.  In `serial_write_char` it has a byte to write, and the rest of the
string in `serial_write_str`, or nothing in the loop at the end. -/
inductive Guest32 where
  | writeStatus (c : UInt8) (rest : Option (List UInt8))
  | writeData (c : UInt8) (rest : Option (List UInt8))
  | storing (store : ByteStore) (left : List ByteStore)
  | readStatus
  | readData

namespace Guest32

/-- `addr` of the `outb` or `inb`, or the pointer. -/
def access : Guest32 → GuestAccess
  | writeStatus _ _ => .inb (com1 + 5)
  | writeData c _ => .outb com1 c
  | storing store _ => .store store
  | readStatus => .inb (com1 + 5)
  | readData => .inb com1

/-- The stores between `serial_write_str` and the loop at the end. -/
def draw : List ByteStore → Guest32
  | [] => readStatus
  | store :: left => storing store left

/-- `serial_write_str`, and what follows it. -/
def writeStr (stores : List ByteStore) : List UInt8 → Guest32
  | [] => draw stores
  | c :: rest => writeStatus c (some rest)

/-- What follows `serial_write_char`. -/
def written (stores : List ByteStore) : Option (List UInt8) → Guest32
  | none => readStatus
  | some rest => writeStr stores rest

/-- After an access; `al` is what an `inb` has got. -/
def next (stores : List ByteStore) (al : UInt8) : Guest32 → Guest32
  | writeStatus c rest => if (al >>> 5) &&& 1 = 0 then writeStatus c rest else writeData c rest
  | writeData _ rest => written stores rest
  | storing _ left => draw left
  | readStatus => if al &&& 1 = 0 then readStatus else readData
  | readData => writeStatus al none

end Guest32

/-- The argument of `serial_write_str`. -/
def echoBanner : List UInt8 :=
  "Echo program running in KVM\n".toList.map fun c => UInt8.ofNat c.toNat

/-- `_start`. -/
def Guest32.start (stores : List ByteStore) : Guest32 := writeStr stores echoBanner

/-! ## The process -/

/-- The block that KVM shares: where the data of an access to a port are in it, and what
`data` of an MMIO exit has in it before. -/
structure KvmBlock where
  bytes : List UInt8
  offset : Nat
  inside : offset < bytes.length
  mmioData : Vector UInt8 8

/-- `kvm_run->io` for one byte. -/
def KvmBlock.io (block : KvmBlock) (direction : UInt8) (port : UInt16) : KvmIo :=
  { direction, size := 1, port, count := 1, dataOffset := block.offset }

/-- `data` of an MMIO exit for one byte, which sets the first one. -/
def KvmBlock.storing (block : KvmBlock) (b : UInt8) : Vector UInt8 8 := block.mmioData.set 0 b

/-- The guest, the serial ports, the memory of the process, what the write handlers have
been called with, and what `worker1` has printed. -/
structure EchoSystem where
  guest : Guest32
  serials : Serials
  host : HostMemory
  calls : List MmioCall
  shown : List UInt8

/-- The guest goes on to its next access, or stores a byte of its stack; `getline` of `worker0`
returns, or `worker1` reads a byte. -/
inductive EchoEvent where
  | guest (block : KvmBlock)
  | stack (block : KvmBlock) (store : ByteStore)
  | worker0 (line : List UInt8)
  | worker1

/-- The count that `serial_write` returns to `worker0`, which ignores it. -/
inductive EchoAnswer where
  | guest
  | stack
  | worker0 (count : Nat)
  | worker1
  deriving DecidableEq

section Step
variable (table : HandlerTable Unit Serials) (map : MmioMap) (serial : UInt64)
  (stores : List ByteStore)

/-- An access of the guest: `vm_run` handles the exit, and the guest gets a byte. -/
def guestAccess (s : EchoSystem) (block : KvmBlock) :
    GuestAccess → Except Fault (EchoSystem × UInt8)
  | .inb port => do
      let (serials, effect) ← handleExit table map.table s.serials
        ((), .io (block.io kvmExitIoIn port) block.bytes)
      match effect with
      | some (.io run) => .ok ({ s with serials }, run[block.offset]?.getD 0)
      | _ => .ok ({ s with serials }, 0)
  | .outb port data => do
      let (serials, _) ← handleExit table map.table s.serials
        ((), .io (block.io kvmExitIoOut port) (putBytes block.bytes block.offset [data]))
      .ok ({ s with serials }, 0)
  | .store (addr, b) => do
      let (host, calls) ← map.guestStore s.host addr (block.storing b) 1
      .ok ({ s with host, calls := s.calls ++ calls }, 0)

/-- One event, which no other interrupts. -/
def echoStep (s : EchoSystem) : EchoEvent → Except Fault (EchoSystem × EchoAnswer)
  | .guest block => do
      let (s, al) ← guestAccess table map s block s.guest.access
      .ok ({ s with guest := s.guest.next stores al }, .guest)
  | .stack block store => do
      let (s, _) ← guestAccess table map s block (.store store)
      .ok (s, .stack)
  | .worker0 line => do
      let (serials, count) ← serialWrite s.serials serial line
      .ok ({ s with serials }, .worker0 count)
  | .worker1 => do
      let (serials, bytes) ← serialRead s.serials serial 1
      .ok ({ s with serials, shown := s.shown ++ bytes }, .worker1)

end Step

/-- The process when the guest starts. -/
def EchoSystem.start (stores : List ByteStore) (serials : Serials) (host : HostMemory) :
    EchoSystem :=
  { guest := .start stores, serials, host, calls := [], shown := [] }

/-- The part of a line that the port has taken. -/
def EchoEvent.input : EchoEvent → EchoAnswer → List UInt8
  | .worker0 line, .worker0 count => line.take count
  | _, _ => []

/-- Where the guest is between `serial_write_str` and its end, the bytes that it has still to
write. -/
def Guest32.holds : Guest32 → List UInt8
  | writeStatus c rest => c :: rest.getD []
  | writeData c rest => c :: rest.getD []
  | _ => []

/-- What has been printed, and what is on its way: in the queue to `worker1`, in the guest,
and in the queue to the guest. -/
def EchoSystem.carried (serial : UInt64) (s : EchoSystem) : List UInt8 :=
  match s.serials serial with
  | none => s.shown
  | some port =>
      s.shown ++ (port.guestQueue.contents ++ (s.guest.holds ++ port.hostQueue.contents))

/-- The guest sends a byte, and the queue is full. -/
def EchoSystem.Loses (serial : UInt64) (s : EchoSystem) : EchoEvent → Prop
  | .guest _ => (∃ b rest, s.guest = .writeData b rest) ∧
      ∃ port, s.serials serial = some port ∧ port.guestQueue.isFull = 1
  | _ => False

end BlackHV
