import BlackHV.Devices
import BlackHV.Families
import BlackHV.VmRun

/-! # A VM with all its devices

A process that runs a VM with serial ports and a disk: the exits of the VM, and the calls
that other threads of the process make on the serial ports while it runs.  Every event is
for one device, or for none.  `alone` is the same process with one of the devices only; for
a serial port it is the pair of FIFOs that the port is for.  `machine_runs` says that the
process is the family of these.  An exit and a call are one step each; what two threads do to
one queue inside their calls is in `QueuePairSafety`.
-/
namespace BlackHV

open Runs

/-- The devices, and the rest of the process. -/
inductive DeviceName (n : Nat) where
  | disk
  | serial (i : Fin n)
  | other
  deriving DecidableEq

/-- An exit of the VM, with what the disk answers while it is handled, or a call on a serial
port by another thread. -/
inductive MachineEvent (n : Nat) where
  | exit (disk : Disk) (exit : KvmExit)
  | read (i : Fin n) (len : Nat)
  | write (i : Fin n) (buffer : List UInt8)

/-- The effect of an exit, the bytes of `serial_read`, the count of `serial_write`. -/
inductive MachineAnswer where
  | exit (effect : Option ExitEffect)
  | read (bytes : List UInt8)
  | written (count : Nat)
  deriving DecidableEq

/-- What KVM promises of an exit. -/
def KvmExit.Promised : KvmExit → Prop
  | .io access run => access.Promised run
  | _ => True

/-- An access to a port that the table has an entry for.  KVM does not promise it: a guest can
use port `0xFFFF`, and the handler is then looked up behind the table. -/
def KvmExit.InTable : KvmExit → Prop
  | .io access _ => access.port ≠ 0xFFFF
  | _ => True

def MachineEvent.Promised {n : Nat} : MachineEvent n → Prop
  | .exit _ cause => cause.Promised
  | _ => True

def MachineEvent.InTable {n : Nat} : MachineEvent n → Prop
  | .exit _ cause => cause.InTable
  | _ => True

/-- One event. -/
def machineStep (configs : List SerialConfig) (table : HandlerTable Disk Devices)
    (regions : MmioTable) (s : Devices) :
    MachineEvent configs.length → Except Fault (Devices × MachineAnswer)
  | .exit disk exit => do
      let (s, effect) ← handleExit table regions s (disk, exit)
      .ok (s, .exit effect)
  | .read i len => do
      let (serials, bytes) ← serialRead s.serials (configs.get i).address len
      .ok ({ s with serials }, .read bytes)
  | .write i buffer => do
      let (serials, count) ← serialWrite s.serials (configs.get i).address buffer
      .ok ({ s with serials }, .written count)

/-! ## The members -/

/-- The device that a port belongs to. -/
def portOwner (configs : List SerialConfig) (port : UInt16) : DeviceName configs.length :=
  match (List.finRange configs.length).find? fun i =>
      decide (∃ reg, port = (configs.get i).register reg) with
  | some i => .serial i
  | none => if port ∈ atapiPorts then .disk else .other

/-- The device that an event is for. -/
def MachineEvent.owner (configs : List SerialConfig) :
    MachineEvent configs.length → DeviceName configs.length
  | .exit _ (.io io _) => portOwner configs io.port
  | .exit _ _ => .other
  | .read i _ => .serial i
  | .write i _ => .serial i

/-- The register of a device at a port of it. -/
def SerialConfig.regOf (c : SerialConfig) (port : UInt16) : Fin 8 :=
  ⟨(port - c.port).toNat % 8, Nat.mod_lt _ (Nat.succ_pos 7)⟩

/-- The answer to an access of the guest. -/
def SerialAnswer.toPort : SerialAnswer → PortAnswer
  | .out handled => .out handled
  | .inb output => .inb output
  | _ => .out false

namespace SerialFifos
variable {n : Nat}

/-- What an access of the guest is for: bytes go to the registers, and words to nowhere. -/
def access (c : SerialConfig) (f : SerialFifos n) : PortAccess → SerialFifos n × PortAnswer
  | .outb port data =>
      ((f.command (.outb (c.regOf port) data)).1, (f.command (.outb (c.regOf port) data)).2.toPort)
  | .inb port => ((f.command (.inb (c.regOf port))).1, (f.command (.inb (c.regOf port))).2.toPort)
  | a => (f, a.unhandled)

/-- What an exit at a port of the device is for.  An exit of several elements is its first
one, as in `handle_exit_io`, which never looks at `count`. -/
def exit (c : SerialConfig) (f : SerialFifos n) (io : KvmIo) (run : List UInt8) :
    SerialFifos n × List UInt8 :=
  if io.size = 4 then
    (f, run)
  else
    ((f.access c (io.access run 0)).1, io.put run 0 (f.access c (io.access run 0)).2)

end SerialFifos

/-- The state of a device alone. -/
def DeviceName.State (configs : List SerialConfig) : DeviceName configs.length → Type
  | .disk => Atapi
  | .serial i => SerialFifos (configs.get i).size
  | .other => Unit

/-- Before the first event. -/
def DeviceName.fresh (configs : List SerialConfig) :
    (who : DeviceName configs.length) → who.State configs
  | .disk => Atapi.start
  | .serial i => SerialFifos.empty (configs.get i).size
  | .other => ()

/-- An event, with one device only: a process in which nothing but `atapi_init` has been
called, the FIFOs of a serial port, or a process without devices. -/
def alone (configs : List SerialConfig) (diskFd : Int32) (regions : MmioTable) :
    (who : DeviceName configs.length) → who.State configs → MachineEvent configs.length →
      Except Fault (who.State configs × MachineAnswer)
  | .disk, a, .exit disk exit => do
      let (a, effect) ← handleExit (atapiTable diskFd) regions a (disk, exit)
      .ok (a, .exit effect)
  | .serial i, f, .exit _ (.io io run) =>
      .ok ((f.exit (configs.get i) io run).1,
        .exit (some (.io (f.exit (configs.get i) io run).2)))
  | .serial _, f, .read _ len => .ok ((f.command (.read len)).1, .read (f.guest.pop len).2)
  | .serial _, f, .write _ buffer =>
      .ok ((f.command (.write buffer)).1, .written (f.host.push buffer).2)
  | .other, _, .exit disk exit => do
      let (_, effect) ← handleExit (HandlerTable.zero : HandlerTable Disk Unit) regions ()
        (disk, exit)
      .ok ((), .exit effect)
  -- events of other devices
  | _, _, _ => .error .notAllocated

/-- The events for a device, in order. -/
def eventsOf (configs : List SerialConfig) (who : DeviceName configs.length)
    (events : List (MachineEvent configs.length)) : List (MachineEvent configs.length) :=
  Families.commandsOf who (events.map fun e => (e.owner configs, e))

/-- The answers to the events for a device, in order. -/
def answersOf (configs : List SerialConfig) (who : DeviceName configs.length)
    (events : List (MachineEvent configs.length)) (answers : List MachineAnswer) :
    List MachineAnswer :=
  Families.outputsOf who (events.map fun e => (e.owner configs, e)) answers

end BlackHV
