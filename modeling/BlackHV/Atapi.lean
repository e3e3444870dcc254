import BlackHV.Io

/-! # The ATAPI disk

`atapi.c`: a CD drive on the primary ATA channel.  A command is a packet of twelve
bytes that the guest writes, word by word, to the data port; reading the interrupt
reason runs it, and the block it asks for is then read, word by word, from the data
port.  The packet, the block and the offsets into both are file-scope variables,
shared by all commands; they are the fields of `Atapi`.

The image is reached through the operating system: `Disk` says which bytes
`read(fd, to_send, CD_BLOCK_SZ)` stores after `lseek(fd, offset, SEEK_SET)`, which
may be fewer than asked for, or none.
-/
namespace BlackHV

def primaryDcr : UInt16 := 0x3F6
def secondaryDcr : UInt16 := 0x376

/-- `ATA_PORT_MASTER`. -/
def ataPortMaster : UInt8 := 0x00

def primaryReg : UInt16 := 0x1F0
def secondaryReg : UInt16 := 0x170

def ataRegData (port : UInt16) : UInt16 := port
def ataRegFeatures (port : UInt16) : UInt16 := port + 1
def ataRegSectorCount (port : UInt16) : UInt16 := port + 2
def ataRegLbaLo (port : UInt16) : UInt16 := port + 3
def ataRegLbaMi (port : UInt16) : UInt16 := port + 4
def ataRegLbaHi (port : UInt16) : UInt16 := port + 5
def ataRegDrive (port : UInt16) : UInt16 := port + 6
def ataRegStatus (port : UInt16) : UInt16 := port + 7

/-- The status bit `DRQ`. -/
def drq : UInt8 := 1 <<< (3 : UInt8)

def atapiSigSc : UInt8 := 0x01
def atapiSigLbaLo : UInt8 := 0x01
def atapiSigLbaMi : UInt8 := 0x14
def atapiSigLbaHi : UInt8 := 0xEB

/-- `READ_12`. -/
def read12 : UInt8 := 0xA8

def cdBlockSz : Nat := 2048
def packetSz : Nat := 12

def packetDataTransmit : UInt8 := 2
def packetCommandComplete : UInt8 := 3

/-- `struct SCSI_packet`, as the bytes it is made of. -/
abbrev ScsiPacket := Vector UInt8 packetSz

namespace ScsiPacket

def opCode (p : ScsiPacket) : UInt8 := p[0]
def lbaHi (p : ScsiPacket) : UInt8 := p[2]
def lbaMihi (p : ScsiPacket) : UInt8 := p[3]
def lbaMilo (p : ScsiPacket) : UInt8 := p[4]
def lbaLo (p : ScsiPacket) : UInt8 := p[5]

/-- The `u32 lba` of `handle_scsi_packet`. -/
def lba (p : ScsiPacket) : UInt32 :=
  p.lbaLo.toUInt32 ||| (p.lbaMilo.toUInt32 <<< 8) ||| (p.lbaMihi.toUInt32 <<< 16) |||
    (p.lbaHi.toUInt32 <<< 24)

end ScsiPacket

/-- The bytes a `read` of one block at an offset of a file stores. -/
abbrev Disk := Int32 → UInt32 → List UInt8

/-- The file-scope variables of `atapi.c`. -/
structure Atapi where
  selectedDrive : UInt8
  currPkt : ScsiPacket
  byteRead : UInt32
  toSend : Vector UInt8 cdBlockSz
  byteSent : UInt32
  receiving : Bool
  sending : Bool

namespace Atapi

/-- The variables as the program starts: all zeros. -/
def start : Atapi :=
  { selectedDrive := 0, currPkt := Vector.replicate _ 0, byteRead := 0,
    toSend := Vector.replicate _ 0, byteSent := 0, receiving := false, sending := false }

end Atapi

/-- A buffer after a `read` has stored `bytes` at its start; no more bytes than it
has room for. -/
def stored {n : Nat} (buffer : Vector UInt8 n) (bytes : List UInt8) : Vector UInt8 n :=
  Vector.ofFn fun i => bytes[i.val]?.getD buffer[i]

/-- `ignore_outb`. -/
def ignoreOutb (_ : Disk) (_port : UInt16) (_data : UInt8) (_params : UInt64) (s : Atapi) :
    Except Fault Atapi := .ok s

/-- `select_outb`. -/
def selectOutb (_ : Disk) (_port : UInt16) (data : UInt8) (_params : UInt64) (s : Atapi) :
    Except Fault Atapi := .ok { s with selectedDrive := data }

/-- `handle_scsi_packet`.  The offset is computed in 32 bits. -/
def handleScsiPacket (disk : Disk) (diskFd : Int32) (s : Atapi) : Atapi :=
  if s.currPkt.opCode ≠ read12 then
    s
  else
    { s with
      toSend := stored s.toSend (disk diskFd (s.currPkt.lba * UInt32.ofNat cdBlockSz))
      byteSent := 0 }

/-- `signature_inb`. -/
def signatureInb (disk : Disk) (port : UInt16) (params : UInt64) (s : Atapi) :
    Except Fault (UInt8 × Atapi) :=
  if s.selectedDrive ≠ ataPortMaster then
    .ok (0, s)
  else if port = ataRegSectorCount primaryReg then
    if s.sending then
      .ok (packetCommandComplete, { s with byteSent := 0, sending := false })
    else if s.receiving then
      let s := handleScsiPacket disk params.toUInt32.toInt32 s
      .ok (packetDataTransmit, { s with byteRead := 0, receiving := false })
    else
      .ok (atapiSigSc, s)
  else if port = ataRegLbaLo primaryReg then .ok (atapiSigLbaLo, s)
  else if port = ataRegLbaMi primaryReg then .ok (atapiSigLbaMi, s)
  else if port = ataRegLbaHi primaryReg then .ok (atapiSigLbaHi, s)
  else .ok (0, s)

/-- `status_inb`. -/
def statusInb (_ : Disk) (_port : UInt16) (_params : UInt64) (s : Atapi) :
    Except Fault (UInt8 × Atapi) := .ok (drq, s)

/-- Store the word `data` at offset `at` of the packet, low byte first. -/
def storeWord (p : ScsiPacket) (offset : Nat) (data : UInt16) : Except Fault ScsiPacket :=
  if h : offset + 1 < packetSz then
    .ok ((p.set offset data.toUInt8).set (offset + 1) (data >>> 8).toUInt8)
  else
    .error .outOfBounds

/-- Load the word at an offset of the block, low byte first. -/
def loadWord (block : Vector UInt8 cdBlockSz) (offset : Nat) : Except Fault UInt16 :=
  if h : offset + 1 < cdBlockSz then
    .ok (block[offset].toUInt16 ||| (block[offset + 1].toUInt16 <<< 8))
  else
    .error .outOfBounds

/-- `data_outw`. -/
def dataOutw (_ : Disk) (_port : UInt16) (data : UInt16) (_params : UInt64) (s : Atapi) :
    Except Fault Atapi :=
  if s.byteRead > UInt32.ofNat (packetSz - 2) then
    .ok s
  else do
    let currPkt ← storeWord s.currPkt s.byteRead.toNat data
    .ok { s with receiving := true, currPkt, byteRead := s.byteRead + 2 }

/-- `data_inw`. -/
def dataInw (_ : Disk) (_port : UInt16) (_params : UInt64) (s : Atapi) :
    Except Fault (UInt16 × Atapi) :=
  if s.byteSent ≥ UInt32.ofNat cdBlockSz then
    .ok (0, s)
  else do
    let word ← loadWord s.toSend s.byteSent.toNat
    .ok (word, { s with sending := true, byteSent := s.byteSent + 2 })

/-! ## Registration -/

def ignoreOutbHandler : Handler Disk Atapi := { outbHandler := some ignoreOutb }

def selectOutbHandler : Handler Disk Atapi := { outbHandler := some selectOutb }

def signatureInbHandler (diskFd : Int32) : Handler Disk Atapi :=
  { inbHandler := some signatureInb, outbHandler := some ignoreOutb,
    params := diskFd.toInt64.toUInt64 }

def dataHandler : Handler Disk Atapi :=
  { inwHandler := some dataInw, outwHandler := some dataOutw }

def statusHandler : Handler Disk Atapi :=
  { inbHandler := some statusInb, outbHandler := some ignoreOutb }

/-- What `atapi_init` registers, in order. -/
def atapiRegistrations (diskFd : Int32) : List (UInt16 × Handler Disk Atapi) :=
  [(primaryDcr, ignoreOutbHandler),
   (secondaryDcr, ignoreOutbHandler),
   (ataRegFeatures primaryReg, ignoreOutbHandler),
   (ataRegFeatures secondaryReg, ignoreOutbHandler),
   (ataRegSectorCount primaryReg, ignoreOutbHandler),
   (ataRegSectorCount secondaryReg, ignoreOutbHandler),
   (ataRegDrive primaryReg, selectOutbHandler),
   (ataRegDrive secondaryReg, selectOutbHandler)] ++
  ([2, 3, 4, 5].flatMap fun i =>
    [(primaryReg + i, signatureInbHandler diskFd),
     (secondaryReg + i, signatureInbHandler diskFd)]) ++
  [(ataRegData primaryReg, dataHandler),
   (ataRegStatus primaryReg, statusHandler)]

/-- `atapi_init`. -/
def atapiInit (table : HandlerTable Disk Atapi) (diskFd : Int32) :
    Except Fault (HandlerTable Disk Atapi) :=
  (atapiRegistrations diskFd).foldlM (fun t r => ioRegisterHandler t r.1 r.2) table

/-- The table after `atapi_init` on the empty one. -/
def atapiTable (diskFd : Int32) : HandlerTable Disk Atapi :=
  (atapiRegistrations diskFd).foldl (fun t r => t.update r.1 r.2) HandlerTable.zero

/-- `atapi_init` never faults. -/
theorem atapiInit_zero (diskFd : Int32) :
    atapiInit HandlerTable.zero diskFd = .ok (atapiTable diskFd) := by
  have hports : ∀ r ∈ atapiRegistrations diskFd, r.1 ≠ 0xFFFF := by
    have hall : ((atapiRegistrations diskFd).map Prod.fst).all (· != 0xFFFF) = true :=
      show ((atapiRegistrations 0).map Prod.fst).all (· != 0xFFFF) = true by decide
    intro r hr
    exact bne_iff_ne.mp (List.all_eq_true.mp hall r.1 (List.mem_map_of_mem hr))
  exact HandlerTable.register_all hports _

end BlackHV
