import BlackHV.E820
import BlackHV.GuestReads
import BlackHV.KLoader

/-! # The loader of Linux

`examples/linux/main.c`: `load_linux` copies the first part of a kernel image, the
`boot_params`, into the RAM of a new VM, fills in what the boot protocol leaves to the loader,
and copies the command line and the protected-mode kernel behind the setup sectors.  Offsets
and flags are those of the boot protocol, `<asm/bootparam.h>`.  The image is what `load_file`
returns, as for `load_k`.
-/
namespace BlackHV

/-- `BOOT_PARAMS_ADDR`. -/
def bootParamsAddr : UInt64 := 0x10000
/-- `REAL_MODE_ADDR`. -/
def realModeAddr : Nat := 0x90000
/-- `KERNEL_ADDR`. -/
def kernelAddr : UInt64 := 0x100000
/-- `CMD_LINE`. -/
def cmdLine : List UInt8 := "console=ttyS0".toList.map fun c => UInt8.ofNat c.toNat

/-- `sizeof(struct boot_params)`. -/
def bootParamsSize : Nat := 0x1000
/-- `CAN_USE_HEAP | LOADED_HIGH | KEEP_SEGMENTS`. -/
def loaderFlags : Nat := 0x80 ||| 0x01 ||| 0x40
/-- `heap_end_ptr`. -/
def heapEndPtr : Nat := 0xe000 - 0x200

/-- A field of `boot_params` is stored. -/
def storeField (vm : Vm) (host : HostMemory) (ptr : UInt64) (count n : Nat) :
    Except Fault HostMemory :=
  storeBytes vm host ptr (Bytes.le count n)

/-- `set_setup_header`: `vid_mode` is at 0x1fa, `type_of_loader` at 0x210, `loadflags` at 0x211,
`ramdisk_image` at 0x218, `ramdisk_size` at 0x21c, `heap_end_ptr` at 0x224, `ext_loader_ver` at
0x226, `ext_loader_type` at 0x227 and `cmd_line_ptr` at 0x228. -/
def setSetupHeader (vm : Vm) (host : HostMemory) (bootParams : UInt64) :
    Except Fault HostMemory := do
  let host ← storeField vm host (bootParams + 0x1fa) 2 0xFFFF
  let host ← storeField vm host (bootParams + 0x210) 1 0xFF
  let host ← storeField vm host (bootParams + 0x218) 4 0
  let host ← storeField vm host (bootParams + 0x21c) 4 0
  let host ← storeField vm host (bootParams + 0x226) 1 0
  let host ← storeField vm host (bootParams + 0x227) 1 0
  let loadflags ← loadField vm host (bootParams + 0x211) 1
  let host ← storeField vm host (bootParams + 0x211) 1 (loadflags ||| loaderFlags)
  let host ← storeField vm host (bootParams + 0x224) 2 heapEndPtr
  let heapEnd ← loadField vm host (bootParams + 0x224) 2
  storeField vm host (bootParams + 0x228) 4 (realModeAddr + heapEnd)

/-- The loop of `setup_e820`: `e820_table` is at 0x2d0, and its entries have 20 bytes. -/
def fillE820 (vm : Vm) (host : HostMemory) (bootParams : UInt64) (i : Nat) :
    List (Option E820Entry) → Except Fault HostMemory
  | [] => .ok host
  | none :: _ => .error .outOfBounds
  | some entry :: rest => do
      let params := bootParams + 0x2d0 + UInt64.ofNat (20 * i)
      let host ← storeField vm host params 8 entry.baseAddress.toNat
      let host ← storeField vm host (params + 8) 8 entry.size.toNat
      let host ← storeField vm host (params + 16) 4 entry.type.toNat
      fillE820 vm host bootParams (i + 1) rest

/-- `setup_e820`: `e820_entries` is at 0x1e8. -/
def setupE820Linux (vm : Vm) (host : HostMemory) (memoryEntries : LinkedList MemoryEntry)
    (table entries : Bool) (bootParams : UInt64) : Except Fault HostMemory := do
  let made ← e820TableGet memoryEntries table entries
  match made with
  | none => .error .exit
  | some filled => do
      let host ← fillE820 vm host bootParams 0 filled
      storeField vm host (bootParams + 0x1e8) 1 filled.length

/-- The `memset` and the `memcpy` of the command line in `load_linux`: `cmd_line_ptr` is at
0x228 and `cmdline_size` at 0x238. -/
def writeCmdLine (vm : Vm) (host : HostMemory) (bootParams : UInt64) :
    Except Fault HostMemory := do
  let cmdLinePtr ← loadField vm host (bootParams + 0x228) 4
  let cmdline := memoryGetPtr vm (UInt64.ofNat cmdLinePtr)
  if cmdline = 0 then
    .error .exit
  else do
    let cmdlineSize ← loadField vm host (bootParams + 0x238) 4
    let host ← storeBytes vm host cmdline (List.replicate cmdlineSize 0)
    storeBytes vm host cmdline cmdLine

/-- The size of the setup sectors, with the boot sector. -/
def setupSize (setupSects : Nat) : Nat := ((if setupSects < 4 then 4 else setupSects) + 1) * 512

/-- `load_image_into_memory`: `setup_sects` is at 0x1f1.  The size of the kernel is computed in
64 bits. -/
def loadImageIntoMemory (vm : Vm) (host : HostMemory) (bootParams : UInt64) (image : List UInt8)
    (imageSize : UInt64) : Except Fault HostMemory := do
  let kernel := memoryGetPtr vm kernelAddr
  if kernel = 0 then
    .error .exit
  else do
    let setupSects ← loadField vm host (bootParams + 0x1f1) 1
    let kernelSize := imageSize - UInt64.ofNat (setupSize setupSects)
    let bytes ← imageBytes image (setupSize setupSects) kernelSize.toNat
    storeBytes vm host kernel bytes

/-- The registers that `load_linux` sets: `code32_start` is at 0x214. -/
def linuxRegs (vm : Vm) (host : HostMemory) (bootParams : UInt64) (answers : LoadAnswers) :
    Except Fault KvmRegs :=
  match vmGetRegs answers.getRegs answers.regs with
  | none => .error .exit
  | some regs => do
      let code32Start ← loadField vm host (bootParams + 0x214) 4
      let regs := { regs with rsi := bootParamsAddr, rip := UInt64.ofNat code32Start }
      match vmSetRegs answers.setRegs regs with
      | none => .error .exit
      | some regs => .ok regs

/-- `load_linux` up to the registers. -/
def copyLinux (vm : Vm) (host : HostMemory) (memoryEntries : LinkedList MemoryEntry)
    (image : Option (List UInt8)) (imageSize : UInt64) (answers : LoadAnswers) :
    Except Fault HostMemory :=
  let bootParams := memoryGetPtr vm bootParamsAddr
  if bootParams = 0 then
    .error .exit
  else do
    let host ← storeBytes vm host bootParams (List.replicate bootParamsSize 0)
    match image with
    | none => .error .nullDereference
    | some image => do
        let bytes ← imageBytes image 0 bootParamsSize
        let host ← storeBytes vm host bootParams bytes
        let host ← setSetupHeader vm host bootParams
        let host ← setupE820Linux vm host memoryEntries answers.table answers.entries bootParams
        let host ← writeCmdLine vm host bootParams
        loadImageIntoMemory vm host bootParams image imageSize

/-- `load_linux`: the memory it leaves, and the registers of the virtual CPU. -/
def loadLinux (vm : Vm) (host : HostMemory) (memoryEntries : LinkedList MemoryEntry)
    (image : Option (List UInt8)) (imageSize : UInt64) (answers : LoadAnswers) :
    Except Fault (HostMemory × KvmRegs) := do
  let host ← copyLinux vm host memoryEntries image imageSize answers
  let regs ← linuxRegs vm host (memoryGetPtr vm bootParamsAddr) answers
  .ok (host, regs)

end BlackHV
