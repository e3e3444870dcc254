import BlackHV.E820
import BlackHV.HostCopies
import BlackHV.VmRun

/-! # The loader of k

`examples/k/main.c`: `load_k` puts the multiboot information, the memory map, the command
line and the segments of a 32-bit ELF file into the RAM of a new VM, and sets three
registers.  The file is what `load_file` returns, the bytes of a mapping (the last page of the
file is filled up with zeros); a read behind the end of the mapping is an access outside.
-/
namespace BlackHV

open Spans FlatMemory

/-- `MULTIBOOT_GUEST`. -/
def multibootGuest : UInt64 := 0xc10000
/-- `CMDLINE_GUEST`. -/
def cmdlineGuest : UInt64 := 0xc20000
/-- `MEMORY_GUEST`. -/
def memoryGuest : UInt64 := 0xc30000
/-- `MULTIBOOT_HEADER_MAGIC`. -/
def multibootHeaderMagic : UInt64 := 0x1BADB002

/-- `sizeof(multiboot_info_t)`. -/
def multibootInfoSize : Nat := 120
/-- `sizeof(multiboot_memory_map_t)`. -/
def memoryMapSize : Nat := 24

/-- A `multiboot_memory_map_t` for an entry of the table; it is packed. -/
def E820Entry.memoryMap (entry : E820Entry) : List UInt8 :=
  Bytes.le 4 memoryMapSize ++ Bytes.le 8 entry.baseAddress.toNat ++ Bytes.le 8 entry.size.toNat ++
    Bytes.le 4 entry.type.toNat

/-- The loop of `setup_e820`.  An entry of the table that `e820_table_get` has not filled in
is memory without a value. -/
def fillMemoryMap (vm : Vm) (host : HostMemory) (guestMemory : UInt64) :
    List (Option E820Entry) → Except Fault HostMemory
  | [] => .ok host
  | none :: _ => .error .outOfBounds
  | some entry :: rest => do
      let host ← storeBytes vm host guestMemory entry.memoryMap
      fillMemoryMap vm host (guestMemory + UInt64.ofNat memoryMapSize) rest

/-- `setup_e820`: `mmap_addr`, `mmap_length` and `mem_lower` are at 48, 44 and 4.  `table` and
`entries` tell whether `malloc` has the blocks of `e820_table_get`. -/
def setupE820 (vm : Vm) (host : HostMemory) (memoryEntries : LinkedList MemoryEntry)
    (table entries : Bool) (info : UInt64) : Except Fault HostMemory := do
  let made ← e820TableGet memoryEntries table entries
  let host ← storeBytes vm host (info + 48) (Bytes.le 4 memoryGuest.toNat)
  let guestMemory := memoryGetPtr vm memoryGuest
  if guestMemory = 0 then
    .error .exit
  else
    match made with
    | none => .error .exit
    | some filled => do
        let host ← fillMemoryMap vm host guestMemory filled
        let host ← storeBytes vm host (info + 44) (Bytes.le 4 (filled.length * memoryMapSize))
        storeBytes vm host (info + 4) (Bytes.le 4 0x1000)

/-- Bytes of the file. -/
def imageBytes (image : List UInt8) (offset count : Nat) : Except Fault (List UInt8) :=
  if offset + count ≤ image.length then .ok ((image.drop offset).take count)
  else .error .outOfBounds

/-- A field of the file. -/
def imageField (image : List UInt8) (offset count : Nat) : Except Fault Nat := do
  let bytes ← imageBytes image offset count
  .ok (Bytes.ofLe bytes)

/-- `sizeof(Elf32_Phdr)`. -/
def phdrSize : Nat := 32

/-- The `memset` and the `memcpy` for the program header at `phdr`: `p_offset` is at 4,
`p_filesz` at 16 and `p_memsz` at 20. -/
def copySegment (vm : Vm) (host : HostMemory) (image : List UInt8) (phdr : Nat) (mem : UInt64) :
    Except Fault HostMemory := do
  let pMemsz ← imageField image (phdr + 20) 4
  let host ← storeBytes vm host mem (List.replicate pMemsz 0)
  let pOffset ← imageField image (phdr + 4) 4
  let pFilesz ← imageField image (phdr + 16) 4
  let bytes ← imageBytes image pOffset pFilesz
  storeBytes vm host mem bytes

/-- The body of the loop over the program headers: `p_type` is at 0 and `p_paddr` at 12.  The
test is `(p_type & PT_LOAD) != 0`, with `PT_LOAD` 1. -/
def loadSegment (vm : Vm) (host : HostMemory) (image : List UInt8) (phdr : Nat) :
    Except Fault HostMemory := do
  let pType ← imageField image phdr 4
  if pType % 2 = 0 then
    .ok host
  else do
    let pPaddr ← imageField image (phdr + 12) 4
    let mem := memoryGetPtr vm (UInt64.ofNat pPaddr)
    if mem = 0 then .error .exit else copySegment vm host image phdr mem

/-- The loop, with `left` program headers to go from the one at `phdr` on. -/
def loadSegments (vm : Vm) (host : HostMemory) (image : List UInt8) (phdr : Nat) :
    Nat → Except Fault HostMemory
  | 0 => .ok host
  | left + 1 => do
      let host ← loadSegment vm host image phdr
      loadSegments vm host image (phdr + phdrSize) left

/-- `vm_get_regs`, where `KVM_GET_REGS` returns `result` and fills in `regs`. -/
def vmGetRegs (result : Int32) (regs : KvmRegs) : Option KvmRegs :=
  if result = 0 then some regs else none

/-- `vm_set_regs`, where `KVM_SET_REGS` returns `result`: the registers of the virtual CPU. -/
def vmSetRegs (result : Int32) (regs : KvmRegs) : Option KvmRegs :=
  if result = 0 then some regs else none

/-- The answers of the operating system while `load_k` runs. -/
structure LoadAnswers where
  table : Bool
  entries : Bool
  getRegs : Int32
  regs : KvmRegs
  setRegs : Int32

/-- `load_k` up to the ELF file.  `cmdline` is without the NUL at its end; `cmdline` of the
multiboot information is at 16. -/
def writeBootInfo (vm : Vm) (host : HostMemory) (memoryEntries : LinkedList MemoryEntry)
    (cmdline : List UInt8) (answers : LoadAnswers) : Except Fault HostMemory := do
  let multiboot := memoryGetPtr vm multibootGuest
  if multiboot = 0 then
    .error .exit
  else do
    let host ← storeBytes vm host multiboot (List.replicate multibootInfoSize 0)
    let host ← setupE820 vm host memoryEntries answers.table answers.entries multiboot
    let guestCmdline := memoryGetPtr vm cmdlineGuest
    if guestCmdline = 0 then
      .error .exit
    else do
      let host ← storeBytes vm host guestCmdline (cmdline ++ [0])
      storeBytes vm host (multiboot + 16) (Bytes.le 4 cmdlineGuest.toNat)

/-- The loop of `load_k`: `e_phoff` is at 28 and `e_phnum` at 44. -/
def loadImage (vm : Vm) (host : HostMemory) (image : List UInt8) : Except Fault HostMemory := do
  let phoff ← imageField image 28 4
  let phnum ← imageField image 44 2
  loadSegments vm host image phoff phnum

/-- The registers that `load_k` sets: `e_entry` is at 24. -/
def entryRegs (image : List UInt8) (answers : LoadAnswers) : Except Fault KvmRegs :=
  match vmGetRegs answers.getRegs answers.regs with
  | none => .error .exit
  | some regs => do
      let entry ← imageField image 24 4
      let regs := { regs with rbx := multibootGuest, rax := multibootHeaderMagic,
                              rip := UInt64.ofNat entry }
      match vmSetRegs answers.setRegs regs with
      | none => .error .exit
      | some regs => .ok regs

/-- `load_k`: the memory it leaves, and the registers of the virtual CPU. -/
def loadK (vm : Vm) (host : HostMemory) (memoryEntries : LinkedList MemoryEntry)
    (image : Option (List UInt8)) (cmdline : List UInt8) (answers : LoadAnswers) :
    Except Fault (HostMemory × KvmRegs) := do
  let host ← writeBootInfo vm host memoryEntries cmdline answers
  match image with
  | none => .error .nullDereference
  | some image => do
      let host ← loadImage vm host image
      let regs ← entryRegs image answers
      .ok (host, regs)

/-! ## What it puts where -/

/-- The copies of the boot information, in the order in which they are made. -/
def bootCopies (e : MemoryEntry) (cmdline : List UInt8) : List (Nat × List UInt8) :=
  [(multibootGuest.toNat, List.replicate multibootInfoSize 0),
   (multibootGuest.toNat + 48, Bytes.le 4 memoryGuest.toNat),
   (memoryGuest.toNat, (e820Entry e).memoryMap),
   (multibootGuest.toNat + 44, Bytes.le 4 memoryMapSize),
   (multibootGuest.toNat + 4, Bytes.le 4 0x1000),
   (cmdlineGuest.toNat, cmdline ++ [0]),
   (multibootGuest.toNat + 16, Bytes.le 4 cmdlineGuest.toNat)]

/-- A segment: where it goes, how long it is there, and the bytes of the file. -/
structure Segment where
  base : Nat
  memsz : Nat
  bytes : List UInt8

/-- Zeros, and the bytes of the file over them. -/
def Segment.copies (s : Segment) : List (Nat × List UInt8) :=
  [(s.base, List.replicate s.memsz 0), (s.base, s.bytes)]

/-- A field of the file, where it is inside. -/
def fieldAt (image : List UInt8) (offset count : Nat) : Nat :=
  Bytes.ofLe ((image.drop offset).take count)

/-- The program header at an offset is one that is loaded. -/
def LoadsAt (image : List UInt8) (phdr : Nat) : Prop := fieldAt image phdr 4 % 2 = 1

instance (image : List UInt8) (phdr : Nat) : Decidable (LoadsAt image phdr) :=
  inferInstanceAs (Decidable (_ = _))

/-- Its segment. -/
def segmentAt (image : List UInt8) (phdr : Nat) : Segment :=
  { base := fieldAt image (phdr + 12) 4
    memsz := fieldAt image (phdr + 20) 4
    bytes := (image.drop (fieldAt image (phdr + 4) 4)).take (fieldAt image (phdr + 16) 4) }

/-- The segments of a file, in the order of their headers. -/
def segmentsFrom (image : List UInt8) (phdr : Nat) : Nat → List Segment
  | 0 => []
  | left + 1 =>
      if LoadsAt image phdr then
        segmentAt image phdr :: segmentsFrom image (phdr + phdrSize) left
      else segmentsFrom image (phdr + phdrSize) left

/-- The header and the bytes of a segment are inside the file, and both copies end in `limit`
bytes of RAM from 0 on. -/
structure CopyFits (image : List UInt8) (limit phdr : Nat) : Prop where
  header : phdr + 24 ≤ image.length
  zeros : fieldAt image (phdr + 12) 4 + fieldAt image (phdr + 20) 4 ≤ limit
  bytes : fieldAt image (phdr + 12) 4 + fieldAt image (phdr + 16) 4 ≤ limit
  file : fieldAt image (phdr + 4) 4 + fieldAt image (phdr + 16) 4 ≤ image.length

/-- What a header asks for fits.  A segment that starts where the RAM ends is refused, also if
it is empty. -/
structure SegmentFits (image : List UInt8) (limit phdr : Nat) : Prop where
  type : phdr + 4 ≤ image.length
  loads : LoadsAt image phdr →
    fieldAt image (phdr + 12) 4 < limit ∧ CopyFits image limit phdr

/-- What some headers ask for fits. -/
def SegmentsFit (image : List UInt8) (limit phdr left : Nat) : Prop :=
  ∀ i < left, SegmentFits image limit (phdr + phdrSize * i)

/-- The segments of a file. -/
def segments (image : List UInt8) : List Segment :=
  segmentsFrom image (fieldAt image 28 4) (fieldAt image 44 2)

/-- Everything `load_k` copies fits, and nothing it asks of the operating system fails. -/
structure LoadFits (limit : Nat) (image cmdline : List UInt8) (answers : LoadAnswers) : Prop where
  table : answers.table = true ∧ answers.entries = true
  memoryMap : memoryGuest.toNat + memoryMapSize ≤ limit
  cmdline : cmdlineGuest.toNat + cmdline.length + 1 ≤ limit
  header : 46 ≤ image.length
  segments : SegmentsFit image limit (fieldAt image 28 4) (fieldAt image 44 2)
  regs : answers.getRegs = 0 ∧ answers.setRegs = 0

end BlackHV
