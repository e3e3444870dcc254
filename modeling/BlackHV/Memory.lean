import BlackHV.Fault
import BlackHV.Spans

/-! # The memory map

`memory.c`: the list of a VM's memory entries, in the order of their allocation, and
the functions that look an address up in it.  The list is only ever added to and walked
along `next`, so it is a `List` here.

What the operating system and KVM answer to one call of `memory_alloc` is an argument,
`HostAnswers`.  The state says what they hold afterwards: the host mappings and KVM's
memory slots.
-/
namespace BlackHV

/-- `MEMORY_USABLE`. -/
def memoryUsable : UInt32 := 0x1
/-- `MEMORY_MMIO`. -/
def memoryMmio : UInt32 := 0x2
/-- `MEMORY_FRAMEBUFFER`. -/
def memoryFramebuffer : UInt32 := 0x3

/-- `struct memory_entry`. -/
structure MemoryEntry where
  memoryPtr : UInt64
  guestPhys : UInt64
  size : UInt64
  slot : UInt32
  type : UInt32
  deriving DecidableEq

/-- `struct kvm_userspace_memory_region`. -/
structure KvmRegion where
  slot : UInt32
  flags : UInt32
  guestPhysAddr : UInt64
  memorySize : UInt64
  userspaceAddr : UInt64
  deriving DecidableEq

/-- The memory of a VM: `struct memory`, the mappings (address and size) that
`memory_alloc` has made, and KVM's memory slots. -/
structure Vm where
  memoryEntries : List MemoryEntry
  nextSlot : UInt32
  mappings : List (UInt64 × UInt64)
  slots : UInt32 → Option KvmRegion

/-- The answers to the calls of `memory_alloc`: whether `malloc` has a block for the
entry, the address `mmap` returns, whether KVM accepts the region, and whether `malloc`
has a block for the list node. -/
structure HostAnswers where
  entry : Bool
  mmap : UInt64
  ioctl : Bool
  node : Bool
  deriving DecidableEq

/-- `MAP_FAILED`. -/
def mapFailed : UInt64 := 0xFFFFFFFFFFFFFFFF

namespace Vm

/-- The map of `memory_new`, before any allocation. -/
def new : Vm := { memoryEntries := [], nextSlot := 0, mappings := [], slots := fun _ => none }

/-- `mmap` has returned `memPtr`. -/
def mmap (vm : Vm) (memPtr size : UInt64) : Vm :=
  if memPtr = mapFailed then vm else { vm with mappings := (memPtr, size) :: vm.mappings }

/-- `munmap`. -/
def munmap (vm : Vm) (memPtr size : UInt64) : Vm :=
  { vm with mappings := vm.mappings.erase (memPtr, size) }

/-- KVM has accepted a region. -/
def setUserMemoryRegion (vm : Vm) (region : KvmRegion) : Vm :=
  { vm with slots := fun slot => if slot = region.slot then some region else vm.slots slot }

@[simp] theorem mmap_memoryEntries (vm : Vm) (memPtr size : UInt64) :
    (vm.mmap memPtr size).memoryEntries = vm.memoryEntries := by
  unfold mmap
  split <;> rfl

@[simp] theorem mmap_nextSlot (vm : Vm) (memPtr size : UInt64) :
    (vm.mmap memPtr size).nextSlot = vm.nextSlot := by
  unfold mmap
  split <;> rfl

end Vm

/-- Whether `find_entry` takes the entry: `guest_phys + size` is computed in 64 bits. -/
def MemoryEntry.covers (entry : MemoryEntry) (addr : UInt64) : Bool :=
  entry.guestPhys ≤ addr && entry.guestPhys + entry.size > addr

/-- `find_entry`. -/
def findEntry (vm : Vm) (addr : UInt64) : Option MemoryEntry :=
  vm.memoryEntries.find? (·.covers addr)

/-- `allocate_usable`. -/
def allocateUsable (vm : Vm) (physAddr size : UInt64) (host : HostAnswers) :
    Vm × Option MemoryEntry :=
  if !host.entry then
    (vm, none)
  else
    let vm := vm.mmap host.mmap size
    if host.mmap = 0 then
      (vm, none)
    else
      let region : KvmRegion :=
        { slot := vm.nextSlot, flags := 0, guestPhysAddr := physAddr, memorySize := size,
          userspaceAddr := host.mmap }
      if !host.ioctl then
        (vm.munmap host.mmap size, none)
      else
        let vm := vm.setUserMemoryRegion region
        let entry : MemoryEntry :=
          { guestPhys := physAddr, memoryPtr := host.mmap, size, slot := vm.nextSlot,
            type := memoryUsable }
        ({ vm with nextSlot := vm.nextSlot + 1 }, some entry)

/-- `allocate_mmio`. -/
def allocateMmio (phys size : UInt64) (host : HostAnswers) : Option MemoryEntry :=
  if !host.entry then
    none
  else
    some { guestPhys := phys, memoryPtr := 0, size, slot := 0, type := memoryMmio }

/-- The test that `check_addr_available` makes against one entry. -/
def MemoryEntry.conflicts (entry : MemoryEntry) (physAddr size : UInt64) : Bool :=
  (entry.guestPhys ≤ physAddr && entry.guestPhys + entry.size > physAddr) ||
    (physAddr + size ≥ entry.guestPhys && physAddr < entry.guestPhys)

/-- `check_addr_available`: whether it returns 1. -/
def checkAddrAvailable (vm : Vm) (physAddr size : UInt64) : Bool :=
  vm.memoryEntries.all fun entry => !entry.conflicts physAddr size

/-- The entry that `memory_alloc` allocates for a type: its `switch`. -/
def allocateEntry (vm : Vm) (physAddr size : UInt64) (type : UInt32) (host : HostAnswers) :
    Vm × Option MemoryEntry :=
  if type = memoryFramebuffer ∨ type = memoryUsable then
    allocateUsable vm physAddr size host
  else if type = memoryMmio then
    (vm, allocateMmio physAddr size host)
  else
    (vm, none)

/-- `memory_alloc` on a VM that is not `NULL`, and whether it returns 1.  The result of
`linked_list_add` is ignored. -/
def memoryAlloc (vm : Vm) (physAddr size : UInt64) (type : UInt32) (host : HostAnswers) :
    Vm × Bool :=
  if checkAddrAvailable vm physAddr size = false then
    (vm, false)
  else
    match allocateEntry vm physAddr size type host with
    | (vm, none) => (vm, false)
    | (vm, some entry) =>
        if host.node then
          ({ vm with memoryEntries := vm.memoryEntries ++ [entry] }, true)
        else
          (vm, true)

/-! ## Access -/

/-- The bytes of the host's address space. -/
abbrev HostMemory := UInt64 → UInt8

/-- A host address lies in a mapping. -/
def Vm.Mapped (vm : Vm) (address : UInt64) : Prop :=
  ∃ m ∈ vm.mappings, (⟨m.1.toNat, m.2.toNat⟩ : Spans.Span).Contains address.toNat

instance (vm : Vm) (address : UInt64) : Decidable (vm.Mapped address) :=
  inferInstanceAs (Decidable (∃ m ∈ vm.mappings, _))

/-- `*(u8 *)address`. -/
def loadByte (vm : Vm) (host : HostMemory) (address : UInt64) : Except Fault UInt8 :=
  if vm.Mapped address then .ok (host address) else .error .outOfBounds

/-- `*(u8 *)address = b`. -/
def storeByte (vm : Vm) (host : HostMemory) (address : UInt64) (b : UInt8) :
    Except Fault HostMemory :=
  if vm.Mapped address then
    .ok fun a => if a = address then b else host a
  else
    .error .outOfBounds

/-- The loop of `memory_write`, on the bytes of `buffer` from `written` on. -/
def memoryWriteLoop (vm : Vm) (ptr baseAddress memLimit : UInt64) (host : HostMemory)
    (written : UInt64) : List UInt8 → Except Fault (HostMemory × UInt64)
  | [] => .ok (host, written)
  | b :: rest =>
      if written < memLimit then do
        let host ← storeByte vm host (ptr + (baseAddress + written)) b
        memoryWriteLoop vm ptr baseAddress memLimit host (written + 1) rest
      else
        .ok (host, written)

/-- `memory_write(vm, dest, buffer, size)` with `size` the length of `buffer`. -/
def memoryWrite (vm : Vm) (host : HostMemory) (dest : UInt64) (buffer : List UInt8) :
    Except Fault (HostMemory × Int64) :=
  match findEntry vm dest with
  | none => .ok (host, -1)
  | some entry =>
      if entry.type ≠ memoryUsable then
        .ok (host, -1)
      else do
        let baseAddress := dest - entry.guestPhys
        let memLimit := entry.size - baseAddress
        let (host, written) ← memoryWriteLoop vm entry.memoryPtr baseAddress memLimit host 0 buffer
        .ok (host, written.toInt64)

/-- The loop of `memory_read`, with room for `left` more bytes in `buffer`, and the bytes
it stores there. -/
def memoryReadLoop (vm : Vm) (ptr baseAddress memLimit : UInt64) (host : HostMemory)
    (read : UInt64) : Nat → Except Fault (List UInt8 × UInt64)
  | 0 => .ok ([], read)
  | left + 1 =>
      if read < memLimit then do
        let b ← loadByte vm host (ptr + (baseAddress + read))
        let (bytes, read) ← memoryReadLoop vm ptr baseAddress memLimit host (read + 1) left
        .ok (b :: bytes, read)
      else
        .ok ([], read)

/-- `memory_read`: the bytes it stores into `buffer`, and what it returns. -/
def memoryRead (vm : Vm) (host : HostMemory) (srcPhys : UInt64) (size : UInt64) :
    Except Fault (List UInt8 × Int64) :=
  match findEntry vm srcPhys with
  | none => .ok ([], -1)
  | some entry =>
      if entry.type ≠ memoryUsable ∧ entry.type ≠ memoryFramebuffer then
        .ok ([], -1)
      else do
        let baseAddress := srcPhys - entry.guestPhys
        let memLimit := entry.size - baseAddress
        let (bytes, read) ←
          memoryReadLoop vm entry.memoryPtr baseAddress memLimit host 0 size.toNat
        .ok (bytes, read.toInt64)

/-- `memory_get_ptr`: 0 where it returns `NULL`. -/
def memoryGetPtr (vm : Vm) (addr : UInt64) : UInt64 :=
  match findEntry vm addr with
  | none => 0
  | some entry =>
      if entry.type ≠ memoryUsable then 0 else entry.memoryPtr + (addr - entry.guestPhys)

end BlackHV
