import BlackHV.AllocOutcome
import BlackHV.LinkedListFree

/-! # The memory map in its blocks

`memory.c` once more, with the blocks it takes: an entry is a block of its own, the list
has pointers to entries, and the list nodes are blocks too.  What is taken from the host
and given back to it is recorded: the mappings that are there, those that `mmap` has made,
and the arguments `munmap` has been called with.

`memoryAlloc_steps` connects this level with the one before, `Vm`, where the list is a
`List` of entries.
-/
namespace BlackHV

/-- What a map has from the host: the live `struct memory_entry` blocks by their address,
the mappings, all mappings ever made, all calls of `munmap`, and KVM's slots. -/
structure MapHost where
  entries : Nat → Option MemoryEntry
  mappings : List (UInt64 × UInt64)
  mapped : List (UInt64 × UInt64)
  unmapped : List (UInt64 × UInt64)
  slots : UInt32 → Option KvmRegion

/-- `struct memory`, and the host's side of it. -/
structure MemoryHeap where
  host : MapHost
  memoryEntries : LinkedList (Option Nat)
  nextSlot : UInt32

/-- The answers to the calls of `memory_alloc`: the block that `malloc` returns for the
entry, with whatever contents, the address `mmap` returns, whether KVM accepts the region,
and the block for the list node. -/
structure BlockAnswers where
  entry : Option (Nat × MemoryEntry)
  mmap : UInt64
  ioctl : Bool
  node : Option Nat

/-- A call of `memory_alloc`, with these answers. -/
structure BlockCall where
  physAddr : UInt64
  size : UInt64
  type : UInt32
  host : BlockAnswers

/-- The call without the addresses of the blocks. -/
def BlockCall.alloc (c : BlockCall) : AllocCall :=
  ⟨c.physAddr, c.size, c.type, ⟨c.host.entry.isSome, c.host.mmap, c.host.ioctl, c.host.node.isSome⟩⟩

namespace MapHost

/-- The heap with `entry` in the block at an address, or with no block there. -/
def put (host : MapHost) (address : Nat) (entry : Option MemoryEntry) : MapHost :=
  { host with entries := fun a => if a = address then entry else host.entries a }

/-- `*pointer`. -/
def deref (host : MapHost) : Option Nat → Except Fault MemoryEntry
  | none => .error .nullDereference
  | some address =>
      match host.entries address with
      | some entry => .ok entry
      | none => .error .notAllocated

/-- `*pointer = entry`. -/
def store (host : MapHost) (address : Nat) (entry : MemoryEntry) : Except Fault MapHost :=
  match host.entries address with
  | some _ => .ok (host.put address (some entry))
  | none => .error .notAllocated

/-- `free(pointer)`. -/
def free (host : MapHost) (address : Nat) : Except Fault MapHost :=
  match host.entries address with
  | some _ => .ok (host.put address none)
  | none => .error .notAllocated

/-- `mmap` has returned `memPtr`. -/
def mmap (host : MapHost) (memPtr size : UInt64) : MapHost :=
  if memPtr = mapFailed then
    host
  else
    { host with
      mappings := (memPtr, size) :: host.mappings
      mapped := (memPtr, size) :: host.mapped }

/-- `munmap`. -/
def munmap (host : MapHost) (memPtr size : UInt64) : MapHost :=
  { host with
    mappings := host.mappings.erase (memPtr, size)
    unmapped := (memPtr, size) :: host.unmapped }

/-- KVM has accepted a region. -/
def setUserMemoryRegion (host : MapHost) (region : KvmRegion) : MapHost :=
  { host with slots := fun slot => if slot = region.slot then some region else host.slots slot }

end MapHost

namespace MemoryHeap

/-- `allocate_usable`: the pointer it returns. -/
def allocateUsable (mem : MemoryHeap) (physAddr size : UInt64) (answers : BlockAnswers) :
    Except Fault (MemoryHeap × Option Nat) :=
  match answers.entry with
  | none => .ok (mem, none)
  | some (entry, block) => do
      let host := (mem.host.put entry (some block)).mmap answers.mmap size
      if answers.mmap = 0 then
        let host ← host.free entry
        .ok ({ mem with host }, none)
      else if !answers.ioctl then
        let host := host.munmap answers.mmap size
        let host ← host.free entry
        .ok ({ mem with host }, none)
      else
        let host := host.setUserMemoryRegion
          { slot := mem.nextSlot, flags := 0, guestPhysAddr := physAddr, memorySize := size,
            userspaceAddr := answers.mmap }
        let host ← host.store entry
          { guestPhys := physAddr, memoryPtr := answers.mmap, size, slot := mem.nextSlot,
            type := memoryUsable }
        .ok ({ mem with host, nextSlot := mem.nextSlot + 1 }, some entry)

/-- `allocate_mmio`: the pointer it returns. -/
def allocateMmio (mem : MemoryHeap) (phys size : UInt64) (answers : BlockAnswers) :
    Except Fault (MemoryHeap × Option Nat) :=
  match answers.entry with
  | none => .ok (mem, none)
  | some (entry, block) => do
      let host ← (mem.host.put entry (some block)).store entry
        { guestPhys := phys, memoryPtr := 0, size, slot := 0, type := memoryMmio }
      .ok ({ mem with host }, some entry)

/-- The loop of `check_addr_available`, from the node `current` on.  `fuel` bounds the
number of its passes. -/
def checkAddrAvailableLoop (mem : MemoryHeap) (physAddr size : UInt64) :
    Option Nat → Nat → Except Fault Bool
  | none, _ => .ok true
  | some _, 0 => .error .divergence
  | some current, fuel + 1 => do
      let entry ← mem.host.deref (← mem.memoryEntries.loadValue (some current))
      if entry.conflicts physAddr size then
        .ok false
      else
        let next ← mem.memoryEntries.loadNext (some current)
        checkAddrAvailableLoop mem physAddr size next fuel

/-- `check_addr_available`: whether it returns 1. -/
def checkAddrAvailable (mem : MemoryHeap) (physAddr size : UInt64) (fuel : Nat) :
    Except Fault Bool :=
  mem.checkAddrAvailableLoop physAddr size mem.memoryEntries.head fuel

/-- The `switch` of `memory_alloc`. -/
def allocateEntry (mem : MemoryHeap) (physAddr size : UInt64) (type : UInt32)
    (answers : BlockAnswers) : Except Fault (MemoryHeap × Option Nat) :=
  if type = memoryFramebuffer ∨ type = memoryUsable then
    mem.allocateUsable physAddr size answers
  else if type = memoryMmio then
    mem.allocateMmio physAddr size answers
  else
    .ok (mem, none)

/-- `memory_alloc` on a VM that is not `NULL`, and whether it returns 1. -/
def memoryAlloc (mem : MemoryHeap) (c : BlockCall) (fuel : Nat) :
    Except Fault (MemoryHeap × Bool) := do
  let available ← mem.checkAddrAvailable c.physAddr c.size fuel
  if available = false then
    .ok (mem, false)
  else
    let (mem, entry) ← mem.allocateEntry c.physAddr c.size c.type c.host
    if entry = none then
      .ok (mem, false)
    else
      let (memoryEntries, _) ← linkedListAdd mem.memoryEntries entry c.host.node
      .ok ({ mem with memoryEntries }, true)

/-- One call of `memory_alloc`. -/
def alloc (fuel : Nat) (mem : MemoryHeap) (c : BlockCall) : Except Fault MemoryHeap := do
  let (mem, _) ← mem.memoryAlloc c fuel
  .ok mem

end MemoryHeap

/-- `memory_new`.  `block` and `list` tell whether `malloc` has a block for the map and one
for its list. -/
def memoryNew (block list : Bool) : Option MemoryHeap :=
  if block then
    (linkedListNew (Option Nat) true list).map fun memoryEntries =>
      { host := { entries := fun _ => none, mappings := [], mapped := [], unmapped := [],
                  slots := fun _ => none }
        memoryEntries, nextSlot := 0 }
  else
    none

namespace MapHost
variable {host : MapHost} {a b : Nat} {e : MemoryEntry}

@[simp] theorem put_self (host : MapHost) (a : Nat) (e : Option MemoryEntry) :
    (host.put a e).entries a = e := if_pos rfl

theorem put_ne (h : b ≠ a) (host : MapHost) (e : Option MemoryEntry) :
    (host.put a e).entries b = host.entries b := if_neg h

@[simp] theorem mmap_entries (host : MapHost) (memPtr size : UInt64) :
    (host.mmap memPtr size).entries = host.entries := by
  unfold mmap
  split <;> rfl

theorem mmap_put (host : MapHost) (a : Nat) (e : Option MemoryEntry) (memPtr size : UInt64) :
    (host.put a e).mmap memPtr size = (host.mmap memPtr size).put a e := by
  unfold mmap
  split <;> rfl

/-- A block that is taken and given back leaves no trace. -/
theorem put_put_none (h : host.entries a = none) (e : Option MemoryEntry) :
    (host.put a e).put a none = host := by
  have : ∀ b, ((host.put a e).put a none).entries b = host.entries b := by
    intro b
    by_cases hb : b = a
    · rw [hb, put_self, h]
    · rw [put_ne hb, put_ne hb]
  exact congrArg (fun entries => { host with entries }) (funext this)

theorem put_put (host : MapHost) (a : Nat) (e e' : Option MemoryEntry) :
    (host.put a e).put a e' = host.put a e' := by
  have : ∀ b, ((host.put a e).put a e').entries b = (host.put a e').entries b := by
    intro b
    by_cases hb : b = a
    · rw [hb, put_self, put_self]
    · rw [put_ne hb, put_ne hb, put_ne hb]
  exact congrArg (fun entries => { host with entries }) (funext this)

theorem deref_ok (h : host.entries a = some e) : host.deref (some a) = .ok e := by
  rw [deref, h]

theorem free_ok (h : host.entries a = some e) : host.free a = .ok (host.put a none) := by
  rw [free, h]

theorem store_ok (h : host.entries a = some e) (e' : MemoryEntry) :
    host.store a e' = .ok (host.put a (some e')) := by
  rw [store, h]

/-- What both levels record of the host is the same: the number of the next slot, the
mappings and KVM's slots. -/
structure Agrees (host : MapHost) (nextSlot : UInt32) (vm : Vm) : Prop where
  nextSlot : nextSlot = vm.nextSlot
  mappings : host.mappings = vm.mappings
  slots : host.slots = vm.slots

namespace Agrees
variable {nextSlot : UInt32} {vm : Vm}

theorem put (h : host.Agrees nextSlot vm) (a : Nat) (e : Option MemoryEntry) :
    (host.put a e).Agrees nextSlot vm :=
  ⟨h.nextSlot, h.mappings, h.slots⟩

theorem mmap (h : host.Agrees nextSlot vm) (memPtr size : UInt64) :
    (host.mmap memPtr size).Agrees nextSlot (vm.mmap memPtr size) := by
  unfold MapHost.mmap Vm.mmap
  split
  · exact h
  · exact ⟨h.nextSlot, congrArg _ h.mappings, h.slots⟩

theorem munmap (h : host.Agrees nextSlot vm) (memPtr size : UInt64) :
    (host.munmap memPtr size).Agrees nextSlot (vm.munmap memPtr size) :=
  ⟨h.nextSlot, congrArg (List.erase · _) h.mappings, h.slots⟩

theorem setUserMemoryRegion (h : host.Agrees nextSlot vm) (region : KvmRegion) :
    (host.setUserMemoryRegion region).Agrees nextSlot (vm.setUserMemoryRegion region) := by
  refine ⟨h.nextSlot, h.mappings, funext fun slot => ?_⟩
  show (if slot = region.slot then some region else host.slots slot) = _
  rw [h.slots]
  rfl

/-- A slot is taken at both levels. -/
theorem takeSlot (h : host.Agrees nextSlot vm) :
    host.Agrees (nextSlot + 1) { vm with nextSlot := vm.nextSlot + 1 } :=
  ⟨congrArg (· + 1) h.nextSlot, h.mappings, h.slots⟩

end Agrees

end MapHost

namespace MemoryHeap

/-! ## What one call does -/

/-- The host after `allocate_usable`, whose block is there only if it returns it. -/
def usableHost (host : MapHost) (nextSlot : UInt32) (physAddr size : UInt64)
    (answers : BlockAnswers) (entry : Nat) : MapHost :=
  if answers.mmap = 0 then
    host.mmap answers.mmap size
  else if !answers.ioctl then
    (host.mmap answers.mmap size).munmap answers.mmap size
  else
    ((host.mmap answers.mmap size).setUserMemoryRegion
      { slot := nextSlot, flags := 0, guestPhysAddr := physAddr, memorySize := size,
        userspaceAddr := answers.mmap }).put entry
      (some { guestPhys := physAddr, memoryPtr := answers.mmap, size, slot := nextSlot,
              type := memoryUsable })

variable {mem : MemoryHeap} {vm : Vm} {answers : BlockAnswers} {physAddr size : UInt64}
  {entry : Nat} {block : MemoryEntry}

/-- `allocate_usable` on a block that is not in use. -/
theorem allocateUsable_eq (hentry : answers.entry = some (entry, block))
    (hfresh : mem.host.entries entry = none) :
    mem.allocateUsable physAddr size answers = .ok
      (if answers.mmap ≠ 0 ∧ answers.ioctl = true then
        ({ mem with
          host := usableHost mem.host mem.nextSlot physAddr size answers entry
          nextSlot := mem.nextSlot + 1 }, some entry)
      else
        ({ mem with host := usableHost mem.host mem.nextSlot physAddr size answers entry },
          none)) := by
  have hfree : ∀ host : MapHost, host.entries entry = none →
      (host.put entry (some block)).free entry = .ok host := by
    intro host hnone
    rw [MapHost.free_ok (MapHost.put_self ..), MapHost.put_put_none hnone]
  have hmmap : (mem.host.mmap answers.mmap size).entries entry = none := by
    rw [MapHost.mmap_entries, hfresh]
  rw [allocateUsable, hentry]
  dsimp only
  rw [MapHost.mmap_put, usableHost]
  by_cases hnull : answers.mmap = 0
  · rw [if_pos hnull, if_pos hnull, hfree _ hmmap, ok_bind, if_neg fun h => h.1 hnull]
  · rw [if_neg hnull, if_neg hnull]
    by_cases hioctl : answers.ioctl = true
    · rw [if_neg (by simp [hioctl]), if_pos ⟨hnull, hioctl⟩, if_neg (by simp [hioctl])]
      have hstore := MapHost.store_ok
        (MapHost.put_self ((mem.host.mmap answers.mmap size).setUserMemoryRegion
          { slot := mem.nextSlot, flags := 0, guestPhysAddr := physAddr, memorySize := size,
            userspaceAddr := answers.mmap }) entry (some block))
      rw [show ∀ r, ((mem.host.mmap answers.mmap size).put entry (some block)).setUserMemoryRegion r
        = ((mem.host.mmap answers.mmap size).setUserMemoryRegion r).put entry (some block)
        from fun _ => rfl, hstore, ok_bind, MapHost.put_put]
    · rw [if_pos (by simpa using hioctl), if_neg fun h => hioctl h.2,
        if_pos (by simpa using hioctl)]
      rw [show ((mem.host.mmap answers.mmap size).put entry (some block)).munmap answers.mmap size
        = ((mem.host.mmap answers.mmap size).munmap answers.mmap size).put entry (some block)
        from rfl, hfree ((mem.host.mmap answers.mmap size).munmap answers.mmap size) hmmap, ok_bind]

/-- `allocate_mmio` on a block that is not in use. -/
theorem allocateMmio_eq (hentry : answers.entry = some (entry, block)) :
    mem.allocateMmio physAddr size answers = .ok
      ({ mem with host := mem.host.put entry (some
          { guestPhys := physAddr, memoryPtr := 0, size, slot := 0, type := memoryMmio }) },
        some entry) := by
  rw [allocateMmio, hentry]
  dsimp only
  rw [MapHost.store_ok (MapHost.put_self ..), ok_bind, MapHost.put_put]

/-! ## The level of lists -/

/-- The blocks hold this map: the list has `nodes`, with pointers to the blocks at
`addrs`, and in these are the entries of the map. -/
structure Models (mem : MemoryHeap) (vm : Vm) (nodes addrs : List Nat) : Prop where
  list : mem.memoryEntries.Holds nodes (addrs.map some)
  entries : addrs.map mem.host.entries = vm.memoryEntries.map some
  nextSlot : mem.nextSlot = vm.nextSlot
  mappings : mem.host.mappings = vm.mappings
  slots : mem.host.slots = vm.slots

theorem Models.agrees {nodes addrs : List Nat} (h : mem.Models vm nodes addrs) :
    mem.host.Agrees mem.nextSlot vm :=
  ⟨h.nextSlot, h.mappings, h.slots⟩

/-- `check_addr_available` looks at the entries of the list. -/
theorem checkAddrAvailableLoop_eq {p : Option Nat} {nodes addrs : List Nat}
    {items : List MemoryEntry} (hchain : Chains.Chain mem.memoryEntries.heap.next p nodes)
    (hvalue : nodes.map mem.memoryEntries.heap.value = (addrs.map some).map some)
    (hentries : addrs.map mem.host.entries = items.map some) {fuel : Nat}
    (hfuel : nodes.length ≤ fuel) :
    mem.checkAddrAvailableLoop physAddr size p fuel =
      .ok (items.all fun entry => !entry.conflicts physAddr size) := by
  induction nodes generalizing p addrs items fuel with
  | nil =>
      cases List.map_eq_nil_iff.mp (List.map_eq_nil_iff.mp hvalue.symm)
      cases List.map_eq_nil_iff.mp hentries.symm
      have hp : p = none := hchain
      rw [hp, checkAddrAvailableLoop]
      rfl
  | cons a nodes ih =>
      obtain ⟨rfl, q, hq, hrest⟩ := hchain
      obtain ⟨elt, helt⟩ := LinkedListHeap.exists_of_next hq
      rw [LinkedListHeap.next_eq helt] at hq
      cases hq
      cases addrs with
      | nil => cases hvalue
      | cons address addrs =>
          cases items with
          | nil => cases hentries
          | cons item items =>
              obtain ⟨hv, hvalues⟩ := List.cons.inj hvalue
              obtain ⟨he, hitems⟩ := List.cons.inj hentries
              rw [LinkedListHeap.value_eq helt] at hv
              obtain ⟨fuel, rfl⟩ : ∃ n, fuel = n + 1 :=
                ⟨fuel - 1, by rw [List.length_cons] at hfuel; omega⟩
              rw [checkAddrAvailableLoop, LinkedList.loadValue_ok helt, ok_bind,
                Option.some.inj hv, MapHost.deref_ok he, ok_bind, List.all_cons]
              by_cases hconf : item.conflicts physAddr size = true
              · rw [if_pos hconf, hconf]
                rfl
              · rw [if_neg hconf, LinkedList.loadNext_ok helt, ok_bind,
                  Bool.eq_false_iff.mpr hconf, Bool.not_false, Bool.true_and]
                rw [List.length_cons] at hfuel
                exact ih hrest hvalues hitems (Nat.le_of_succ_le_succ hfuel)

theorem Models.checkAddrAvailable_eq {nodes addrs : List Nat} (h : mem.Models vm nodes addrs)
    (physAddr size : UInt64) {fuel : Nat} (hfuel : nodes.length ≤ fuel) :
    mem.checkAddrAvailable physAddr size fuel =
      .ok (BlackHV.checkAddrAvailable vm physAddr size) :=
  checkAddrAvailableLoop_eq h.list.next h.list.value h.entries hfuel

end MemoryHeap

/-! ## Mappings -/

/-- The mapping that is an entry's own. -/
def MemoryEntry.mapping (e : MemoryEntry) : List (UInt64 × UInt64) :=
  if e.type = memoryUsable ∧ e.memoryPtr ≠ mapFailed then [(e.memoryPtr, e.size)] else []

namespace MapHost

/-- Every mapping ever made is still there, or has been unmapped once.  A call of `munmap`
for `MAP_FAILED` unmaps nothing. -/
structure Accounted (host : MapHost) : Prop where
  log : host.mapped.Perm (host.mappings ++ host.unmapped.filter (·.1 ≠ mapFailed))
  real : ∀ m ∈ host.mapped, m.1 ≠ mapFailed

namespace Accounted
variable {host : MapHost} {memPtr size : UInt64}

theorem not_mem_mappings (h : host.Accounted) (size : UInt64) :
    (mapFailed, size) ∉ host.mappings := by
  intro hmem
  exact h.real _ (h.log.mem_iff.mpr (List.mem_append_left _ hmem)) rfl

theorem mmap (h : host.Accounted) (memPtr size : UInt64) : (host.mmap memPtr size).Accounted := by
  unfold MapHost.mmap
  split
  · exact h
  · rename_i hne
    refine ⟨h.log.cons _, fun m hm => ?_⟩
    rcases List.mem_cons.mp hm with rfl | hold
    · exact hne
    · exact h.real m hold

/-- `munmap` of `MAP_FAILED`, or of a mapping that is there. -/
theorem munmap (h : host.Accounted) (hm : memPtr ≠ mapFailed → (memPtr, size) ∈ host.mappings) :
    (host.munmap memPtr size).Accounted := by
  refine ⟨?_, h.real⟩
  show host.mapped.Perm (host.mappings.erase (memPtr, size) ++
    ((memPtr, size) :: host.unmapped).filter (·.1 ≠ mapFailed))
  by_cases hne : memPtr = mapFailed
  · rw [List.filter_cons_of_neg (by simp [hne]), hne,
      List.erase_of_not_mem (h.not_mem_mappings size)]
    exact h.log
  · rw [List.filter_cons_of_pos (by simp [hne])]
    refine h.log.trans (List.Perm.trans ?_ List.perm_middle.symm)
    rw [← List.cons_append]
    exact (List.perm_cons_erase (hm hne)).append_right _

/-- A mapping that is made and unmapped again leaves the mappings as they were. -/
theorem mmap_munmap_mappings (h : host.Accounted) (memPtr size : UInt64) :
    ((host.mmap memPtr size).munmap memPtr size).mappings = host.mappings := by
  unfold MapHost.mmap MapHost.munmap
  split
  · rename_i he
    rw [he]
    exact List.erase_of_not_mem (h.not_mem_mappings size)
  · exact List.erase_cons_head ..

end Accounted

end MapHost

/-- The mapping at address 0 that a call has got and not kept: `allocate_usable` takes 0
for a failure. -/
def BlockCall.lostMapping (c : BlockCall) : List (UInt64 × UInt64) :=
  if c.alloc.IsRam ∧ c.host.entry.isSome = true ∧ c.host.mmap = 0 then [(0, c.size)] else []

namespace MemoryHeap
variable {mem : MemoryHeap} {vm : Vm} {c : BlockCall} {nodes addrs : List Nat}

/-- The blocks that `malloc` returns are not in use. -/
structure Fresh (mem : MemoryHeap) (c : BlockCall) : Prop where
  entry : ∀ a block, c.host.entry = some (a, block) → mem.host.entries a = none
  node : ∀ a, c.host.node = some a → mem.memoryEntries.heap a = none

instance (mem : MemoryHeap) (c : BlockCall) : Decidable (mem.Fresh c) :=
  decidable_of_iff ((∀ b ∈ c.host.entry, mem.host.entries b.1 = none) ∧
      ∀ a ∈ c.host.node, (mem.memoryEntries.heap a).isNone = true)
    ⟨fun h => ⟨fun a block hb => h.1 (a, block) hb,
        fun a ha => Option.isNone_iff_eq_none.mp (h.2 a ha)⟩,
      fun h => ⟨fun b hb => h.entry b.1 b.2 hb,
        fun a ha => Option.isNone_iff_eq_none.mpr (h.node a ha)⟩⟩

/-- What the `switch` of `memory_alloc` leaves behind: the state that the level of lists
has, the mapping of the entry and the one that is lost, and the block of the entry, if it
makes one. -/
structure Allocates (mem : MemoryHeap) (vm : Vm) (c : BlockCall) (mem' : MemoryHeap)
    (made : Option Nat) : Prop where
  memoryEntries : mem'.memoryEntries = mem.memoryEntries
  nextSlot : mem'.nextSlot =
    (BlackHV.allocateEntry vm c.physAddr c.size c.type c.alloc.host).1.nextSlot
  mappings : mem'.host.mappings =
    (BlackHV.allocateEntry vm c.physAddr c.size c.type c.alloc.host).1.mappings
  slots : mem'.host.slots = (BlackHV.allocateEntry vm c.physAddr c.size c.type c.alloc.host).1.slots
  held : mem'.host.mappings.Perm
    ((vm.entryMade c.alloc).toList.flatMap MemoryEntry.mapping ++ c.lostMapping ++
      mem.host.mappings)
  accounted : mem'.host.Accounted
  block : (made = none ∧ vm.entryMade c.alloc = none ∧ mem'.host.entries = mem.host.entries) ∨
    ∃ a block e, c.host.entry = some (a, block) ∧ made = some a ∧ vm.entryMade c.alloc = some e ∧
      mem'.host.entries = fun b => if b = a then some e else mem.host.entries b

/-! ### What `allocate_usable` does in each of its branches -/

/-- A block for the entry is not to be had. -/
theorem allocates_noBlock (h : mem.Models vm nodes addrs) (hacc : mem.host.Accounted)
    (hentry : c.host.entry = none) : mem.Allocates vm c mem none := by
  have hno : c.alloc.host.entry = false := by
    rw [BlockCall.alloc, hentry]
    rfl
  have hmade : vm.entryMade c.alloc = none := by simp [Vm.entryMade, hno]
  have hvm : (BlackHV.allocateEntry vm c.physAddr c.size c.type c.alloc.host).1 = vm := by
    rw [BlackHV.allocateEntry, BlackHV.allocateUsable, hno]
    split
    · rfl
    · split <;> rfl
  refine ⟨rfl, ?_, ?_, ?_, ?_, hacc, Or.inl ⟨rfl, hmade, rfl⟩⟩
  · rw [hvm, h.nextSlot]
  · rw [hvm, h.mappings]
  · rw [hvm, h.slots]
  · rw [hmade, BlockCall.lostMapping, if_neg (by simp [hentry])]
    exact List.Perm.refl _

theorem allocateEntry_ram (hram : c.alloc.IsRam) :
    BlackHV.allocateEntry vm c.physAddr c.size c.type c.alloc.host =
      BlackHV.allocateUsable vm c.physAddr c.size c.alloc.host :=
  if_pos (show c.type = memoryFramebuffer ∨ c.type = memoryUsable from hram)

section Usable
variable {entry : Nat} {block : MemoryEntry} (h : mem.Models vm nodes addrs)
  (hacc : mem.host.Accounted) (hram : c.alloc.IsRam) (hentry : c.host.entry = some (entry, block))
include h hacc hram hentry

/-- `mmap` returns 0, which is taken for a failure: the mapping at address 0 is not
unmapped. -/
theorem allocates_null (hnull : c.host.mmap = 0) :
    mem.Allocates vm c { mem with host := mem.host.mmap c.host.mmap c.size } none := by
  have hyes : c.alloc.host.entry = true := by
    rw [BlockCall.alloc, hentry]
    rfl
  have hmade : vm.entryMade c.alloc = none := by
    rw [Vm.entryMade, if_pos hram, if_neg fun hok => hok.2.1 hnull]
  have hvm : (BlackHV.allocateEntry vm c.physAddr c.size c.type c.alloc.host).1 =
      vm.mmap c.host.mmap c.size := by
    rw [allocateEntry_ram hram, BlackHV.allocateUsable, if_neg (by simp [hyes])]
    exact congrArg Prod.fst (if_pos hnull)
  have hagrees := h.agrees.mmap c.host.mmap c.size
  rw [← hvm] at hagrees
  refine ⟨rfl, hagrees.nextSlot, hagrees.mappings, hagrees.slots, ?_, hacc.mmap _ _,
    Or.inl ⟨rfl, hmade, MapHost.mmap_entries ..⟩⟩
  rw [hmade, BlockCall.lostMapping, if_pos ⟨hram, by rw [hentry]; rfl, hnull⟩, hnull, MapHost.mmap,
    if_neg (by decide)]
  exact List.Perm.refl _

/-- KVM rejects the region, and the mapping is unmapped. -/
theorem allocates_rejected (hnull : c.host.mmap ≠ 0) (hioctl : ¬ c.host.ioctl = true) :
    mem.Allocates vm c
      { mem with host := (mem.host.mmap c.host.mmap c.size).munmap c.host.mmap c.size } none := by
  have hyes : c.alloc.host.entry = true := by
    rw [BlockCall.alloc, hentry]
    rfl
  have hmade : vm.entryMade c.alloc = none := by
    rw [Vm.entryMade, if_pos hram, if_neg fun hok => hioctl hok.2.2]
  have hvm : (BlackHV.allocateEntry vm c.physAddr c.size c.type c.alloc.host).1 =
      (vm.mmap c.host.mmap c.size).munmap c.host.mmap c.size := by
    rw [allocateEntry_ram hram, BlackHV.allocateUsable, if_neg (by simp [hyes])]
    exact congrArg Prod.fst ((if_neg hnull).trans
      (if_pos (show (!c.host.ioctl) = true by simpa using hioctl)))
  have hagrees := (h.agrees.mmap c.host.mmap c.size).munmap c.host.mmap c.size
  rw [← hvm] at hagrees
  refine ⟨rfl, hagrees.nextSlot, hagrees.mappings, hagrees.slots, ?_, ?_,
    Or.inl ⟨rfl, hmade, MapHost.mmap_entries ..⟩⟩
  · rw [hmade, BlockCall.lostMapping, if_neg fun hlost => hnull hlost.2.2,
      hacc.mmap_munmap_mappings]
    exact List.Perm.refl _
  · refine (hacc.mmap _ _).munmap fun hne => ?_
    rw [MapHost.mmap, if_neg hne]
    exact List.mem_cons_self

/-- KVM accepts the region, and the entry is written to its block. -/
theorem allocates_accepted (hnull : c.host.mmap ≠ 0) (hioctl : c.host.ioctl = true) :
    mem.Allocates vm c
      { mem with
        host := ((mem.host.mmap c.host.mmap c.size).setUserMemoryRegion
          { slot := mem.nextSlot, flags := 0, guestPhysAddr := c.physAddr, memorySize := c.size,
            userspaceAddr := c.host.mmap }).put entry
          (some { guestPhys := c.physAddr, memoryPtr := c.host.mmap, size := c.size,
                  slot := mem.nextSlot, type := memoryUsable })
        nextSlot := mem.nextSlot + 1 } (some entry) := by
  have hyes : c.alloc.host.entry = true := by
    rw [BlockCall.alloc, hentry]
    rfl
  have hmade : vm.entryMade c.alloc = some
      { guestPhys := c.physAddr, memoryPtr := c.host.mmap, size := c.size,
        slot := vm.nextSlot, type := memoryUsable } := by
    rw [Vm.entryMade, if_pos hram, if_pos ⟨hyes, hnull, hioctl⟩]
    rfl
  have hvm : (BlackHV.allocateEntry vm c.physAddr c.size c.type c.alloc.host).1 =
      { (vm.mmap c.host.mmap c.size).setUserMemoryRegion
          { slot := mem.nextSlot, flags := 0, guestPhysAddr := c.physAddr, memorySize := c.size,
            userspaceAddr := c.host.mmap } with
        nextSlot := (vm.mmap c.host.mmap c.size).nextSlot + 1 } := by
    rw [allocateEntry_ram hram, BlackHV.allocateUsable, if_neg (by simp [hyes]), h.nextSlot,
      ← Vm.mmap_nextSlot vm c.host.mmap c.size]
    exact congrArg Prod.fst ((if_neg hnull).trans
      (if_neg (show ¬ (!c.host.ioctl) = true by simpa using hioctl)))
  have hagrees := ((h.agrees.mmap c.host.mmap c.size).setUserMemoryRegion
    { slot := mem.nextSlot, flags := 0, guestPhysAddr := c.physAddr, memorySize := c.size,
      userspaceAddr := c.host.mmap }).takeSlot
  rw [show Vm.nextSlot (Vm.setUserMemoryRegion _ _) = (vm.mmap c.host.mmap c.size).nextSlot
    from rfl, ← hvm] at hagrees
  refine ⟨rfl, hagrees.nextSlot, hagrees.mappings, hagrees.slots, ?_, ?_,
    Or.inr ⟨entry, block, _, hentry, rfl, hmade, ?_⟩⟩
  · rw [hmade, BlockCall.lostMapping, if_neg fun hlost => hnull hlost.2.2, Option.toList_some,
      List.flatMap_singleton, List.append_nil, MemoryEntry.mapping]
    show (mem.host.mmap c.host.mmap c.size).mappings.Perm _
    unfold MapHost.mmap
    by_cases hfailed : c.host.mmap = mapFailed
    · rw [if_pos hfailed, if_neg fun hm => hm.2 hfailed]
      exact List.Perm.refl _
    · rw [if_neg hfailed, if_pos ⟨rfl, hfailed⟩]
      exact List.Perm.refl _
  · exact ⟨(hacc.mmap c.host.mmap c.size).log, (hacc.mmap c.host.mmap c.size).real⟩
  · rw [h.nextSlot]
    funext b
    by_cases hb : b = entry
    · rw [hb, MapHost.put_self, if_pos rfl]
    · rw [MapHost.put_ne hb, if_neg hb]
      exact congrFun (MapHost.mmap_entries ..) b

end Usable

theorem allocateUsable_allocates (h : mem.Models vm nodes addrs) (hacc : mem.host.Accounted)
    (hfresh : mem.Fresh c) (hram : c.alloc.IsRam) :
    ∃ mem' made, mem.allocateUsable c.physAddr c.size c.host = .ok (mem', made) ∧
      mem.Allocates vm c mem' made := by
  cases hentry : c.host.entry with
  | none => exact ⟨mem, none, by rw [allocateUsable, hentry], allocates_noBlock h hacc hentry⟩
  | some block =>
      obtain ⟨entry, block⟩ := block
      rw [allocateUsable_eq hentry (hfresh.entry entry block hentry), usableHost]
      by_cases hnull : c.host.mmap = 0
      · rw [if_neg fun hok => hok.1 hnull, if_pos hnull]
        exact ⟨_, _, rfl, allocates_null h hacc hram hentry hnull⟩
      · rw [if_neg hnull]
        by_cases hioctl : c.host.ioctl = true
        · rw [if_pos ⟨hnull, hioctl⟩, if_neg (by simp [hioctl])]
          exact ⟨_, _, rfl, allocates_accepted h hacc hram hentry hnull hioctl⟩
        · rw [if_neg fun hok => hioctl hok.2, if_pos (by simpa using hioctl)]
          exact ⟨_, _, rfl, allocates_rejected h hacc hram hentry hnull hioctl⟩

theorem allocateMmio_allocates (h : mem.Models vm nodes addrs) (hacc : mem.host.Accounted)
    (hram : ¬ c.alloc.IsRam) (hmmio : c.type = memoryMmio) :
    ∃ mem' made, mem.allocateMmio c.physAddr c.size c.host = .ok (mem', made) ∧
      mem.Allocates vm c mem' made := by
  cases hentry : c.host.entry with
  | none => exact ⟨mem, none, by rw [allocateMmio, hentry], allocates_noBlock h hacc hentry⟩
  | some block =>
      obtain ⟨entry, block⟩ := block
      have hyes : c.alloc.host.entry = true := by
        rw [BlockCall.alloc, hentry]
        rfl
      have hmade : vm.entryMade c.alloc = some
          { guestPhys := c.physAddr, memoryPtr := 0, size := c.size, slot := 0,
            type := memoryMmio } := by
        rw [Vm.entryMade, if_neg hram, if_pos ⟨hmmio, hyes⟩]
        rfl
      have hvm : (BlackHV.allocateEntry vm c.physAddr c.size c.type c.alloc.host).1 = vm := by
        rw [BlackHV.allocateEntry,
          if_neg (show ¬ (c.type = memoryFramebuffer ∨ c.type = memoryUsable) from hram),
          if_pos hmmio]
      have hagrees := h.agrees.put entry (some
        { guestPhys := c.physAddr, memoryPtr := 0, size := c.size, slot := 0, type := memoryMmio })
      rw [← hvm] at hagrees
      rw [allocateMmio_eq hentry]
      refine ⟨_, _, rfl, rfl, hagrees.nextSlot, hagrees.mappings, hagrees.slots, ?_,
        ⟨hacc.log, hacc.real⟩, Or.inr ⟨entry, block, _, hentry, rfl, hmade, rfl⟩⟩
      rw [hmade, BlockCall.lostMapping, if_neg fun hlost => hram hlost.1, Option.toList_some,
        List.flatMap_singleton, List.append_nil, MemoryEntry.mapping,
        if_neg fun hm => absurd (show memoryMmio = memoryUsable from hm.1) (by decide)]
      exact List.Perm.refl _

/-- The `switch` of `memory_alloc` on blocks that are not in use. -/
theorem allocateEntry_allocates (h : mem.Models vm nodes addrs) (hacc : mem.host.Accounted)
    (hfresh : mem.Fresh c) :
    ∃ mem' made, mem.allocateEntry c.physAddr c.size c.type c.host = .ok (mem', made) ∧
      mem.Allocates vm c mem' made := by
  unfold allocateEntry
  by_cases hram : c.alloc.IsRam
  · rw [if_pos (show c.type = memoryFramebuffer ∨ c.type = memoryUsable from hram)]
    exact allocateUsable_allocates h hacc hfresh hram
  · rw [if_neg (show ¬ (c.type = memoryFramebuffer ∨ c.type = memoryUsable) from hram)]
    by_cases hmmio : c.type = memoryMmio
    · rw [if_pos hmmio]
      exact allocateMmio_allocates h hacc hram hmmio
    · rw [if_neg hmmio]
      have hmade : vm.entryMade c.alloc = none := by
        rw [Vm.entryMade, if_neg hram, if_neg fun h => hmmio h.1]
      have hvm : (BlackHV.allocateEntry vm c.physAddr c.size c.type c.alloc.host).1 = vm := by
        rw [BlackHV.allocateEntry,
          if_neg (show ¬ (c.type = memoryFramebuffer ∨ c.type = memoryUsable) from hram),
          if_neg hmmio]
      refine ⟨mem, none, rfl, rfl, ?_, ?_, ?_, ?_, hacc, Or.inl ⟨rfl, hmade, rfl⟩⟩
      · rw [hvm, h.nextSlot]
      · rw [hvm, h.mappings]
      · rw [hvm, h.slots]
      · rw [hmade, BlockCall.lostMapping, if_neg fun h => hram h.1]
        exact List.Perm.refl _

/-- What a call of `memory_alloc` leaves behind: the map that the level of lists has after
it, the entry in its block, and the node behind those of the list. -/
structure Steps (mem : MemoryHeap) (vm : Vm) (nodes addrs : List Nat) (c : BlockCall)
    (mem' : MemoryHeap) : Prop where
  held : mem'.host.mappings.Perm
    ((if BlackHV.checkAddrAvailable vm c.physAddr c.size = true then
        (vm.entryMade c.alloc).toList.flatMap MemoryEntry.mapping ++ c.lostMapping
      else []) ++ mem.host.mappings)
  accounted : mem'.host.Accounted
  block : (¬ vm.Reaches c.alloc ∧ mem'.host.entries = mem.host.entries ∧
      mem'.memoryEntries = mem.memoryEntries ∧
      mem'.Models (BlackHV.memoryAlloc vm c.physAddr c.size c.type c.alloc.host).1 nodes addrs) ∨
    ∃ a block e, vm.Reaches c.alloc ∧ c.host.entry = some (a, block) ∧
      vm.entryMade c.alloc = some e ∧
      (mem'.host.entries = fun b => if b = a then some e else mem.host.entries b) ∧
      ((c.host.node = none ∧ mem'.memoryEntries = mem.memoryEntries ∧
          mem'.Models (BlackHV.memoryAlloc vm c.physAddr c.size c.type c.alloc.host).1 nodes
            addrs) ∨
        ∃ node, c.host.node = some node ∧
          linkedListAdd mem.memoryEntries (some a) (some node) = .ok (mem'.memoryEntries, 1) ∧
          mem'.Models (BlackHV.memoryAlloc vm c.physAddr c.size c.type c.alloc.host).1
            (nodes ++ [node]) (addrs ++ [a]))

/-- The pointers of the list are to blocks in use. -/
theorem Models.live (h : mem.Models vm nodes addrs) {a : Nat} (ha : a ∈ addrs) :
    ∃ e, mem.host.entries a = some e := by
  have hmem : mem.host.entries a ∈ vm.memoryEntries.map some :=
    h.entries ▸ List.mem_map_of_mem ha
  obtain ⟨e, -, he⟩ := List.mem_map.mp hmem
  exact ⟨e, he.symm⟩

/-- A new block is in none of the pointers of the list. -/
theorem Models.fresh_not_mem (h : mem.Models vm nodes addrs) {a : Nat}
    (ha : mem.host.entries a = none) : a ∉ addrs := by
  intro hmem
  obtain ⟨e, he⟩ := h.live hmem
  rw [ha] at he
  cases he

/-- A new node is none of the list. -/
theorem Models.node_not_mem (h : mem.Models vm nodes addrs) {a : Nat}
    (ha : mem.memoryEntries.heap a = none) : a ∉ nodes := by
  intro hmem
  obtain ⟨q, hq⟩ := h.list.next.live hmem
  rw [LinkedListHeap.next, ha] at hq
  cases hq

/-- The `switch` of `memory_alloc` leaves the list as it is. -/
theorem Allocates.models {mem' : MemoryHeap} {made : Option Nat} (hs : mem.Allocates vm c mem' made)
    (h : mem.Models vm nodes addrs) (hfresh : mem.Fresh c) :
    mem'.Models (BlackHV.allocateEntry vm c.physAddr c.size c.type c.alloc.host).1 nodes addrs := by
  have hlist : (BlackHV.allocateEntry vm c.physAddr c.size c.type c.alloc.host).1.memoryEntries =
      vm.memoryEntries :=
    (Vm.allocateEntry_entry vm c.alloc).1
  refine ⟨by rw [hs.memoryEntries]; exact h.list, ?_, hs.nextSlot, hs.mappings, hs.slots⟩
  rw [hlist, ← h.entries]
  rcases hs.block with ⟨-, -, hentries⟩ | ⟨a, block, e, hentry, -, -, hentries⟩
  · rw [hentries]
  · rw [hentries]
    refine List.map_congr_left fun b hb => if_neg ?_
    rintro rfl
    exact h.fresh_not_mem (hfresh.entry b block hentry) hb

/-- `linked_list_add` of a block in use, with a new node. -/
theorem Models.added (h : mem.Models vm nodes addrs) {a node : Nat} {e : MemoryEntry}
    (ha : mem.host.entries a = some e) (hnode : mem.memoryEntries.heap node = none) :
    ∃ list, linkedListAdd mem.memoryEntries (some a) (some node) = .ok (list, 1) ∧
      ({ mem with memoryEntries := list } : MemoryHeap).Models
        { vm with memoryEntries := vm.memoryEntries ++ [e] } (nodes ++ [node]) (addrs ++ [a]) := by
  obtain ⟨list, hadd, hholds⟩ := h.list.add (h.node_not_mem hnode) (some a)
  refine ⟨list, hadd, ?_, ?_, h.nextSlot, h.mappings, h.slots⟩
  · rw [List.map_append, List.map_singleton]
    exact hholds
  · rw [List.map_append, List.map_append, List.map_singleton, List.map_singleton, ha, h.entries]

/-- **`memory_alloc` on the blocks does what it does on the list of entries.** -/
theorem memoryAlloc_steps (h : mem.Models vm nodes addrs) (hacc : mem.host.Accounted)
    (hfresh : mem.Fresh c) {fuel : Nat} (hfuel : nodes.length ≤ fuel) :
    ∃ mem', mem.memoryAlloc c fuel = .ok (mem',
        (BlackHV.memoryAlloc vm c.physAddr c.size c.type c.alloc.host).2) ∧
      mem.Steps vm nodes addrs c mem' := by
  have hcheck := h.checkAddrAvailable_eq c.physAddr c.size hfuel
  by_cases havail : BlackHV.checkAddrAvailable vm c.physAddr c.size = true
  · obtain ⟨mem₁, made, halloc, hs⟩ := allocateEntry_allocates h hacc hfresh
    have hmodels := hs.models h hfresh
    have hheld : mem₁.host.mappings.Perm
        ((if BlackHV.checkAddrAvailable vm c.physAddr c.size = true then
          (vm.entryMade c.alloc).toList.flatMap MemoryEntry.mapping ++ c.lostMapping
        else []) ++ mem.host.mappings) := by
      rw [if_pos havail]
      exact hs.held
    have hrun : mem.memoryAlloc c fuel = (if made = none then .ok (mem₁, false) else do
        let (memoryEntries, _) ← linkedListAdd mem₁.memoryEntries made c.host.node
        .ok ({ mem₁ with memoryEntries }, true)) := by
      rw [memoryAlloc, hcheck, ok_bind, if_neg (by simp [havail]), halloc, ok_bind]
    rcases hs.block with ⟨rfl, hnone, hentries⟩ | ⟨a, block, e, hentry, rfl, hsome, hentries⟩
    · have hno : ¬ vm.Reaches c.alloc := by
        intro hreach
        obtain ⟨-, e, he⟩ := Vm.reaches_iff_made.mp hreach
        rw [hnone] at he
        cases he
      have hresult : BlackHV.memoryAlloc vm c.physAddr c.size c.type c.alloc.host =
          ((BlackHV.allocateEntry vm c.physAddr c.size c.type c.alloc.host).1, false) :=
        Vm.memoryAlloc_none (c := c.alloc) havail hnone
      rw [hrun, if_pos rfl, hresult]
      refine ⟨mem₁, rfl, hheld, hs.accounted, Or.inl ⟨hno, hentries, hs.memoryEntries, ?_⟩⟩
      rw [hresult]
      exact hmodels
    · have hyes : vm.Reaches c.alloc := Vm.reaches_iff_made.mpr ⟨havail, e, hsome⟩
      have hresult : BlackHV.memoryAlloc vm c.physAddr c.size c.type c.alloc.host = _ :=
        Vm.memoryAlloc_some (c := c.alloc) havail hsome
      rw [hrun, if_neg (Option.some_ne_none a), hresult]
      cases hnode : c.host.node with
      | none =>
          have hno : ¬ c.alloc.host.node = true := by
            rw [BlockCall.alloc, hnode]
            exact Bool.false_ne_true
          refine ⟨mem₁, rfl, hheld, hs.accounted, Or.inr ⟨a, block, e, hyes, hentry, hsome,
            hentries, Or.inl ⟨hnode, hs.memoryEntries, ?_⟩⟩⟩
          rw [hresult, if_neg hno]
          exact hmodels
      | some node =>
          have hyesNode : c.alloc.host.node = true := by
            rw [BlockCall.alloc, hnode]
            rfl
          have hnew : mem₁.memoryEntries.heap node = none := by
            rw [hs.memoryEntries]
            exact hfresh.node node hnode
          obtain ⟨list, hadd, hlisted⟩ := hmodels.added (by rw [hentries]; exact if_pos rfl) hnew
          rw [hadd, ok_bind]
          refine ⟨_, rfl, hheld, ⟨hs.accounted.log, hs.accounted.real⟩, Or.inr ⟨a, block, e, hyes,
            hentry, hsome, hentries, Or.inr ⟨node, hnode, ?_, ?_⟩⟩⟩
          · rw [← hs.memoryEntries]
            exact hadd
          · rw [hresult, if_pos hyesNode, ← (Vm.allocateEntry_entry vm c.alloc).1]
            exact hlisted
  · have hresult : BlackHV.memoryAlloc vm c.physAddr c.size c.type c.alloc.host = (vm, false) :=
      Vm.memoryAlloc_taken (c := c.alloc) havail
    have hno : BlackHV.checkAddrAvailable vm c.physAddr c.size = false := by simpa using havail
    refine ⟨mem, ?_, ?_, hacc, Or.inl ⟨fun hr => havail hr.1, rfl, rfl, ?_⟩⟩
    · rw [memoryAlloc, hcheck, ok_bind, if_pos hno, hresult]
    · rw [if_neg havail]
      exact List.Perm.refl _
    · rw [hresult]
      exact h

end MemoryHeap

end BlackHV
