import BlackHV.GuestReads
import BlackHV.KBoot

/-! # What k reads

The guest starts with the address of the multiboot information in `rbx`, and finds the rest
from there: the command line as a string, the memory map as an array.  `bootInfoAt` reads
them; the layout is that of `multiboot.h`.
-/
namespace BlackHV

open FlatMemory

/-- An element of the memory map. -/
structure MemoryMapEntry where
  size : Nat
  addr : Nat
  len : Nat
  type : Nat
  deriving DecidableEq

def memoryMapEntryAt (cells : Nat → Option UInt8) (a : Nat) : Option MemoryMapEntry := do
  let size ← numberAt cells a 4
  let addr ← numberAt cells (a + 4) 8
  let len ← numberAt cells (a + 12) 8
  let type ← numberAt cells (a + 20) 4
  some { size, addr, len, type }

/-- What the guest is told. -/
structure BootInfo where
  flags : Nat
  memLower : Nat
  cmdline : List UInt8
  memoryMap : List MemoryMapEntry
  deriving DecidableEq

/-- The multiboot information at an address, with a command line of less than `limit` bytes. -/
def bootInfoAt (cells : Nat → Option UInt8) (info limit : Nat) : Option BootInfo := do
  let flags ← numberAt cells info 4
  let memLower ← numberAt cells (info + 4) 4
  let cmdlineAddr ← numberAt cells (info + 16) 4
  let cmdline ← stringAt cells cmdlineAddr limit
  let mmapLength ← numberAt cells (info + 44) 4
  let mmapAddr ← numberAt cells (info + 48) 4
  let memoryMap ← (List.range (mmapLength / memoryMapSize)).mapM fun i =>
    memoryMapEntryAt cells (mmapAddr + memoryMapSize * i)
  some { flags, memLower, cmdline, memoryMap }

/-! ## The boot information -/

/-- What the guest is told of an entry of the table. -/
def E820Entry.told (entry : E820Entry) : MemoryMapEntry :=
  { size := memoryMapSize, addr := entry.baseAddress.toNat, len := entry.size.toNat,
    type := entry.type.toNat }

@[simp] theorem E820Entry.length_memoryMap (entry : E820Entry) : entry.memoryMap.length = 24 := rfl

/-- An element of the memory map is read as it has been written. -/
theorem memoryMapEntryAt_eq {cells : Nat → Option UInt8} {a : Nat} {entry : E820Entry}
    (h : slice cells a memoryMapSize = entry.memoryMap.map some) :
    memoryMapEntryAt cells a = some entry.told := by
  have hsplit : slice cells a (4 + 8 + 8 + 4) =
      slice cells a 4 ++ slice cells (a + 4) 8 ++ slice cells (a + 12) 8 ++
        slice cells (a + 20) 4 := by
    rw [slice_add, slice_add, slice_add]
  rw [show memoryMapSize = 4 + 8 + 8 + 4 from rfl, hsplit, E820Entry.memoryMap, List.map_append,
    List.map_append, List.map_append] at h
  obtain ⟨h, htype⟩ := List.append_inj' h (by simp)
  obtain ⟨h, hlen⟩ := List.append_inj' h (by simp)
  obtain ⟨hsize, haddr⟩ := List.append_inj' h (by simp)
  rw [memoryMapEntryAt, numberAt_eq hsize (by decide),
    numberAt_eq haddr (Nat.lt_of_lt_of_le entry.baseAddress.toNat_lt (by decide)),
    numberAt_eq hlen (Nat.lt_of_lt_of_le entry.size.toNat_lt (by decide)),
    numberAt_eq htype (Nat.lt_of_lt_of_le entry.type.toNat_lt (by decide))]
  rfl

/-- The segments of a file go nowhere where the boot information is. -/
structure Spares (file cmdline : List UInt8) : Prop where
  info : Misses ((segments file).flatMap Segment.copies) multibootGuest.toNat multibootInfoSize
  cmdline : Misses ((segments file).flatMap Segment.copies) cmdlineGuest.toNat (cmdline.length + 1)
  memoryMap : Misses ((segments file).flatMap Segment.copies) memoryGuest.toNat memoryMapSize

section Boot
variable {vm : Vm} {e : MemoryEntry} {list : LinkedList MemoryEntry} {nodes : List Nat}
  {cells : Nat → Option UInt8} {cmdline : List UInt8} {segs : List (Nat × List UInt8)}

theorem bootAddresses : multibootGuest.toNat = 0xc10000 ∧ cmdlineGuest.toNat = 0xc20000 ∧
    memoryGuest.toNat = 0xc30000 := ⟨rfl, rfl, rfl⟩

/-- What a copy of the boot information leaves, if none after it goes there. -/
theorem slice_bootCopy (before : List (Nat × List UInt8)) {after : List (Nat × List UInt8)}
    {a n : Nat} {bytes : List UInt8} (hsplit : bootCopies e cmdline = before ++ (a, bytes) :: after)
    (hafter : Misses after a n) (hsegs : Misses segs a n) (hn : bytes.length = n) :
    slice (overwriteAll cells (bootCopies e cmdline ++ segs)) a n = bytes.map some := by
  rw [hsplit, List.append_assoc]
  exact slice_overwriteAll_whole (misses_append.mpr ⟨hafter, hsegs⟩) hn

/-- A field of the multiboot information. -/
theorem infoField_eq (before : List (Nat × List UInt8)) {after : List (Nat × List UInt8)}
    {k n : Nat} (hsplit : bootCopies e cmdline =
      before ++ (multibootGuest.toNat + k, Bytes.le 4 n) :: after)
    (hafter : Misses after (multibootGuest.toNat + k) 4)
    (hmiss : Misses segs multibootGuest.toNat multibootInfoSize)
    (hk : k + 4 ≤ multibootInfoSize) (hn : n < 256 ^ 4) :
    numberAt (overwriteAll cells (bootCopies e cmdline ++ segs)) (multibootGuest.toNat + k) 4 =
      some n := by
  rw [hsplit, List.append_assoc]
  exact numberAt_copied (misses_append.mpr ⟨hafter, hmiss.part (by omega) (by omega)⟩) hn

/-- The flags are what the `memset` has left. -/
theorem flags_eq (hmiss : Misses segs multibootGuest.toNat multibootInfoSize) :
    numberAt (overwriteAll cells (bootCopies e cmdline ++ segs)) multibootGuest.toNat 4 =
      some 0 := by
  have hafter : Misses ((bootCopies e cmdline).tail ++ segs) (multibootGuest.toNat + 0) 4 := by
    refine misses_append.mpr ⟨?_, hmiss.part (by omega) (by decide)⟩
    rw [bootCopies, List.tail_cons]
    simp only [misses_cons, misses_nil, Bytes.length_le, E820Entry.length_memoryMap,
      List.length_append, List.length_singleton, bootAddresses, and_true]
    omega
  have hzeros : slice (overwriteAll cells ([] ++ (multibootGuest.toNat,
      List.replicate multibootInfoSize 0) :: ((bootCopies e cmdline).tail ++ segs)))
      (multibootGuest.toNat + 0) 4 = (Bytes.le 4 0).map some :=
    slice_overwriteAll_last hafter (by decide)
  exact numberAt_eq hzeros (by decide)

theorem memLower_eq (hmiss : Misses segs multibootGuest.toNat multibootInfoSize) :
    numberAt (overwriteAll cells (bootCopies e cmdline ++ segs)) (multibootGuest.toNat + 4) 4 =
      some 0x1000 := by
  refine infoField_eq [_, _, _, _] rfl ?_ hmiss (by decide) (by decide)
  simp only [misses_cons, misses_nil, Bytes.length_le, List.length_append, List.length_singleton,
    bootAddresses, and_true]
  omega

theorem cmdlineAddr_eq (hmiss : Misses segs multibootGuest.toNat multibootInfoSize) :
    numberAt (overwriteAll cells (bootCopies e cmdline ++ segs)) (multibootGuest.toNat + 16) 4 =
      some cmdlineGuest.toNat :=
  infoField_eq [_, _, _, _, _, _] rfl misses_nil hmiss (by decide) (by decide)

theorem mmapLength_eq (hmiss : Misses segs multibootGuest.toNat multibootInfoSize) :
    numberAt (overwriteAll cells (bootCopies e cmdline ++ segs)) (multibootGuest.toNat + 44) 4 =
      some memoryMapSize := by
  refine infoField_eq [_, _, _] rfl ?_ hmiss (by decide) (by decide)
  simp only [misses_cons, misses_nil, Bytes.length_le, List.length_append, List.length_singleton,
    bootAddresses, and_true]
  omega

theorem mmapAddr_eq (hmiss : Misses segs multibootGuest.toNat multibootInfoSize) :
    numberAt (overwriteAll cells (bootCopies e cmdline ++ segs)) (multibootGuest.toNat + 48) 4 =
      some memoryGuest.toNat := by
  refine infoField_eq [_] rfl ?_ hmiss (by decide) (by decide)
  simp only [misses_cons, misses_nil, Bytes.length_le, E820Entry.length_memoryMap,
    List.length_append, List.length_singleton, bootAddresses, and_true]
  omega

/-- The command line, with the NUL behind it. -/
theorem slice_cmdline (hmiss : Misses segs cmdlineGuest.toNat (cmdline.length + 1)) :
    slice (overwriteAll cells (bootCopies e cmdline ++ segs)) cmdlineGuest.toNat
      (cmdline.length + 1) = (cmdline ++ [0]).map some := by
  refine slice_bootCopy [_, _, _, _, _] rfl ?_ hmiss List.length_append
  simp only [misses_cons, misses_nil, Bytes.length_le, bootAddresses, and_true]
  omega

/-- The memory map, if the command line ends before it. -/
theorem slice_memoryMap (hline : cmdline.length < 2 ^ 16)
    (hmiss : Misses segs memoryGuest.toNat memoryMapSize) :
    slice (overwriteAll cells (bootCopies e cmdline ++ segs)) memoryGuest.toNat memoryMapSize =
      (e820Entry e).memoryMap.map some := by
  refine slice_bootCopy [_, _] rfl ?_ hmiss rfl
  simp only [misses_cons, misses_nil, Bytes.length_le, List.length_append, List.length_singleton,
    bootAddresses, and_true]
  rw [show memoryMapSize = 24 from rfl]
  omega

/-- **The guest is told what the VM has.**  Unless a segment goes over the boot information, or
the command line, of 2^16 bytes or more, over the memory map. -/
theorem k_guest_finds_boot_info (h : vm.LowRam e) (hl : list.Holds nodes [e])
    {host host' : HostMemory} {file cmdline : List UInt8} {answers : LoadAnswers} {regs' : KvmRegs}
    (hload : loadK vm host list (some file) cmdline answers = .ok (host', regs'))
    (hspares : Spares file cmdline) (hnul : (0 : UInt8) ∉ cmdline)
    (hline : cmdline.length < 2 ^ 16) {limit : Nat} (hlimit : cmdline.length < limit) :
    regs'.rax = multibootHeaderMagic ∧
      bootInfoAt (view vm.translate host') regs'.rbx.toNat limit =
        some { flags := 0, memLower := 0x1000, cmdline, memoryMap := [(e820Entry e).told] } := by
  obtain ⟨hseen, rfl⟩ := loadK_seen h hl hload
  refine ⟨rfl, ?_⟩
  rw [hseen, show (startRegs file answers.regs).rbx = multibootGuest from rfl]
  rw [bootInfoAt, flags_eq hspares.info, memLower_eq hspares.info, cmdlineAddr_eq hspares.info,
    mmapLength_eq hspares.info, mmapAddr_eq hspares.info]
  have hentry : memoryMapEntryAt (overwriteAll (view vm.translate host)
      (bootCopies e cmdline ++ (segments file).flatMap Segment.copies)) memoryGuest.toNat =
      some (e820Entry e).told :=
    memoryMapEntryAt_eq (slice_memoryMap hline hspares.memoryMap)
  have hmap : (List.range (memoryMapSize / memoryMapSize)).mapM (fun i =>
      memoryMapEntryAt (overwriteAll (view vm.translate host)
        (bootCopies e cmdline ++ (segments file).flatMap Segment.copies))
        (memoryGuest.toNat + memoryMapSize * i)) = some [(e820Entry e).told] := by
    rw [show memoryMapSize / memoryMapSize = 1 from rfl, List.range_one, List.mapM_cons,
      Nat.mul_zero, Nat.add_zero, hentry]
    rfl
  simp only [Option.bind_eq_bind, Option.bind_some, stringAt_eq (slice_cmdline hspares.cmdline)
    hnul hlimit, hmap]

theorem k_guest_finds_boot_info_small : ∃ (vm : Vm) (e : MemoryEntry)
    (list : LinkedList MemoryEntry) (nodes : List Nat) (host' : HostMemory) (regs' : KvmRegs),
    vm.LowRam e ∧ list.Holds nodes [e] ∧
    loadK vm (fun _ => 0) list (some smallKernel) [0x6B] grants = .ok (host', regs') ∧
    regs'.rax = multibootHeaderMagic ∧
      bootInfoAt (view vm.translate host') regs'.rbx.toNat 0x10000 =
        some { flags := 0, memLower := 0x1000, cmdline := [0x6B],
               memoryMap := [(e820Entry e).told] } := by
  obtain ⟨vm, e, list, nodes, hlow, hsize, hlist⟩ := exists_gigabyte
  obtain ⟨⟨host', regs'⟩, hload⟩ :=
    (loadK_ok_iff hlow hlist (fun _ => 0) (some smallKernel) [0x6B] grants).mpr
      ⟨smallKernel, rfl, by rw [hsize]; exact smallKernel_fits⟩
  refine ⟨vm, e, list, nodes, host', regs', hlow, hlist, hload, ?_⟩
  exact k_guest_finds_boot_info hlow hlist hload ⟨by decide, by decide, by decide⟩ (by decide)
    (by decide) (by decide)

/-! ## The segments -/

/-- The addresses of a segment: those of its zeros, and those of its bytes. -/
def Segment.span (s : Segment) : Spans.Span := ⟨s.base, max s.memsz s.bytes.length⟩

/-- The copies of other segments miss it. -/
theorem Segment.misses {s : Segment} {others : List Segment}
    (h : ∀ t ∈ others, s.span.Disjoint t.span) :
    Misses (others.flatMap Segment.copies) s.base (max s.memsz s.bytes.length) := by
  intro c hc
  obtain ⟨t, ht, hct⟩ := List.mem_flatMap.mp hc
  have hapart := Spans.Span.disjoint_iff.mp (h t ht)
  have hle : c.1 = t.base ∧ c.2.length ≤ max t.memsz t.bytes.length := by
    rcases List.mem_cons.mp hct with rfl | hct
    · exact ⟨rfl, by rw [List.length_replicate]; exact Nat.le_max_left ..⟩
    · rw [List.mem_singleton.mp hct]
      exact ⟨rfl, Nat.le_max_right ..⟩
  unfold Segment.span at hapart
  dsimp only at hapart
  omega

/-- **Each segment is where its header says**, its bytes first and zeros behind them, if no two
segments overlap. -/
theorem k_segments_in_place (h : vm.LowRam e) (hl : list.Holds nodes [e])
    {host host' : HostMemory} {file cmdline : List UInt8} {answers : LoadAnswers} {regs' : KvmRegs}
    (hload : loadK vm host list (some file) cmdline answers = .ok (host', regs'))
    (hdisjoint : (segments file).Pairwise fun s t => s.span.Disjoint t.span) :
    ∀ s ∈ segments file,
      slice (view vm.translate host') s.base s.bytes.length = s.bytes.map some ∧
      slice (view vm.translate host') (s.base + s.bytes.length) (s.memsz - s.bytes.length) =
        (List.replicate (s.memsz - s.bytes.length) 0).map some := by
  obtain ⟨hseen, -⟩ := loadK_seen h hl hload
  intro s hs
  obtain ⟨before, after, hsplit⟩ := List.append_of_mem hs
  rw [hsplit] at hdisjoint hseen
  have hapart : ∀ t ∈ after, s.span.Disjoint t.span :=
    fun t ht => List.rel_of_pairwise_cons (List.pairwise_append.mp hdisjoint).2.1 ht
  have hmiss := Segment.misses hapart
  have hcopies : bootCopies e cmdline ++ (before ++ s :: after).flatMap Segment.copies =
      (bootCopies e cmdline ++ before.flatMap Segment.copies) ++
        (s.base, List.replicate s.memsz 0) :: (s.base, s.bytes) ::
          after.flatMap Segment.copies := by
    rw [List.flatMap_append, List.flatMap_cons, List.append_assoc]
    rfl
  rw [hseen, hcopies]
  constructor
  · rw [List.append_cons]
    exact slice_overwriteAll_whole (hmiss.part (Nat.le_refl _) (by omega)) rfl
  · by_cases hle : s.bytes.length ≤ s.memsz
    · have hafter : Misses ((s.base, s.bytes) :: after.flatMap Segment.copies)
          (s.base + s.bytes.length) (s.memsz - s.bytes.length) :=
        misses_cons.mpr ⟨.inr (.inr (.inr (Nat.le_refl (s.base + s.bytes.length)))),
          hmiss.part (Nat.le_add_right ..) (by omega)⟩
      refine (slice_overwriteAll_last hafter (by rw [List.length_replicate]; omega)).trans ?_
      rw [List.drop_replicate, List.take_replicate, Nat.min_self]
    · rw [Nat.sub_eq_zero_of_le (Nat.le_of_not_le hle)]
      rfl

theorem k_segments_in_place_small : ∃ (vm : Vm) (e : MemoryEntry)
    (list : LinkedList MemoryEntry) (nodes : List Nat) (host' : HostMemory) (regs' : KvmRegs),
    vm.LowRam e ∧ list.Holds nodes [e] ∧
    loadK vm (fun _ => 0) list (some smallKernel) [0x6B] grants = .ok (host', regs') ∧
    ∀ s ∈ segments smallKernel,
      slice (view vm.translate host') s.base s.bytes.length = s.bytes.map some ∧
      slice (view vm.translate host') (s.base + s.bytes.length) (s.memsz - s.bytes.length) =
        (List.replicate (s.memsz - s.bytes.length) 0).map some := by
  obtain ⟨vm, e, list, nodes, hlow, hsize, hlist⟩ := exists_gigabyte
  obtain ⟨⟨host', regs'⟩, hload⟩ :=
    (loadK_ok_iff hlow hlist (fun _ => 0) (some smallKernel) [0x6B] grants).mpr
      ⟨smallKernel, rfl, by rw [hsize]; exact smallKernel_fits⟩
  refine ⟨vm, e, list, nodes, host', regs', hlow, hlist, hload, ?_⟩
  exact k_segments_in_place hlow hlist hload (List.pairwise_singleton _ _)

end Boot

end BlackHV
