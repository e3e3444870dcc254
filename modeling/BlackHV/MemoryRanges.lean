import BlackHV.Memory
import BlackHV.Runs
import Mathlib.Algebra.Group.Nat.Defs

/-! # When the memory map is unambiguous

The map is meant to tell, for every physical address, the one entry the address lies
in.  Both `check_addr_available` and `find_entry` compute the end of a range in 64
bits.  For RAM, KVM rejects a range whose end does not fit; for MMIO nothing does, and
an entry that is let in then is one `find_entry` never returns.
-/
namespace BlackHV

open Spans

namespace MemoryEntry

/-- The addresses of an entry, as natural numbers. -/
def span (entry : MemoryEntry) : Span := ⟨entry.guestPhys.toNat, entry.size.toNat⟩

/-- The end of the entry fits in 64 bits. -/
def Fits (entry : MemoryEntry) : Prop := entry.guestPhys.toNat + entry.size.toNat < 2 ^ 64

variable {entry : MemoryEntry}

/-- `find_entry` is right about an entry that fits. -/
theorem covers_iff (h : entry.Fits) (addr : UInt64) :
    entry.covers addr = true ↔ entry.span.Contains addr.toNat := by
  have hend : (entry.guestPhys + entry.size).toNat = entry.guestPhys.toNat + entry.size.toNat := by
    rw [UInt64.toNat_add, Nat.mod_eq_of_lt h]
  simp only [covers, Bool.and_eq_true, decide_eq_true_eq, gt_iff_lt, UInt64.le_iff_toNat_le,
    UInt64.lt_iff_toNat_lt, hend]
  rfl

/-- `find_entry` misses the first address of an entry that does not fit. -/
theorem not_covers_of_wraps (h : ¬ entry.Fits) : entry.covers entry.guestPhys = false := by
  have hbase := entry.guestPhys.toNat_lt
  have hsize := entry.size.toNat_lt
  simp only [Fits] at h
  simp only [covers, Bool.and_eq_false_imp, decide_eq_true_eq, decide_eq_false_iff_not, gt_iff_lt,
    UInt64.lt_iff_toNat_lt, UInt64.toNat_add]
  omega

/-- A range that does not conflict with an entry is disjoint from it, if both fit. -/
theorem disjoint_of_not_conflicts (h : entry.Fits) {new : MemoryEntry} (hnew : new.Fits)
    (hc : entry.conflicts new.guestPhys new.size = false) : entry.span.Disjoint new.span := by
  have hend : (entry.guestPhys + entry.size).toNat = entry.guestPhys.toNat + entry.size.toNat := by
    rw [UInt64.toNat_add, Nat.mod_eq_of_lt h]
  have hend' : (new.guestPhys + new.size).toNat = new.guestPhys.toNat + new.size.toNat := by
    rw [UInt64.toNat_add, Nat.mod_eq_of_lt hnew]
  simp only [conflicts, Bool.or_eq_false_iff, Bool.and_eq_false_imp, decide_eq_true_eq,
    decide_eq_false_iff_not, gt_iff_lt, ge_iff_le, UInt64.le_iff_toNat_le, UInt64.lt_iff_toNat_lt,
    hend, hend'] at hc
  obtain ⟨hlow, hhigh⟩ := hc
  -- whichever of the two is lower ends before the other starts
  by_cases hle : entry.guestPhys.toNat ≤ new.guestPhys.toNat
  · exact Span.disjoint_of_le (Nat.le_of_not_lt (hlow hle))
  · refine (Span.disjoint_of_le ?_).symm
    show new.guestPhys.toNat + new.size.toNat ≤ entry.guestPhys.toNat
    refine Nat.le_of_not_le fun hge => hhigh hge ?_
    omega

end MemoryEntry

/-! ## What one call does to the entries -/

/-- A call of `memory_alloc`, with what the host answers. -/
structure AllocCall where
  physAddr : UInt64
  size : UInt64
  type : UInt32
  host : HostAnswers
  deriving DecidableEq

namespace AllocCall

/-- The call asks for RAM: memory that is given to KVM. -/
def IsRam (c : AllocCall) : Prop := c.type = memoryFramebuffer ∨ c.type = memoryUsable

instance (c : AllocCall) : Decidable c.IsRam := inferInstanceAs (Decidable (_ ∨ _))

/-- The end of the range fits in 64 bits. -/
def Fits (c : AllocCall) : Prop := c.physAddr.toNat + c.size.toNat < 2 ^ 64

end AllocCall

namespace Vm

/-- One call of `memory_alloc`. -/
def alloc (vm : Vm) (c : AllocCall) : Except Fault Vm :=
  .ok (memoryAlloc vm c.physAddr c.size c.type c.host).1

/-- The entry that a call makes if it gets to the allocation. -/
def entryMade (vm : Vm) (c : AllocCall) : Option MemoryEntry :=
  if c.IsRam then
    if c.host.entry = true ∧ c.host.mmap ≠ 0 ∧ c.host.ioctl = true then
      some { guestPhys := c.physAddr, memoryPtr := c.host.mmap, size := c.size,
             slot := vm.nextSlot, type := memoryUsable }
    else
      none
  else if c.type = memoryMmio ∧ c.host.entry = true then
    some { guestPhys := c.physAddr, memoryPtr := 0, size := c.size, slot := 0, type := memoryMmio }
  else
    none

/-- The entry that a call adds to the list, if it adds one. -/
def entryAdded (vm : Vm) (c : AllocCall) : Option MemoryEntry :=
  if checkAddrAvailable vm c.physAddr c.size = true ∧ c.host.node = true then
    vm.entryMade c
  else
    none

/-- `allocate_usable` makes an entry if nothing it calls fails, and leaves the list to
its caller. -/
theorem allocateUsable_entry (vm : Vm) (physAddr size : UInt64) (host : HostAnswers) :
    (allocateUsable vm physAddr size host).1.memoryEntries = vm.memoryEntries ∧
    (allocateUsable vm physAddr size host).2 =
      if host.entry = true ∧ host.mmap ≠ 0 ∧ host.ioctl = true then
        some { guestPhys := physAddr, memoryPtr := host.mmap, size, slot := vm.nextSlot,
               type := memoryUsable }
      else
        none := by
  unfold allocateUsable
  by_cases he : host.entry = true
  · by_cases hm : host.mmap = 0
    · simp [he, hm]
    · by_cases hi : host.ioctl = true
      · simp [he, hm, hi, setUserMemoryRegion]
      · simp [he, hm, hi, munmap]
  · simp [he]

theorem allocateEntry_entry (vm : Vm) (c : AllocCall) :
    (allocateEntry vm c.physAddr c.size c.type c.host).1.memoryEntries = vm.memoryEntries ∧
    (allocateEntry vm c.physAddr c.size c.type c.host).2 = vm.entryMade c := by
  unfold allocateEntry entryMade
  by_cases hram : c.IsRam
  · rw [if_pos (show _ ∨ _ from hram), if_pos hram]
    exact allocateUsable_entry vm c.physAddr c.size c.host
  · rw [if_neg (show ¬ (_ ∨ _) from hram), if_neg hram]
    by_cases hmmio : c.type = memoryMmio
    · cases he : c.host.entry <;> simp [hmmio, allocateMmio, he]
    · simp [hmmio]

/-- A call for a range that is taken is refused at once. -/
theorem memoryAlloc_taken {vm : Vm} {c : AllocCall}
    (hcheck : ¬ checkAddrAvailable vm c.physAddr c.size = true) :
    memoryAlloc vm c.physAddr c.size c.type c.host = (vm, false) :=
  if_pos (by simpa using hcheck)

/-- A call that makes no entry ends after the `switch`. -/
theorem memoryAlloc_none {vm : Vm} {c : AllocCall}
    (hcheck : checkAddrAvailable vm c.physAddr c.size = true) (hmade : vm.entryMade c = none) :
    memoryAlloc vm c.physAddr c.size c.type c.host =
      ((allocateEntry vm c.physAddr c.size c.type c.host).1, false) := by
  obtain ⟨-, hentry⟩ := allocateEntry_entry vm c
  unfold memoryAlloc
  rw [if_neg (by simp [hcheck])]
  generalize allocateEntry vm c.physAddr c.size c.type c.host = r at hentry
  obtain ⟨vm', made⟩ := r
  obtain rfl : made = none := hentry.trans hmade
  rfl

/-- A call that makes an entry returns 1, and lists the entry if there is a node for it. -/
theorem memoryAlloc_some {vm : Vm} {c : AllocCall} {e : MemoryEntry}
    (hcheck : checkAddrAvailable vm c.physAddr c.size = true) (hmade : vm.entryMade c = some e) :
    memoryAlloc vm c.physAddr c.size c.type c.host =
      (if c.host.node then
        { (allocateEntry vm c.physAddr c.size c.type c.host).1 with
          memoryEntries := vm.memoryEntries ++ [e] }
      else (allocateEntry vm c.physAddr c.size c.type c.host).1, true) := by
  obtain ⟨hlist, hentry⟩ := allocateEntry_entry vm c
  unfold memoryAlloc
  rw [if_neg (by simp [hcheck])]
  generalize allocateEntry vm c.physAddr c.size c.type c.host = r at hlist hentry
  obtain ⟨vm', made⟩ := r
  obtain rfl : made = some e := hentry.trans hmade
  rw [← show vm'.memoryEntries = vm.memoryEntries from hlist]
  cases c.host.node with
  | true => rfl
  | false => rfl

/-- A call leaves the entries as they are, or adds one behind them. -/
theorem memoryEntries_alloc (vm : Vm) (c : AllocCall) :
    (memoryAlloc vm c.physAddr c.size c.type c.host).1.memoryEntries =
      vm.memoryEntries ++ (vm.entryAdded c).toList := by
  obtain ⟨hlist, -⟩ := allocateEntry_entry vm c
  unfold entryAdded
  by_cases hcheck : checkAddrAvailable vm c.physAddr c.size = true
  · cases hmade : vm.entryMade c with
    | none =>
        rw [memoryAlloc_none hcheck hmade, ite_self, Option.toList_none, List.append_nil]
        exact hlist
    | some e =>
        rw [memoryAlloc_some hcheck hmade]
        cases hnode : c.host.node with
        | true => rw [if_pos rfl, if_pos ⟨hcheck, rfl⟩, Option.toList_some]
        | false =>
            rw [if_neg Bool.false_ne_true, if_neg fun h => Bool.false_ne_true h.2,
              Option.toList_none, List.append_nil]
            exact hlist
  · rw [memoryAlloc_taken hcheck, if_neg fun h => hcheck h.1, Option.toList_none, List.append_nil]

/-! ## The invariant -/

/-- Every entry fits. -/
def AllFit (vm : Vm) : Prop := ∀ e ∈ vm.memoryEntries, e.Fits

/-- The ranges of the entries are pairwise disjoint, as sets of natural numbers. -/
def RangesDisjoint (vm : Vm) : Prop :=
  vm.memoryEntries.Pairwise fun e f => e.span.Disjoint f.span

/-- The map tells the entry of every address: no two ranges overlap, and `find_entry`
returns the entry whose range an address lies in. -/
structure Unambiguous (vm : Vm) : Prop where
  disjoint : vm.RangesDisjoint
  found : ∀ (addr : UInt64), ∀ e ∈ vm.memoryEntries, e.span.Contains addr.toNat →
    findEntry vm addr = some e

variable {vm : Vm}

theorem covers_of_findEntry {addr : UInt64} {e : MemoryEntry} (h : findEntry vm addr = some e) :
    e.covers addr = true := by
  have hcovers := List.find?_some h
  exact hcovers

/-- What `find_entry` returns is in the list and has the address in its range. -/
theorem findEntry_some (hfit : vm.AllFit) {addr : UInt64} {e : MemoryEntry}
    (h : findEntry vm addr = some e) : e ∈ vm.memoryEntries ∧ e.span.Contains addr.toNat := by
  have hmem := List.mem_of_find?_eq_some h
  exact ⟨hmem, (MemoryEntry.covers_iff (hfit e hmem) addr).mp (covers_of_findEntry h)⟩

theorem unambiguous (hfit : vm.AllFit) (hdisj : vm.RangesDisjoint) : vm.Unambiguous := by
  refine ⟨hdisj, fun addr e he hin => ?_⟩
  refine find?_eq_some (R := fun e f => e ∈ vm.memoryEntries ∧ f ∈ vm.memoryEntries ∧
    e.span.Disjoint f.span) ?_ ?_ he ((MemoryEntry.covers_iff (hfit e he) addr).mpr hin)
  · rintro x y ⟨hx, hy, hxy⟩ hpx hpy
    exact hxy addr.toNat ((MemoryEntry.covers_iff (hfit x hx) addr).mp hpx)
      ((MemoryEntry.covers_iff (hfit y hy) addr).mp hpy)
  · exact hdisj.imp_of_mem fun hx hy hxy => ⟨hx, hy, hxy⟩

/-- A range that `check_addr_available` lets in, and that fits, is disjoint from an entry
that fits. -/
theorem disjoint_of_available {e new : MemoryEntry} (he : e ∈ vm.memoryEntries) (hfit : e.Fits)
    (hnew : new.Fits) (hcheck : checkAddrAvailable vm new.guestPhys new.size = true) :
    e.span.Disjoint new.span := by
  refine MemoryEntry.disjoint_of_not_conflicts hfit hnew ?_
  simpa using List.all_eq_true.mp hcheck e he

/-- It overlaps no other, if all of them fit. -/
theorem rangesDisjoint_concat (hfit : vm.AllFit) (hdisj : vm.RangesDisjoint) {new : MemoryEntry}
    (hnew : new.Fits) (hcheck : checkAddrAvailable vm new.guestPhys new.size = true) :
    (vm.memoryEntries ++ [new]).Pairwise fun e f => e.span.Disjoint f.span := by
  refine List.pairwise_append.mpr ⟨hdisj, List.pairwise_singleton _ _, fun e he f hf => ?_⟩
  rw [List.mem_singleton.mp hf]
  exact disjoint_of_available he (hfit e he) hnew hcheck

/-! ## Runs -/

/-- KVM's own check: it accepts no region whose end does not fit. -/
def KvmChecksEnd (c : AllocCall) : Prop := c.IsRam → c.host.ioctl = true → c.Fits

/-- An MMIO range that is let in fits. -/
def MmioFits (vm : Vm) (c : AllocCall) : Prop :=
  c.type = memoryMmio → checkAddrAvailable vm c.physAddr c.size = true →
    c.host.entry = true → c.host.node = true → c.Fits

/-- The entry a call makes is the range it asks for, as RAM or as MMIO. -/
theorem entryMade_some {c : AllocCall} {e : MemoryEntry} (h : vm.entryMade c = some e) :
    e.guestPhys = c.physAddr ∧ e.size = c.size ∧
      ((c.IsRam ∧ c.host.ioctl = true ∧ c.host.mmap ≠ 0 ∧ e.memoryPtr = c.host.mmap ∧
          e.type = memoryUsable) ∨
        (c.type = memoryMmio ∧ c.host.entry = true ∧ e.type = memoryMmio)) := by
  unfold entryMade at h
  split at h
  · rename_i hram
    split at h
    · rename_i hok
      cases h
      exact ⟨rfl, rfl, Or.inl ⟨hram, hok.2.2, hok.2.1, rfl, rfl⟩⟩
    · cases h
  · split at h
    · rename_i hmmio
      cases h
      exact ⟨rfl, rfl, Or.inr ⟨hmmio.1, hmmio.2, rfl⟩⟩
    · cases h

/-- The entry a call adds is the range it asks for, which was available. -/
theorem entryAdded_some {c : AllocCall} {e : MemoryEntry} (h : vm.entryAdded c = some e) :
    checkAddrAvailable vm c.physAddr c.size = true ∧ c.host.node = true ∧
      e.guestPhys = c.physAddr ∧ e.size = c.size ∧
      ((c.IsRam ∧ c.host.ioctl = true ∧ c.host.mmap ≠ 0 ∧ e.memoryPtr = c.host.mmap ∧
          e.type = memoryUsable) ∨
        (c.type = memoryMmio ∧ c.host.entry = true ∧ e.type = memoryMmio)) := by
  unfold entryAdded at h
  split at h
  · rename_i hc
    exact ⟨hc.1, hc.2, entryMade_some h⟩
  · cases h

/-- A call whose range fits, if it is let in, keeps the map unambiguous. -/
theorem alloc_keeps (hfit : vm.AllFit) (h : vm.Unambiguous) {c : AllocCall} (hk : KvmChecksEnd c)
    (hc : vm.MmioFits c) : ∃ vm', vm.alloc c = .ok vm' ∧ vm'.AllFit ∧ vm'.Unambiguous := by
  refine ⟨_, rfl, ?_⟩
  have hentries := vm.memoryEntries_alloc c
  generalize (memoryAlloc vm c.physAddr c.size c.type c.host).1 = vm' at hentries
  have hkeep : vm'.AllFit ∧ vm'.RangesDisjoint := by
    unfold AllFit RangesDisjoint
    rw [hentries]
    cases he : vm.entryAdded c with
    | none =>
        rw [Option.toList_none, List.append_nil]
        exact ⟨hfit, h.disjoint⟩
    | some e =>
        obtain ⟨hcheck, hnode, hphys, hsize, hkind⟩ := entryAdded_some he
        have hnew : e.Fits := by
          unfold MemoryEntry.Fits
          rw [hphys, hsize]
          rcases hkind with ⟨hram, hioctl, -⟩ | ⟨hmmio, hentry, -⟩
          · exact hk hram hioctl
          · exact hc hmmio hcheck hentry hnode
        refine ⟨?_, rangesDisjoint_concat hfit h.disjoint hnew (by rw [hphys, hsize]; exact hcheck)⟩
        intro f hf
        rcases List.mem_append.mp hf with hold | hlast
        · exact hfit f hold
        · rw [List.mem_singleton.mp hlast]
          exact hnew
  exact ⟨hkeep.1, unambiguous hkeep.1 hkeep.2⟩

/-- An MMIO range that is let in and does not fit is never found again. -/
theorem alloc_breaks {c : AllocCall} (hc : ¬ vm.MmioFits c) {vm' : Vm} (he : vm.alloc c = .ok vm') :
    ¬ vm'.Unambiguous := by
  unfold MmioFits at hc
  simp only [Classical.not_imp] at hc
  obtain ⟨hmmio, hcheck, hentry, hnode, hwraps⟩ := hc
  have hram : ¬ c.IsRam := by
    rw [AllocCall.IsRam, hmmio]
    decide
  cases he
  have hentries := vm.memoryEntries_alloc c
  rw [entryAdded, if_pos ⟨hcheck, hnode⟩, entryMade, if_neg hram, if_pos ⟨hmmio, hentry⟩,
    Option.toList_some] at hentries
  generalize (memoryAlloc vm c.physAddr c.size c.type c.host).1 = vm' at hentries
  intro h
  have hphys := c.physAddr.toNat_lt
  unfold AllocCall.Fits at hwraps
  have hfind := h.found c.physAddr _ (by rw [hentries]; exact List.mem_concat_self)
    ⟨Nat.le_refl _, by show c.physAddr.toNat < c.physAddr.toNat + c.size.toNat; omega⟩
  have hcov := covers_of_findEntry hfind
  rw [MemoryEntry.not_covers_of_wraps (by exact hwraps)] at hcov
  cases hcov

end Vm

/-- **The map is unambiguous exactly as long as no MMIO range that is let in reaches the
end of the address space.**  In a run of calls of `memory_alloc` on a new map, with KVM
rejecting RAM whose end does not fit in 64 bits, the entries are disjoint and
`find_entry` returns the entry of every address, in every state of the run, if and only
if every MMIO range that gets an entry has an end that fits. -/
theorem memory_map_unambiguous_iff {calls : List AllocCall}
    (hk : ∀ c ∈ calls, Vm.KvmChecksEnd c) :
    Runs.AlwaysAlong Vm.alloc Vm.Unambiguous Vm.new calls ↔
      Runs.EachStep Vm.alloc Vm.MmioFits Vm.new calls :=
  Runs.alwaysAlong_iff_eachStep (I := Vm.AllFit)
    (fun _ _ hfit h hk hc => Vm.alloc_keeps hfit h hk hc)
    (fun _ _ _ _ _ _ hc he => Vm.alloc_breaks hc he)
    (fun _ he => absurd he List.not_mem_nil)
    ⟨show Vm.new.RangesDisjoint from List.Pairwise.nil,
      fun _ _ he => absurd he List.not_mem_nil⟩
    (Runs.eachStep_of_forall hk)

/-- RAM at the bottom, MMIO in the middle, and a RAM range that overlaps the first. -/
theorem memory_map_unambiguous_iff_three :
    Runs.AlwaysAlong Vm.alloc Vm.Unambiguous Vm.new
        [⟨0, 0x100000, memoryUsable, ⟨true, 0x7F0000000000, true, true⟩⟩,
          ⟨0xC0000000, 0x1000, memoryMmio, ⟨true, 0, true, true⟩⟩,
          ⟨0x8000, 0x1000, memoryUsable, ⟨true, 0x7F0000200000, true, true⟩⟩] ↔
      Runs.EachStep Vm.alloc Vm.MmioFits Vm.new
        [⟨0, 0x100000, memoryUsable, ⟨true, 0x7F0000000000, true, true⟩⟩,
          ⟨0xC0000000, 0x1000, memoryMmio, ⟨true, 0, true, true⟩⟩,
          ⟨0x8000, 0x1000, memoryUsable, ⟨true, 0x7F0000200000, true, true⟩⟩] :=
  memory_map_unambiguous_iff (by
    intro c hc
    simp only [List.mem_cons, List.not_mem_nil, or_false] at hc
    rcases hc with rfl | rfl | rfl <;> exact fun _ _ => by unfold AllocCall.Fits; decide)

/-- An MMIO range of two pages at the last page of the address space is let in, and so
is a second one inside its first page: the two overlap, and neither is found at the
address where it starts. -/
theorem memory_map_overlap :
    ¬ Runs.AlwaysAlong Vm.alloc Vm.Unambiguous Vm.new
      [⟨0xFFFFFFFFFFFFF000, 0x2000, memoryMmio, ⟨true, 0, true, true⟩⟩,
        ⟨0xFFFFFFFFFFFFF800, 0x100, memoryMmio, ⟨true, 0, true, true⟩⟩] := by
  intro h
  obtain ⟨vm, hvm, hu⟩ := h.last
  cases hvm
  have hlist : List.Pairwise _ [_, _] := hu.disjoint
  rw [List.pairwise_pair] at hlist
  exact hlist 0xFFFFFFFFFFFFF800 (by decide) (by decide)

end BlackHV
