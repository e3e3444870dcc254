import BlackHV.GuestMemory
import BlackHV.KvmSlots
import BlackHV.MemoryAvailable

/-! # One memory, for the guest and for the process

`memory_write`, `memory_read` and `memory_get_ptr` find RAM in the list of entries.  The
guest finds it in KVM's slots, which `allocate_usable` fills: an access to an address of a
slot's region is an access to the process's memory behind it, and an access to any other
address leaves the guest with `KVM_EXIT_MMIO`.  The two have nothing in common but what
`memory_alloc` has told both of them.

`PhysicalMemory` is the memory both are meant to see: ranges, and the bytes of those that
are RAM.  Neither host addresses nor slot numbers occur in it, and its sums do not wrap.
-/
namespace BlackHV

open Spans FlatMemory

/-! ## The abstract memory -/

/-- An allocation, an access by the process, or a byte that the guest stores or loads. -/
inductive MemoryEvent where
  | alloc (call : AllocCall)
  | library (a : MemoryAccess)
  | guestStore (addr : UInt64) (b : UInt8)
  | guestLoad (addr : UInt64)

/-- Whether `memory_alloc` returns 1, what the access of the process answers, the byte the
guest gets, or that the guest exits. -/
inductive MemoryReply where
  | allocated (ok : Bool)
  | library (a : MemoryAnswer)
  | stored
  | loaded (b : Option UInt8)
  | exits
  deriving DecidableEq

/-- Ranges in the order of their allocation, whether each of them is RAM, and the bytes. -/
structure PhysicalMemory where
  ranges : List (Span × Bool)
  cells : Nat → Option UInt8

namespace PhysicalMemory

/-- No memory. -/
def empty : PhysicalMemory := { ranges := [], cells := fun _ => none }

/-- The range of RAM that has the address. -/
def ramAt (m : PhysicalMemory) (a : Nat) : Option Span :=
  (m.ranges.find? fun r => r.2 && decide (r.1.Contains a)).map Prod.fst

/-- The memory without what is not RAM. -/
def flat (m : PhysicalMemory) : GuestMemory :=
  { cells := m.cells, writable := m.ramAt, readable := m.ramAt }

/-- A new range is clear of one that is there.  It may start where that ends, but not end
where that starts. -/
def Clear (old new : Span) : Prop :=
  (old.base ≤ new.base → old.base + old.size ≤ new.base) ∧
    (new.base < old.base → new.base + new.size < old.base)

instance (old new : Span) : Decidable (Clear old new) := inferInstanceAs (Decidable (_ ∧ _))

/-- The range is allocated: it fits in 64 bits and is clear of all others, and it is RAM that
KVM accepts, or MMIO.  `memory_alloc` itself does not ask that an MMIO range fits; this is a
condition of `Served`. -/
def Accepts (m : PhysicalMemory) (c : AllocCall) : Prop :=
  c.Fits ∧ (∀ r ∈ m.ranges, Clear r.1 c.span) ∧
    (c.IsRam ∧ c.host.ioctl = true ∨ c.type = memoryMmio)

instance (c : AllocCall) : Decidable c.Fits := inferInstanceAs (Decidable (_ < _))

instance (m : PhysicalMemory) (c : AllocCall) : Decidable (m.Accepts c) :=
  inferInstanceAs (Decidable (_ ∧ _))

/-- The memory with one more range; RAM is full of zeros. -/
def add (m : PhysicalMemory) (c : AllocCall) : PhysicalMemory :=
  { ranges := m.ranges ++ [(c.span, decide c.IsRam)]
    cells :=
      if c.IsRam then overwrite m.cells c.span.base (List.replicate c.span.size 0) else m.cells }

def step (m : PhysicalMemory) : MemoryEvent → PhysicalMemory × MemoryReply
  | .alloc c => if m.Accepts c then (m.add c, .allocated true) else (m, .allocated false)
  | .library a =>
      let (flat, answer) := m.flat.access a
      ({ m with cells := flat.cells }, .library answer)
  | .guestStore addr b =>
      match m.ramAt addr.toNat with
      | none => (m, .exits)
      | some _ => ({ m with cells := overwrite m.cells addr.toNat [b] }, .stored)
  | .guestLoad addr =>
      match m.ramAt addr.toNat with
      | none => (m, .exits)
      | some _ => (m, .loaded (m.cells addr.toNat))

end PhysicalMemory

/-! ## The guest's accesses -/

namespace KvmRegion

/-- The guest's addresses of a region. -/
def span (r : KvmRegion) : Span := ⟨r.guestPhysAddr.toNat, r.memorySize.toNat⟩

/-- The address in the process of one of them. -/
def hostAddress (r : KvmRegion) (addr : UInt64) : UInt64 :=
  r.userspaceAddr + (addr - r.guestPhysAddr)

end KvmRegion

namespace Vm

/-- The region in which KVM finds an address, among the slots that have been numbered. -/
def kvmRegionAt (vm : Vm) (addr : UInt64) : Option KvmRegion :=
  (List.range vm.nextSlot.toNat).findSome? fun i =>
    (vm.slots (UInt32.ofNat i)).filter fun r => decide (r.span.Contains addr.toNat)

/-- A call gets a mapping from `mmap`. -/
def Maps (vm : Vm) (c : AllocCall) : Prop :=
  checkAddrAvailable vm c.physAddr c.size = true ∧ c.IsRam ∧ c.host.entry = true ∧
    c.host.mmap ≠ mapFailed

instance (vm : Vm) (c : AllocCall) : Decidable (vm.Maps c) := inferInstanceAs (Decidable (_ ∧ _))

/-- `MAP_ANONYMOUS`: a new mapping is full of zeros. -/
def zeroed (vm : Vm) (c : AllocCall) (host : HostMemory) : HostMemory := fun a =>
  if vm.Maps c ∧ (⟨c.host.mmap.toNat, c.size.toNat⟩ : Span).Contains a.toNat then 0 else host a

end Vm

/-- A VM, and the memory of the process that runs it. -/
structure SharedMemory where
  vm : Vm
  host : HostMemory

namespace SharedMemory

def step (s : SharedMemory) : MemoryEvent → Except Fault (SharedMemory × MemoryReply)
  | .alloc c =>
      let (vm, ok) := memoryAlloc s.vm c.physAddr c.size c.type c.host
      .ok ({ vm, host := s.vm.zeroed c s.host }, .allocated ok)
  | .library a => do
      let (host, answer) ← s.vm.access s.host a
      .ok ({ s with host }, .library answer)
  | .guestStore addr b =>
      match s.vm.kvmRegionAt addr with
      | none => .ok (s, .exits)
      | some r => do
          let host ← storeByte s.vm s.host (r.hostAddress addr) b
          .ok ({ s with host }, .stored)
  | .guestLoad addr =>
      match s.vm.kvmRegionAt addr with
      | none => .ok (s, .exits)
      | some r => do
          let b ← loadByte s.vm s.host (r.hostAddress addr)
          .ok (s, .loaded (some b))

/-- The memory that the entries of the VM make of the process's. -/
def physical (s : SharedMemory) : PhysicalMemory :=
  { ranges := s.vm.memoryEntries.map fun e => (e.span, e.isRam)
    cells := view s.vm.translate s.host }

/-- The invariant: entries have mappings of their own, and KVM's slots are those of the
entries. -/
structure Consistent (s : SharedMemory) : Prop where
  backed : s.vm.Backed
  mirrored : s.vm.Mirrored

end SharedMemory

/-- What is asked of an allocation: the host serves it, KVM has a slot for it, and an MMIO
range that is accepted fits in 64 bits. -/
def MemoryEvent.Served (limit : Nat) (s : SharedMemory) : MemoryEvent → Prop
  | .alloc c => c.Served s.vm ∧ s.vm.KvmLimits limit c
  | _ => True

/-! ## Where the guest's accesses go -/

namespace Vm
variable {vm : Vm} {e : MemoryEntry}

/-- In a backed map RAM is what can be read. -/
theorem isRam_eq_isReadable (h : vm.Backed) (he : e ∈ vm.memoryEntries) :
    e.isRam = isReadable e.type ∧ isReadable e.type = isWritable e.type := by
  rcases h.kinds e he with ht | ⟨ht, -⟩
  · rw [MemoryEntry.isRam, ht]
    decide
  · rw [MemoryEntry.isRam, ht]
    decide

theorem mem_ramEntries (h : vm.Backed) :
    e ∈ vm.ramEntries ↔ e ∈ vm.memoryEntries ∧ isReadable e.type = true := by
  rw [ramEntries, List.mem_filter]
  exact and_congr_right fun he => by rw [(isRam_eq_isReadable h he).1]

/-- A numbered slot has the region of an entry. -/
theorem slots_entry (h : vm.Backed) (hm : vm.Mirrored) {i : Nat} {r : KvmRegion}
    (hi : i < vm.nextSlot.toNat) (hr : vm.slots (UInt32.ofNat i) = some r) :
    ∃ e ∈ vm.memoryEntries, isReadable e.type = true ∧ r = e.region := by
  obtain ⟨e, he⟩ : ∃ e, vm.ramEntries[i]? = some e :=
    ⟨_, List.getElem?_eq_getElem (hm.length_eq.symm ▸ hi)⟩
  rw [hm.kvm i e he] at hr
  obtain ⟨hmem, ht⟩ := (mem_ramEntries h).mp (List.mem_of_getElem? he)
  exact ⟨e, hmem, ht, (Option.some.inj hr).symm⟩

/-- KVM finds the region of the entry that has the address. -/
theorem kvmRegionAt_eq (h : vm.Backed) (hm : vm.Mirrored) (addr : UInt64) :
    vm.kvmRegionAt addr = (vm.entryAt isReadable addr.toNat).map (·.region) := by
  have hfound : ∀ r, vm.kvmRegionAt addr = some r → ∃ e, vm.entryAt isReadable addr.toNat = some e ∧
      r = e.region := by
    intro r hr
    obtain ⟨i, hi, hslot⟩ := List.exists_of_findSome?_eq_some hr
    obtain ⟨hslot, hin⟩ := Option.filter_eq_some_iff.mp hslot
    obtain ⟨e, he, ht, rfl⟩ := slots_entry h hm (List.mem_range.mp hi) hslot
    exact ⟨e, (entryAt_iff h.ranges).mpr ⟨he, ht, of_decide_eq_true hin⟩, rfl⟩
  cases hr : vm.kvmRegionAt addr with
  | some r =>
      obtain ⟨e, he, rfl⟩ := hfound r hr
      rw [he, Option.map_some]
  | none =>
      cases hat : vm.entryAt isReadable addr.toNat with
      | none => rfl
      | some e =>
          -- the slot of the entry would have been found
          obtain ⟨he, ht, hin⟩ := (entryAt_iff h.ranges).mp hat
          obtain ⟨i, hi⟩ := List.getElem?_of_mem ((mem_ramEntries h).mpr ⟨he, ht⟩)
          have hlt : i < vm.nextSlot.toNat := hm.length_eq ▸ (List.getElem?_eq_some_iff.mp hi).1
          have hno := List.findSome?_eq_none_iff.mp hr i (List.mem_range.mpr hlt)
          have hin' : decide (e.region.span.Contains addr.toNat) = true := decide_eq_true hin
          rw [hm.kvm i e hi, Option.filter_some, if_pos hin'] at hno
          cases hno

/-- The region of an entry leads to the host address that the entry does. -/
theorem hostAddress_region (h : vm.Backed) {addr : UInt64}
    (hat : vm.entryAt isReadable addr.toNat = some e) :
    vm.translate addr.toNat = some (e.region.hostAddress addr) ∧
      vm.Mapped (e.region.hostAddress addr) := by
  obtain ⟨he, ht, hin⟩ := (entryAt_iff h.ranges).mp hat
  have hw : (0 : UInt64) < e.size - (addr - e.guestPhys) := by
    rw [UInt64.lt_iff_toNat_lt, memLimit_toNat hin]
    exact Nat.sub_pos_of_lt hin.2
  obtain ⟨htrans, hmapped⟩ := translate_inside h he ht hin hw
  rw [UInt64.add_zero] at htrans hmapped
  exact ⟨htrans, hmapped⟩

/-- The host address of a physical one is mapped. -/
theorem mapped_of_translate (h : vm.Backed) {a : Nat} {p : UInt64}
    (ha : vm.translate a = some p) : vm.Mapped p := by
  obtain ⟨e, hat, hp⟩ := Option.map_eq_some_iff.mp ha
  obtain ⟨he, ht, hin⟩ := (entryAt_iff h.ranges).mp hat
  have hlt : a < 2 ^ 64 := by
    have hfit := h.fit e he
    have hhigh := hin.2
    unfold MemoryEntry.Fits at hfit
    simp only [MemoryEntry.span] at hhigh
    omega
  have hto : (UInt64.ofNat a).toNat = a := by
    rw [UInt64.toNat_ofNat']
    exact Nat.mod_eq_of_lt hlt
  obtain ⟨htrans, hmapped⟩ := hostAddress_region h (hto.symm ▸ hat)
  rw [hto, ha] at htrans
  rw [Option.some.inj htrans]
  exact hmapped

end Vm

/-! ## Every step -/

namespace SharedMemory
variable {s : SharedMemory}

open Vm

/-- The RAM of the abstract memory, and its bytes, are the flat memory of the VM. -/
theorem physical_flat (h : s.vm.Backed) : s.physical.flat = s.vm.flat s.host := by
  have hram : ∀ (types : UInt32 → Bool), (∀ e ∈ s.vm.memoryEntries, types e.type = e.isRam) →
      s.physical.ramAt = fun a => (s.vm.entryAt types a).map MemoryEntry.span := by
    intro types htypes
    funext a
    have hfind : ∀ entries : List MemoryEntry, (∀ e ∈ entries, types e.type = e.isRam) →
        ((entries.map fun e => (e.span, e.isRam)).find? fun r =>
            r.2 && decide (r.1.Contains a)).map Prod.fst =
          (entries.find? fun e => types e.type && decide (e.span.Contains a)).map
            MemoryEntry.span := by
      intro entries hall
      induction entries with
      | nil => rfl
      | cons e entries ih =>
          obtain ⟨he, hrest⟩ := List.forall_mem_cons.mp hall
          rw [List.map_cons, List.find?_cons, List.find?_cons, he]
          cases e.isRam && decide (e.span.Contains a) with
          | true => rfl
          | false => exact ih hrest
    exact hfind _ htypes
  have hkinds := fun e he => isRam_eq_isReadable h (e := e) he
  unfold PhysicalMemory.flat Vm.flat
  rw [← hram isWritable fun e he => (hkinds e he).2.symm.trans (hkinds e he).1.symm,
    ← hram isReadable fun e he => (hkinds e he).1.symm]
  rfl

/-- The ranges of RAM are the spans of the entries that can be read. -/
theorem ramAt_physical (h : s.vm.Backed) (a : Nat) :
    s.physical.ramAt a = (s.vm.entryAt isReadable a).map MemoryEntry.span :=
  congrFun (congrArg GuestMemory.readable (physical_flat h)) a

/-- A byte that the guest stores is stored in the memory both see. -/
theorem guestStore_simulates (h : s.Consistent) (addr : UInt64) (b : UInt8) :
    ∃ s', s.step (.guestStore addr b) = .ok (s', (s.physical.step (.guestStore addr b)).2) ∧
      s'.physical = (s.physical.step (.guestStore addr b)).1 ∧ s'.Consistent := by
  have hregion := kvmRegionAt_eq h.backed h.mirrored addr
  have hram := ramAt_physical h.backed addr.toNat
  cases hat : s.vm.entryAt isReadable addr.toNat with
  | none =>
      rw [hat, Option.map_none] at hregion hram
      refine ⟨s, ?_, ?_, h⟩
      · simp only [step, hregion, PhysicalMemory.step, hram]
      · simp only [PhysicalMemory.step, hram]
  | some e =>
      rw [hat, Option.map_some] at hregion hram
      obtain ⟨htrans, hmapped⟩ := hostAddress_region h.backed hat
      obtain ⟨host', hstore, hview⟩ := view_storeByte h.backed htrans hmapped s.host b
      have hspec : s.physical.step (.guestStore addr b) =
          ({ s.physical with cells := overwrite s.physical.cells addr.toNat [b] }, .stored) := by
        simp only [PhysicalMemory.step, hram]
      rw [hspec]
      refine ⟨{ s with host := host' }, ?_, ?_, h.backed, h.mirrored⟩
      · simp only [step, hregion, hstore, ok_bind]
      · simp only [physical, hview]

/-- A byte that the guest loads is the byte of the memory both see. -/
theorem guestLoad_simulates (h : s.Consistent) (addr : UInt64) :
    s.step (.guestLoad addr) = .ok (s, (s.physical.step (.guestLoad addr)).2) ∧
      s.physical = (s.physical.step (.guestLoad addr)).1 := by
  have hregion := kvmRegionAt_eq h.backed h.mirrored addr
  have hram := ramAt_physical h.backed addr.toNat
  cases hat : s.vm.entryAt isReadable addr.toNat with
  | none =>
      rw [hat, Option.map_none] at hregion hram
      simp only [step, hregion, PhysicalMemory.step, hram, and_self]
  | some e =>
      rw [hat, Option.map_some] at hregion hram
      obtain ⟨htrans, hmapped⟩ := hostAddress_region h.backed hat
      have hload : loadByte s.vm s.host (e.region.hostAddress addr) = .ok _ := if_pos hmapped
      have hcell : s.physical.cells addr.toNat = some (s.host (e.region.hostAddress addr)) := by
        show (s.vm.translate addr.toNat).map s.host = _
        rw [htrans, Option.map_some]
      simp only [step, hregion, hload, ok_bind, PhysicalMemory.step, hram, hcell, and_self]

/-- An access by the process is an access to the memory both see. -/
theorem library_simulates (h : s.Consistent) (a : MemoryAccess) :
    ∃ s', s.step (.library a) = .ok (s', (s.physical.step (.library a)).2) ∧
      s'.physical = (s.physical.step (.library a)).1 ∧ s'.Consistent := by
  obtain ⟨host', haccess, hflat⟩ := access_simulates h.backed s.host a
  refine ⟨{ s with host := host' }, ?_, ?_, h.backed, h.mirrored⟩
  · simp only [step, haccess, ok_bind, PhysicalMemory.step, physical_flat h.backed]
  · simp only [PhysicalMemory.step, physical_flat h.backed]
    rw [← hflat]
    rfl

/-! ## Allocations -/

variable {c : AllocCall}

/-- The entries accept the calls that the ranges accept. -/
theorem accepts_physical_iff (h : s.vm.Backed) (hs : c.Served s.vm) :
    s.physical.Accepts c ↔ ∃ e, s.vm.entryAdded c = some e := by
  have hclear : c.Fits → (checkAddrAvailable s.vm c.physAddr c.size = true ↔
      ∀ r ∈ s.physical.ranges, PhysicalMemory.Clear r.1 c.span) := by
    intro hfits
    rw [checkAddrAvailable, List.all_eq_true, physical, List.forall_mem_map]
    refine forall₂_congr fun e he => ?_
    rw [Bool.not_eq_true', ← Bool.not_eq_true, MemoryEntry.conflicts_iff (h.fit e he) hfits]
    unfold PhysicalMemory.Clear
    simp only [MemoryEntry.span, AllocCall.span, requestSpan]
    omega
  have hmade : (∃ e, s.vm.entryAdded c = some e) ↔
      checkAddrAvailable s.vm c.physAddr c.size = true ∧
        (c.IsRam ∧ c.host.ioctl = true ∨ c.type = memoryMmio) := by
    rw [← Option.isSome_iff_exists]
    by_cases hcheck : checkAddrAvailable s.vm c.physAddr c.size = true
    · rw [entryAdded, if_pos ⟨hcheck, hs.1.node⟩, entryMade_isSome_iff]
      have hmmap : c.IsRam → c.host.mmap ≠ 0 := fun hram => (hs.1.mmap hcheck hram).1
      constructor
      · rintro ⟨-, ⟨hram, -, hioctl⟩ | hmmio⟩
        · exact ⟨hcheck, Or.inl ⟨hram, hioctl⟩⟩
        · exact ⟨hcheck, Or.inr hmmio⟩
      · rintro ⟨-, ⟨hram, hioctl⟩ | hmmio⟩
        · exact ⟨hs.1.entry, Or.inl ⟨hram, hmmap hram, hioctl⟩⟩
        · exact ⟨hs.1.entry, Or.inr hmmio⟩
    · rw [entryAdded, if_neg fun hc => hcheck hc.1]
      exact iff_of_false (fun hc => by cases hc) fun hc => hcheck hc.1
  rw [hmade, PhysicalMemory.Accepts]
  constructor
  · rintro ⟨hfits, hall, hkind⟩
    exact ⟨(hclear hfits).mpr hall, hkind⟩
  · rintro ⟨hcheck, hkind⟩
    have hfits : c.Fits := by
      rcases hkind with ⟨hram, hioctl⟩ | hmmio
      · exact (hs.1.kvm hram hioctl).1
      · exact hs.2 hmmio hcheck hs.1.entry hs.1.node
    exact ⟨hfits, (hclear hfits).mp hcheck, hkind⟩

/-- With a list node, a call returns 1 exactly if it adds an entry. -/
theorem memoryAlloc_snd (hnode : c.host.node = true) :
    (memoryAlloc s.vm c.physAddr c.size c.type c.host).2 = (s.vm.entryAdded c).isSome := by
  by_cases hreach : s.vm.Reaches c
  · obtain ⟨hcheck, e, he⟩ := reaches_iff_made.mp hreach
    obtain ⟨vm', halloc, -⟩ := memoryAlloc_reaches hcheck he
    rw [halloc, entryAdded, if_pos ⟨hcheck, hnode⟩, he]
    rfl
  · obtain ⟨vm', halloc, -⟩ := memoryAlloc_refused hreach
    rw [halloc]
    cases hadd : s.vm.entryAdded c with
    | none => rfl
    | some e =>
        unfold entryAdded at hadd
        split at hadd
        · rename_i hc
          exact absurd (reaches_iff_made.mpr ⟨hc.1, e, hadd⟩) hreach
        · cases hadd

/-- The zeros of a new mapping are at no address that has been translated before. -/
theorem zeroed_translated (h : s.vm.Backed) (hs : c.Served s.vm) {a : Nat} {p : UInt64}
    (ha : s.vm.translate a = some p) : s.vm.zeroed c s.host p = s.host p := by
  refine if_neg ?_
  rintro ⟨⟨hcheck, hram, -, -⟩, hin⟩
  obtain ⟨m, hmem, hp⟩ := mapped_of_translate h ha
  obtain ⟨-, -, -, hdisj⟩ := hs.1.mmap hcheck hram
  exact hdisj m hmem p.toNat hp hin

/-- An added entry has the range of the call, and is RAM if the call asks for RAM. -/
theorem entryAdded_range {e : MemoryEntry} (he : s.vm.entryAdded c = some e) :
    e.span = c.span ∧ e.isRam = decide c.IsRam ∧ isReadable e.type = decide c.IsRam := by
  obtain ⟨-, -, hphys, hsize, hkind⟩ := entryAdded_some he
  refine ⟨by rw [MemoryEntry.span, hphys, hsize]; rfl, ?_⟩
  rcases hkind with ⟨hram, -, -, -, ht⟩ | ⟨hmmio, -, ht⟩
  · rw [decide_eq_true hram, MemoryEntry.isRam, ht]
    decide
  · have hno : ¬ c.IsRam := by
      rw [AllocCall.IsRam, hmmio]
      decide
    rw [decide_eq_false hno, MemoryEntry.isRam, ht]
    decide

/-- The entry of an address after a call is that of before, or the one that was added. -/
theorem entryAt_alloc (types : UInt32 → Bool) (a : Nat) :
    (memoryAlloc s.vm c.physAddr c.size c.type c.host).1.entryAt types a =
      (s.vm.entryAt types a).or
        ((s.vm.entryAdded c).filter fun e => types e.type && decide (e.span.Contains a)) := by
  rw [entryAt, memoryEntries_alloc, List.find?_append, entryAt]
  refine congrArg (Option.or _) ?_
  cases s.vm.entryAdded c with
  | none => rfl
  | some e => rw [Option.toList_some, List.find?_singleton, Option.filter_some]

/-- What is seen at the address of an entry is the same after a call. -/
theorem view_alloc_old (h : s.vm.Backed) (hs : c.Served s.vm) {a : Nat} {e₀ : MemoryEntry}
    (hat : s.vm.entryAt isReadable a = some e₀) :
    view (memoryAlloc s.vm c.physAddr c.size c.type c.host).1.translate (s.vm.zeroed c s.host) a =
      view s.vm.translate s.host a := by
  have hold : s.vm.translate a = some (e₀.memoryPtr + UInt64.ofNat (a - e₀.guestPhys.toNat)) := by
    rw [Vm.translate, hat, Option.map_some]
  have hnew : (memoryAlloc s.vm c.physAddr c.size c.type c.host).1.translate a =
      some (e₀.memoryPtr + UInt64.ofNat (a - e₀.guestPhys.toNat)) := by
    rw [Vm.translate, entryAt_alloc, hat, Option.some_or, Option.map_some]
  rw [view, hnew, view, hold, Option.map_some, Option.map_some, zeroed_translated h hs hold]

/-- A call that adds no entry does not change what is seen. -/
theorem view_alloc_none (h : s.vm.Backed) (hs : c.Served s.vm) (hadd : s.vm.entryAdded c = none) :
    view (memoryAlloc s.vm c.physAddr c.size c.type c.host).1.translate (s.vm.zeroed c s.host) =
      view s.vm.translate s.host := by
  funext a
  cases hat : s.vm.entryAt isReadable a with
  | some e₀ => exact view_alloc_old h hs hat
  | none =>
      rw [view, Vm.translate, entryAt_alloc, hat, hadd, view, Vm.translate, hat]
      rfl

/-- The addresses of new RAM are those of its mapping, which is full of zeros. -/
theorem zeroed_added (hs : c.Served s.vm) {e : MemoryEntry} (hadd : s.vm.entryAdded c = some e)
    (hram : c.IsRam) {a : Nat} (hin : c.span.Contains a) :
    s.vm.zeroed c s.host (e.memoryPtr + UInt64.ofNat (a - e.guestPhys.toNat)) = 0 := by
  obtain ⟨hcheck, -, hphys, -, ⟨-, -, -, hptr, -⟩ | ⟨hmmio, -⟩⟩ := entryAdded_some hadd
  · obtain ⟨-, hfailed, hwrap, -⟩ := hs.1.mmap hcheck hram
    have hlt : a - c.physAddr.toNat < c.size.toNat := hin.offset_lt
    have haddr : (c.host.mmap + UInt64.ofNat (a - c.physAddr.toNat)).toNat =
        c.host.mmap.toNat + (a - c.physAddr.toNat) := by
      have := c.size.toNat_lt
      rw [UInt64.toNat_add, UInt64.toNat_ofNat']
      omega
    rw [hptr, hphys]
    refine if_pos ⟨⟨hcheck, hram, hs.1.entry, hfailed⟩, ?_⟩
    rw [haddr]
    exact Span.contains_add (s := ⟨c.host.mmap.toNat, c.size.toNat⟩) hlt
  · rw [AllocCall.IsRam, hmmio] at hram
    exact absurd hram (by decide)

/-- A call that adds RAM adds zeros to what is seen, and one that adds MMIO adds nothing. -/
theorem view_alloc_some (h : s.vm.Backed) (hs : c.Served s.vm) {e : MemoryEntry}
    (hadd : s.vm.entryAdded c = some e) :
    view (memoryAlloc s.vm c.physAddr c.size c.type c.host).1.translate (s.vm.zeroed c s.host) =
      if c.IsRam then
        overwrite (view s.vm.translate s.host) c.span.base (List.replicate c.span.size 0)
      else view s.vm.translate s.host := by
  obtain ⟨vm', halloc, hbacked⟩ := alloc_backed h hs.1 hs.2
  cases halloc
  obtain ⟨hspan, -, htype⟩ := entryAdded_range hadd
  funext a
  cases hat : s.vm.entryAt isReadable a with
  | some e₀ =>
      -- an older entry has the address, so the new range does not
      rw [view_alloc_old h hs hat]
      obtain ⟨hmem₀, -, hin₀⟩ := (entryAt_iff h.ranges).mp hat
      have hpair := hbacked.ranges
      rw [RangesDisjoint, memoryEntries_alloc, hadd, Option.toList_some] at hpair
      have hdisj := (List.pairwise_append.mp hpair).2.2 e₀ hmem₀ e List.mem_cons_self a hin₀
      rw [hspan] at hdisj
      split
      · rw [overwrite, List.length_replicate]
        exact (if_neg hdisj).symm
      · rfl
  | none =>
      have hold : view s.vm.translate s.host a = none := by
        rw [view, Vm.translate, hat]
        rfl
      rw [view, Vm.translate, entryAt_alloc, hat, Option.none_or, hadd, Option.filter_some, htype,
        hspan]
      by_cases hram : c.IsRam
      · rw [if_pos hram, overwrite, List.length_replicate, decide_eq_true hram, Bool.true_and]
        by_cases hin : c.span.Contains a
        · have hbounds : c.span.base ≤ a ∧ a < c.span.base + c.span.size := hin
          rw [if_pos (decide_eq_true hin), Option.map_some, Option.map_some,
            zeroed_added hs hadd hram hin, if_pos hbounds, List.getElem?_replicate,
            if_pos hin.offset_lt]
        · have hbounds : ¬ (c.span.base ≤ a ∧ a < c.span.base + c.span.size) := hin
          rw [if_neg (by simpa using hin), if_neg hbounds, hold]
          rfl
      · rw [if_neg hram, hold, decide_eq_false hram, Bool.false_and]
        rfl

/-- An allocation is one of the memory both see. -/
theorem alloc_simulates {limit : Nat} (hlimit : limit < 2 ^ 32) (h : s.Consistent)
    (hs : c.Served s.vm) (hk : s.vm.KvmLimits limit c) :
    ∃ s', s.step (.alloc c) = .ok (s', (s.physical.step (.alloc c)).2) ∧
      s'.physical = (s.physical.step (.alloc c)).1 ∧ s'.Consistent := by
  obtain ⟨vm₁, halloc₁, hbacked⟩ := alloc_backed h.backed hs.1 hs.2
  obtain ⟨⟨vm₂, halloc₂, hmirrored⟩, -⟩ := alloc_mirrored hlimit h.mirrored hs.1.node hk
  cases halloc₁
  cases halloc₂
  have hranges : (memoryAlloc s.vm c.physAddr c.size c.type c.host).1.memoryEntries =
      s.vm.memoryEntries ++ (s.vm.entryAdded c).toList := memoryEntries_alloc _ c
  have hacc := accepts_physical_iff h.backed hs
  have hstep : s.step (.alloc c) = .ok (⟨(memoryAlloc s.vm c.physAddr c.size c.type c.host).1,
      s.vm.zeroed c s.host⟩,
      .allocated (memoryAlloc s.vm c.physAddr c.size c.type c.host).2) := rfl
  refine ⟨⟨_, s.vm.zeroed c s.host⟩, ?_, ?_, hbacked, hmirrored⟩
  · rw [hstep, memoryAlloc_snd hs.1.node, PhysicalMemory.step]
    cases hadd : s.vm.entryAdded c with
    | none =>
        rw [if_neg (mt hacc.mp fun ⟨e, he⟩ => by rw [hadd] at he; cases he)]
        rfl
    | some e =>
        rw [if_pos (hacc.mpr ⟨e, hadd⟩)]
        rfl
  · rw [PhysicalMemory.step]
    cases hadd : s.vm.entryAdded c with
    | none =>
        rw [if_neg (mt hacc.mp fun ⟨e, he⟩ => by rw [hadd] at he; cases he)]
        rw [hadd, Option.toList_none, List.append_nil] at hranges
        rw [physical, view_alloc_none h.backed hs hadd]
        show PhysicalMemory.mk
          ((memoryAlloc s.vm c.physAddr c.size c.type c.host).1.memoryEntries.map _) _ = _
        rw [hranges]
        rfl
    | some e =>
        obtain ⟨hspan, hisRam, -⟩ := entryAdded_range hadd
        rw [if_pos (hacc.mpr ⟨e, hadd⟩)]
        rw [hadd, Option.toList_some] at hranges
        rw [physical, view_alloc_some h.backed hs hadd]
        show PhysicalMemory.mk
          ((memoryAlloc s.vm c.physAddr c.size c.type c.host).1.memoryEntries.map _) _ = _
        rw [hranges, List.map_append, List.map_singleton, hspan, hisRam]
        rfl

/-- **Every event does what it does to the memory both see.** -/
theorem step_simulates {limit : Nat} (hlimit : limit < 2 ^ 32) (h : s.Consistent)
    {e : MemoryEvent} (he : e.Served limit s) :
    ∃ s', s.step e = .ok (s', (s.physical.step e).2) ∧ s'.physical = (s.physical.step e).1 ∧
      s'.Consistent := by
  cases e with
  | alloc c => exact alloc_simulates hlimit h he.1 he.2
  | library a => exact library_simulates h a
  | guestStore addr b => exact guestStore_simulates h addr b
  | guestLoad addr =>
      obtain ⟨hstep, hphys⟩ := guestLoad_simulates h addr
      exact ⟨s, hstep, hphys, h⟩

end SharedMemory

/-! ## Every run -/

/-- **The guest and the process share one memory.**  Whatever ranges are allocated, and however
the allocations, the accesses of the process and those of the guest follow each other, as long
as the host serves every allocation and no MMIO range wraps: every allocation is accepted or
refused, every access answered, and the guest exits exactly as in the memory of ranges and
bytes.  So what one side stores the other one reads back, new RAM reads as zeros, and no
allocation disturbs what is there. -/
theorem guest_and_process_share_memory {limit : Nat} (hlimit : limit < 2 ^ 32) (host : HostMemory)
    {events : List MemoryEvent}
    (hserved : Runs.EachStep (fun s e => (SharedMemory.step s e).map Prod.fst)
      (fun s e => e.Served limit s) ⟨Vm.new, host⟩ events) :
    ∃ s, Runs.trace SharedMemory.step ⟨Vm.new, host⟩ events =
        .ok (s, (Runs.traceTotal PhysicalMemory.step .empty events).2) ∧
      s.physical = (Runs.traceTotal PhysicalMemory.step .empty events).1 := by
  have hstart : (⟨Vm.new, host⟩ : SharedMemory).physical = .empty ∧
      (⟨Vm.new, host⟩ : SharedMemory).Consistent := ⟨rfl, Vm.backed_new, Vm.mirrored_new⟩
  obtain ⟨s, htrace, hphys, -⟩ := Runs.trace_simulates_of_each
    (R := fun s m => s.physical = m ∧ s.Consistent) (C := fun _ _ => True) (by
      rintro s m e ⟨rfl, hs⟩ he -
      obtain ⟨s', hstep, hphys, hs'⟩ := SharedMemory.step_simulates hlimit hs he
      exact ⟨s', hstep, hphys, hs'⟩) hstart hserved (Runs.eachTotal_of_forall fun _ _ _ => trivial)
  exact ⟨s, htrace, hphys⟩

/-- RAM and MMIO: the guest reads zeros and then what the process has written, the process
what the guest has stored, and a store to MMIO exits. -/
theorem guest_and_process_share_memory_ram_mmio :
    let host : HostMemory := fun _ => 7
    let events : List MemoryEvent :=
      [.alloc ⟨0, 0x1000, memoryUsable, ⟨true, 0x7F0000000000, true, true⟩⟩, .guestLoad 0x10,
        .library (.write 0x10 [1, 2]), .guestLoad 0x11, .guestStore 0x12 3,
        .alloc ⟨0xC0000000, 0x1000, memoryMmio, ⟨true, 0, true, true⟩⟩, .library (.read 0x10 4),
        .guestStore 0xC0000004 9]
    ∃ s, Runs.trace SharedMemory.step ⟨Vm.new, host⟩ events =
        .ok (s, (Runs.traceTotal PhysicalMemory.step .empty events).2) ∧
      s.physical = (Runs.traceTotal PhysicalMemory.step .empty events).1 := by
  intro host events
  refine guest_and_process_share_memory (by decide : 0x1FD < 2 ^ 32) host ?_
  refine ⟨⟨⟨⟨rfl, rfl, fun _ _ => ⟨by decide, by decide, by decide, ?_⟩, fun _ _ => ?_⟩, ?_⟩,
    fun _ _ _ => by decide⟩, fun _ _ => ?_⟩
  · exact fun m hm => absurd hm List.not_mem_nil
  · exact ⟨by unfold AllocCall.Fits; decide, by decide⟩
  · exact fun hc => absurd hc (by decide)
  refine ⟨trivial, fun _ _ => ⟨trivial, fun _ _ => ⟨trivial, fun _ _ => ⟨trivial, fun _ _ => ?_⟩⟩⟩⟩
  -- the host has no part in MMIO, and its range fits
  refine ⟨⟨⟨⟨rfl, rfl, fun _ hc => absurd hc (by decide), fun hc => absurd hc (by decide)⟩,
    fun _ _ _ _ => by unfold AllocCall.Fits; decide⟩, fun _ hc => absurd hc (by decide)⟩,
    fun _ _ => ?_⟩
  exact ⟨trivial, fun _ _ => ⟨trivial, fun _ _ => trivial⟩⟩

end BlackHV
