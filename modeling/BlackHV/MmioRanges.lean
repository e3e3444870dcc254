import BlackHV.MmioRegister
import BlackHV.MemoryRanges

/-! # The ranges of the MMIO table

A write must reach one handler at most, and none that lies over RAM.  The table has no
check of its own for that: what keeps its ranges apart is that the map of the VM never
gives a range back.  Each slot with a range has an entry in the map (`Placed.reserved`),
also when the slot has been freed, and a new range has to be disjoint from all entries.
-/
namespace BlackHV

open Spans

/-- A filter that takes one element of a list at most leaves one at most. -/
theorem length_filterMap_le_one {α β : Type} {f : α → Option β} {l : List α}
    (h : l.Pairwise fun x y => f x = none ∨ f y = none) : (l.filterMap f).length ≤ 1 := by
  induction l with
  | nil => exact Nat.zero_le 1
  | cons x l ih =>
      obtain ⟨hx, hl⟩ := List.pairwise_cons.mp h
      cases hf : f x with
      | none =>
          rw [List.filterMap_cons_none hf]
          exact ih hl
      | some b =>
          have hnil : l.filterMap f = [] := by
            refine List.filterMap_eq_nil_iff.mpr fun y hy => ?_
            rcases hx y hy with hxn | hyn
            · rw [hf] at hxn
              cases hxn
            · exact hyn
          rw [List.filterMap_cons_some hf, hnil]
          exact Nat.le_refl 1

namespace MmioRegion

/-- The addresses of the region, where it has any. -/
def span (region : MmioRegion) : Span :=
  ⟨region.baseAddress.toNat, region.highAddress.toNat - region.baseAddress.toNat⟩

/-- The region has a range. -/
def HasRange (region : MmioRegion) : Prop := region.baseAddress < region.highAddress

/-- The entry that `mmio_register` reserves for the region. -/
def entry (region : MmioRegion) : MemoryEntry :=
  { guestPhys := region.baseAddress, memoryPtr := 0,
    size := region.highAddress - region.baseAddress, slot := 0, type := memoryMmio }

variable {region : MmioRegion}

theorem HasRange.size_toNat (h : region.HasRange) :
    (region.highAddress - region.baseAddress).toNat =
    region.highAddress.toNat - region.baseAddress.toNat :=
  UInt64.toNat_sub_of_le _ _ (UInt64.le_of_lt h)

/-- The difference of the bounds is the size of the range, so the entry has the same
addresses, and its end fits. -/
theorem HasRange.entry_span (h : region.HasRange) : region.entry.span = region.span := by
  rw [MemoryEntry.span, entry, h.size_toNat]
  rfl

theorem HasRange.entry_fits (h : region.HasRange) : region.entry.Fits := by
  have hhigh := region.highAddress.toNat_lt
  have hlt := UInt64.lt_iff_toNat_lt.mp h
  show region.baseAddress.toNat + (region.highAddress - region.baseAddress).toNat < 2 ^ 64
  rw [h.size_toNat]
  omega

/-- A slot is called for addresses of its range only. -/
theorem contains_of_writeCall {address : UInt64} {data : Vector UInt8 8} {len : UInt32}
    (h : region.writeCall address data len ≠ none) :
    region.writeHandler ≠ none ∧ region.HasRange ∧ region.span.Contains address.toNat := by
  rw [ne_eq, MmioSession.writeCall_eq_none_iff, Classical.not_imp, Classical.not_not] at h
  obtain ⟨hw, hlow, hhigh⟩ := h
  rw [UInt64.le_iff_toNat_le] at hlow
  rw [UInt64.lt_iff_toNat_lt] at hhigh
  refine ⟨hw, UInt64.lt_iff_toNat_lt.mpr (by omega), hlow, ?_⟩
  show address.toNat < region.baseAddress.toNat +
    (region.highAddress.toNat - region.baseAddress.toNat)
  omega

end MmioRegion

/-- A call on a VM's map or on the table. -/
inductive MmioMapCall where
  | alloc (call : AllocCall)
  | init
  | register (region : MmioRegion) (host : HostAnswers)
  | unregister (id : Fin maxMmioRegionCount)

/-- Heap allocation succeeds, and KVM rejects RAM whose end does not fit. -/
def MmioMapCall.Allowed : MmioMapCall → Prop
  | .alloc c => c.host.entry = true ∧ c.host.node = true ∧ Vm.KvmChecksEnd c
  | .register _ host => host.entry = true ∧ host.node = true
  | _ => True

/-- The VM and the table. -/
structure MmioMap where
  vm : Vm
  table : MmioTable

namespace MmioMap

/-- An empty map, and the table as the program starts. -/
def start : MmioMap := { vm := Vm.new, table := MmioTable.zero }

def step (s : MmioMap) : MmioMapCall → Except Fault MmioMap
  | .alloc c => .ok { s with vm := (memoryAlloc s.vm c.physAddr c.size c.type c.host).1 }
  | .init => .ok { s with table := mmioInit s.table }
  | .register region host =>
      let (vm, table, _, _) := mmioRegister s.vm s.table region host
      .ok { vm, table }
  | .unregister id => do
      let table ← mmioUnregister s.table (Int32.ofNat id)
      .ok { s with table }

/-- The slots that are called have ranges that are disjoint from each other and from RAM,
so a write reaches one handler at most. -/
structure RangesApart (s : MmioMap) : Prop where
  slots : ∀ i j : Fin maxMmioRegionCount, i ≠ j →
    (s.table.slot i).writeHandler ≠ none → (s.table.slot i).HasRange →
    (s.table.slot j).writeHandler ≠ none → (s.table.slot j).HasRange →
    (s.table.slot i).span.Disjoint (s.table.slot j).span
  ram : ∀ i : Fin maxMmioRegionCount, (s.table.slot i).writeHandler ≠ none →
    (s.table.slot i).HasRange →
    ∀ e ∈ s.vm.memoryEntries, e.type = memoryUsable ∨ e.type = memoryFramebuffer →
      (s.table.slot i).span.Disjoint e.span
  oneHandler : ∀ address data len, (mmioHandleWrite s.table address data len).length ≤ 1

/-- The invariant. -/
structure Placed (s : MmioMap) : Prop where
  fits : ∀ e ∈ s.vm.memoryEntries, e.type ≠ memoryMmio → e.Fits
  reserved : ∀ i : Fin maxMmioRegionCount, (s.table.slot i).HasRange →
    ∃ e ∈ s.vm.memoryEntries, e.Fits ∧ e.span = (s.table.slot i).span
  slots : ∀ i j : Fin maxMmioRegionCount, i ≠ j → (s.table.slot i).HasRange →
    (s.table.slot j).HasRange →
    (s.table.slot i).span.Disjoint (s.table.slot j).span
  ram : ∀ i : Fin maxMmioRegionCount, (s.table.slot i).HasRange →
    ∀ e ∈ s.vm.memoryEntries, e.type ≠ memoryMmio → (s.table.slot i).span.Disjoint e.span

namespace Placed
variable {s : MmioMap}

theorem start : MmioMap.start.Placed := by
  have hzero : ∀ i : Fin maxMmioRegionCount, ¬ (MmioMap.start.table.slot i).HasRange := by
    intro i h
    simp [MmioMap.start, MmioRegion.HasRange] at h
  exact ⟨fun _ he => absurd he List.not_mem_nil, fun i hi => absurd hi (hzero i),
    fun i _ _ hi => absurd hi (hzero i), fun i hi => absurd hi (hzero i)⟩

/-- A range that is available is disjoint from those of all slots. -/
theorem disjoint_of_available (h : s.Placed) {new : MemoryEntry} (hnew : new.Fits)
    (hcheck : checkAddrAvailable s.vm new.guestPhys new.size = true) (i : Fin maxMmioRegionCount)
    (hi : (s.table.slot i).HasRange) : (s.table.slot i).span.Disjoint new.span := by
  obtain ⟨e, he, hfit, hspan⟩ := h.reserved i hi
  rw [← hspan]
  exact Vm.disjoint_of_available he hfit hnew hcheck

/-- An entry more in the map, which is MMIO, or RAM that fits and was available. -/
theorem addEntry (h : s.Placed) {new : MemoryEntry}
    (hnew : new.type ≠ memoryMmio →
      new.Fits ∧ checkAddrAvailable s.vm new.guestPhys new.size = true)
    {vm' : Vm} (hentries : vm'.memoryEntries = s.vm.memoryEntries ++ [new]) :
    ({ s with vm := vm' } : MmioMap).Placed := by
  have hmem : ∀ {e}, e ∈ vm'.memoryEntries → e ∈ s.vm.memoryEntries ∨ e = new := by
    intro e he
    rw [hentries] at he
    exact (List.mem_append.mp he).imp_right List.mem_singleton.mp
  refine ⟨fun e he ht => ?_, fun i hi => ?_, h.slots, fun i hi e he ht => ?_⟩
  · rcases hmem he with hold | rfl
    · exact h.fits e hold ht
    · exact (hnew ht).1
  · obtain ⟨e, he, hfit, hspan⟩ := h.reserved i hi
    exact ⟨e, hentries ▸ List.mem_append_left _ he, hfit, hspan⟩
  · rcases hmem he with hold | rfl
    · exact h.ram i hi e hold ht
    · exact h.disjoint_of_available (hnew ht).1 (hnew ht).2 i hi

/-- A table with the same bounds in all slots. -/
theorem sameBounds (h : s.Placed) {table' : MmioTable}
    (hsame : ∀ i : Fin maxMmioRegionCount,
      (table'.slot i).baseAddress = (s.table.slot i).baseAddress ∧
      (table'.slot i).highAddress = (s.table.slot i).highAddress) :
    ({ s with table := table' } : MmioMap).Placed := by
  have hrange : ∀ i : Fin maxMmioRegionCount,
      (table'.slot i).HasRange → (s.table.slot i).HasRange := by
    intro i hi
    rw [MmioRegion.HasRange, (hsame i).1, (hsame i).2] at hi
    exact hi
  have hspan : ∀ i : Fin maxMmioRegionCount, (table'.slot i).span = (s.table.slot i).span := by
    intro i
    rw [MmioRegion.span, (hsame i).1, (hsame i).2]
    rfl
  refine ⟨h.fits, fun i hi => ?_, fun i j hij hi hj => ?_, fun i hi => ?_⟩
  · show ∃ e ∈ s.vm.memoryEntries, e.Fits ∧ e.span = (table'.slot i).span
    rw [hspan]
    exact h.reserved i (hrange i hi)
  · show (table'.slot i).span.Disjoint (table'.slot j).span
    rw [hspan, hspan]
    exact h.slots i j hij (hrange i hi) (hrange j hj)
  · show ∀ e ∈ s.vm.memoryEntries, e.type ≠ memoryMmio → (table'.slot i).span.Disjoint e.span
    rw [hspan]
    exact h.ram i (hrange i hi)

/-- A region copied into a slot, whose range was available and has an entry now. -/
theorem setSlot (h : s.Placed) {region : MmioRegion}
    (hcheck : checkAddrAvailable s.vm region.baseAddress
      (region.highAddress - region.baseAddress) = true)
    {vm' : Vm} (hentries : vm'.memoryEntries = s.vm.memoryEntries ++ [region.entry])
    (k : Fin maxMmioRegionCount) (id : Int32) :
    ({ vm := vm', table := s.table.setSlot k { region with id } } : MmioMap).Placed := by
  have hadd := h.addEntry (fun hne => absurd rfl hne) hentries
  have hself : (s.table.setSlot k { region with id }).slot k = { region with id } :=
    MmioTable.slot_setSlot ..
  have hother : ∀ i : Fin maxMmioRegionCount, i ≠ k →
      (s.table.setSlot k { region with id }).slot i = s.table.slot i := fun i hi =>
    MmioTable.slot_setSlot_ne _ _ hi
  -- the new range against those of the other slots and of RAM
  have hnew : ∀ i : Fin maxMmioRegionCount, region.HasRange → (s.table.slot i).HasRange →
      (s.table.slot i).span.Disjoint region.span := fun i hr hi =>
    hr.entry_span ▸ h.disjoint_of_available hr.entry_fits hcheck i hi
  have hram : region.HasRange → ∀ e ∈ s.vm.memoryEntries, e.type ≠ memoryMmio →
      region.span.Disjoint e.span := fun hr e he ht =>
    hr.entry_span ▸ (Vm.disjoint_of_available he (h.fits e he ht) hr.entry_fits hcheck).symm
  refine ⟨hadd.fits, fun i hi => ?_, fun i j hij hi hj => ?_, fun i hi e he ht => ?_⟩
  · by_cases hik : i = k
    · subst hik
      simp only [hself] at hi ⊢
      have hr : region.HasRange := hi
      exact ⟨region.entry, hentries ▸ List.mem_concat_self, hr.entry_fits, hr.entry_span⟩
    · simp only [hother i hik] at hi ⊢
      exact hadd.reserved i hi
  · by_cases hik : i = k
    · subst hik
      simp only [hself, hother j hij.symm] at hi hj ⊢
      exact (hnew j hi hj).symm
    · by_cases hjk : j = k
      · subst hjk
        simp only [hself, hother i hik] at hi hj ⊢
        exact hnew i hj hi
      · simp only [hother i hik, hother j hjk] at hi hj ⊢
        exact h.slots i j hij hi hj
  · by_cases hik : i = k
    · subst hik
      simp only [hself] at hi ⊢
      rcases List.mem_append.mp (hentries ▸ he) with hold | hlast
      · exact hram hi e hold ht
      · rw [List.mem_singleton.mp hlast] at ht
        exact absurd rfl ht
    · simp only [hother i hik] at hi ⊢
      exact hadd.ram i hi e he ht

/-- A call of `memory_alloc`. -/
theorem alloc (h : s.Placed) {c : AllocCall} (hk : Vm.KvmChecksEnd c) :
    ({ s with vm := (memoryAlloc s.vm c.physAddr c.size c.type c.host).1 } : MmioMap).Placed := by
  have hentries := s.vm.memoryEntries_alloc c
  cases he : s.vm.entryAdded c with
  | none =>
      rw [he, Option.toList_none, List.append_nil] at hentries
      refine ⟨fun e hmem => ?_, fun i hi => ?_, h.slots, fun i hi e hmem => ?_⟩
      · exact h.fits e (hentries ▸ hmem)
      · obtain ⟨e, hmem, hrest⟩ := h.reserved i hi
        exact ⟨e, hentries ▸ hmem, hrest⟩
      · exact h.ram i hi e (hentries ▸ hmem)
  | some e =>
      rw [he, Option.toList_some] at hentries
      obtain ⟨hcheck, -, hphys, hsize, hkind⟩ := Vm.entryAdded_some he
      refine h.addEntry (fun ht => ⟨?_, by rwa [hphys, hsize]⟩) hentries
      rcases hkind with ⟨hram, hioctl, -⟩ | ⟨-, -, hmmio⟩
      · rw [MemoryEntry.Fits, hphys, hsize]
        exact hk hram hioctl
      · exact absurd hmmio ht

/-- **A call keeps the invariant.** -/
theorem step (h : s.Placed) {call : MmioMapCall} (ha : call.Allowed) :
    ∃ s', s.step call = .ok s' ∧ s'.Placed := by
  cases call with
  | alloc c => exact ⟨_, rfl, h.alloc ha.2.2⟩
  | init =>
      refine ⟨_, rfl, h.sameBounds fun i => ?_⟩
      rw [MmioTable.slot_mmioInit]
      exact ⟨rfl, rfl⟩
  | register region host =>
      obtain ⟨hentry, hnode⟩ := ha
      simp only [MmioMap.step, mmioRegister, memoryAlloc_mmio]
      by_cases hcheck : checkAddrAvailable s.vm region.baseAddress
          (region.highAddress - region.baseAddress) = true
      · rw [if_pos ⟨hcheck, hentry⟩, if_pos hnode]
        cases s.table.firstAvailable with
        | none => exact ⟨_, rfl, @addEntry s h region.entry (fun hne => absurd rfl hne) _ rfl⟩
        | some k => exact ⟨_, rfl, h.setSlot hcheck rfl k (Int32.ofNat k)⟩
      · rw [if_neg fun hc => hcheck hc.1]
        exact ⟨s, rfl, h⟩
  | unregister k =>
      refine ⟨_, by rw [MmioMap.step, MmioSession.unregister_eq, ok_bind],
        h.sameBounds fun i => ?_⟩
      by_cases hik : i = k
      · subst hik
        simp
      · rw [MmioTable.slot_setSlot_ne _ _ hik]
        exact ⟨rfl, rfl⟩

/-- The invariant says that the ranges are apart. -/
theorem rangesApart (h : s.Placed) : s.RangesApart where
  slots := fun i j hij _ hi _ hj => h.slots i j hij hi hj
  ram := by
    intro i _ hi e he ht
    refine h.ram i hi e he ?_
    rcases ht with ht | ht
    · rw [ht]
      decide
    · rw [ht]
      decide
  oneHandler := by
    intro address data len
    refine length_filterMap_le_one ((List.nodup_finRange _).imp fun {i j} hij => ?_)
    refine Classical.byContradiction fun hboth => ?_
    rw [not_or] at hboth
    obtain ⟨-, hi, hini⟩ := MmioRegion.contains_of_writeCall hboth.1
    obtain ⟨-, hj, hinj⟩ := MmioRegion.contains_of_writeCall hboth.2
    exact h.slots i j hij hi hj address.toNat hini hinj

end Placed

end MmioMap

/-- **The ranges of the table stay apart.**  In every run of `memory_alloc`, `mmio_init`,
`mmio_register` and `mmio_unregister` on one VM, from the table of zeros and an empty map,
the slots with a write handler and a range have ranges that are disjoint from each other
and from the RAM of the map, and a write reaches one handler at most. -/
theorem mmio_ranges_apart {calls : List MmioMapCall} (h : ∀ call ∈ calls, call.Allowed) :
    Runs.AlwaysAlong MmioMap.step MmioMap.RangesApart MmioMap.start calls :=
  Runs.alwaysAlong_of_invariant (I := MmioMap.Placed) (E := MmioMapCall.Allowed)
    (fun _ _ ha hs => hs.step ha) (fun _ hs => hs.rangesApart) MmioMap.Placed.start h

/-- RAM, two registrations of which the second one is refused, and a slot that is freed
and used for another range. -/
theorem mmio_ranges_apart_five :
    Runs.AlwaysAlong MmioMap.step MmioMap.RangesApart MmioMap.start
      [.init, .alloc ⟨0, 0x100000, memoryUsable, ⟨true, 0x7F0000000000, true, true⟩⟩,
        .register ⟨0, 0xC0000000, 0xC1000000, some 0x401000, none, 0⟩ ⟨true, 0, true, true⟩,
        .register ⟨0, 0xC0001000, 0xC0002000, some 0x402000, none, 0⟩ ⟨true, 0, true, true⟩,
        .unregister ⟨0, by decide⟩,
        .register ⟨0, 0xD0000000, 0xD0001000, some 0x403000, none, 0⟩ ⟨true, 0, true, true⟩] := by
  refine mmio_ranges_apart ?_
  intro call hcall
  simp only [List.mem_cons, List.not_mem_nil, or_false] at hcall
  rcases hcall with rfl | rfl | rfl | rfl | rfl | rfl
  · trivial
  · exact ⟨rfl, rfl, fun _ _ => by unfold AllocCall.Fits; decide⟩
  · exact ⟨rfl, rfl⟩
  · exact ⟨rfl, rfl⟩
  · trivial
  · exact ⟨rfl, rfl⟩

end BlackHV
