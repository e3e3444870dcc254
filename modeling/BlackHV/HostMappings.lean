import BlackHV.MemoryRanges
import Mathlib.Data.List.Pairwise

/-! # The host mappings behind the memory map

Every RAM entry has a host mapping of its own, and no two of them share a byte.  The
operating system promises as much of the mappings it hands out (`HostServes`); the
invariant `Backed` says that `memory_alloc` files each of them under the entry it was
made for.
-/
namespace BlackHV

open Spans

/-- The host addresses of an entry. -/
def MemoryEntry.hostSpan (entry : MemoryEntry) : Span := ⟨entry.memoryPtr.toNat, entry.size.toNat⟩

/-- Two RAM entries share no byte of the host. -/
def MemoryEntry.HostsDisjoint (e f : MemoryEntry) : Prop :=
  e.type = memoryUsable → f.type = memoryUsable → e.hostSpan.Disjoint f.hostSpan

instance : Std.Symm MemoryEntry.HostsDisjoint where
  symm _ _ h hf he := (h he hf).symm

namespace Vm

/-- What is asked of the host in one call: it has memory for the entry and the node,
its mapping, where the call gets to `mmap`, is a new one that does not wrap, and KVM
accepts no RAM of 2^63 bytes or more, or whose end does not fit. -/
structure HostServes (vm : Vm) (c : AllocCall) : Prop where
  entry : c.host.entry = true
  node : c.host.node = true
  mmap : checkAddrAvailable vm c.physAddr c.size = true → c.IsRam →
    c.host.mmap ≠ 0 ∧ c.host.mmap ≠ mapFailed ∧ c.host.mmap.toNat + c.size.toNat ≤ 2 ^ 64 ∧
    ∀ m ∈ vm.mappings, (⟨m.1.toNat, m.2.toNat⟩ : Span).Disjoint ⟨c.host.mmap.toNat, c.size.toNat⟩
  kvm : c.IsRam → c.host.ioctl = true → c.Fits ∧ c.size.toNat < 2 ^ 63

/-- The part of it that concerns one call alone: nothing fails on the host, and the
mapping does not wrap. -/
structure HostAllocates (vm : Vm) (c : AllocCall) : Prop where
  entry : c.host.entry = true
  node : c.host.node = true
  mmap : checkAddrAvailable vm c.physAddr c.size = true → c.IsRam →
    c.host.mmap ≠ 0 ∧ c.host.mmap ≠ mapFailed ∧ c.host.mmap.toNat + c.size.toNat ≤ 2 ^ 64

theorem HostServes.allocates {vm : Vm} {c : AllocCall} (h : vm.HostServes c) :
    vm.HostAllocates c where
  entry := h.entry
  node := h.node
  mmap := fun hcheck hram =>
    let ⟨hnull, hfailed, hwrap, _⟩ := h.mmap hcheck hram
    ⟨hnull, hfailed, hwrap⟩

/-- The entry has a mapping of its size. -/
structure HasMapping (vm : Vm) (e : MemoryEntry) : Prop where
  mapping : (e.memoryPtr, e.size) ∈ vm.mappings
  nonNull : e.memoryPtr ≠ 0
  noWrap : e.memoryPtr.toNat + e.size.toNat ≤ 2 ^ 64

/-- The entry is RAM with a mapping of its size. -/
structure IsBacked (vm : Vm) (e : MemoryEntry) : Prop where
  mapping : (e.memoryPtr, e.size) ∈ vm.mappings
  nonNull : e.memoryPtr ≠ 0
  noWrap : e.memoryPtr.toNat + e.size.toNat ≤ 2 ^ 64
  size_lt : e.size.toNat < 2 ^ 63

theorem IsBacked.hasMapping {vm : Vm} {e : MemoryEntry} (h : vm.IsBacked e) : vm.HasMapping e :=
  ⟨h.mapping, h.nonNull, h.noWrap⟩

/-- Every entry is MMIO, or RAM with a mapping.  Mappings may overlap. -/
structure Furnished (vm : Vm) : Prop where
  fit : vm.AllFit
  ranges : vm.RangesDisjoint
  kinds : ∀ e ∈ vm.memoryEntries, e.type = memoryMmio ∨ e.type = memoryUsable ∧ vm.HasMapping e

/-- Every entry is MMIO, or RAM with a mapping that it shares with no other entry. -/
structure Backed (vm : Vm) : Prop where
  fit : vm.AllFit
  ranges : vm.RangesDisjoint
  kinds : ∀ e ∈ vm.memoryEntries, e.type = memoryMmio ∨ e.type = memoryUsable ∧ vm.IsBacked e
  hosts : vm.memoryEntries.Pairwise MemoryEntry.HostsDisjoint

variable {vm : Vm}

theorem backed_new : Vm.new.Backed where
  fit := fun _ he => absurd he List.not_mem_nil
  ranges := List.Pairwise.nil
  kinds := fun _ he => absurd he List.not_mem_nil
  hosts := List.Pairwise.nil

theorem furnished_new : Vm.new.Furnished where
  fit := fun _ he => absurd he List.not_mem_nil
  ranges := List.Pairwise.nil
  kinds := fun _ he => absurd he List.not_mem_nil

theorem allocateUsable_mappings (vm : Vm) (physAddr size : UInt64) {host : HostAnswers}
    (he : host.entry = true) (hnull : host.mmap ≠ 0) (hfailed : host.mmap ≠ mapFailed) :
    (allocateUsable vm physAddr size host).1.mappings =
      if host.ioctl = true then (host.mmap, size) :: vm.mappings else vm.mappings := by
  have hmap : (vm.mmap host.mmap size).mappings = (host.mmap, size) :: vm.mappings := by
    rw [Vm.mmap, if_neg hfailed]
  cases hi : host.ioctl <;>
    simp [allocateUsable, he, hnull, hi, hmap, munmap, setUserMemoryRegion]

/-- The mappings after a call: one more if it asks for RAM that is available and that
KVM accepts. -/
theorem mappings_alloc {c : AllocCall} (hs : vm.HostAllocates c) :
    (memoryAlloc vm c.physAddr c.size c.type c.host).1.mappings =
      if checkAddrAvailable vm c.physAddr c.size = true ∧ c.IsRam ∧ c.host.ioctl = true then
        (c.host.mmap, c.size) :: vm.mappings
      else
        vm.mappings := by
  have hentry : (memoryAlloc vm c.physAddr c.size c.type c.host).1.mappings =
      if checkAddrAvailable vm c.physAddr c.size = true then
        (allocateEntry vm c.physAddr c.size c.type c.host).1.mappings
      else vm.mappings := by
    by_cases hcheck : checkAddrAvailable vm c.physAddr c.size = true
    · rw [if_pos hcheck]
      cases hmade : vm.entryMade c with
      | none => rw [memoryAlloc_none hcheck hmade]
      | some e => rw [memoryAlloc_some hcheck hmade, if_pos hs.node]
    · rw [memoryAlloc_taken hcheck, if_neg hcheck]
  rw [hentry]
  by_cases hcheck : checkAddrAvailable vm c.physAddr c.size = true
  · by_cases hram : c.IsRam
    · obtain ⟨hnull, hfailed, -⟩ := hs.mmap hcheck hram
      rw [if_pos hcheck, allocateEntry, if_pos (show _ ∨ _ from hram),
        allocateUsable_mappings vm _ _ hs.entry hnull hfailed]
      simp only [hcheck, hram, true_and]
    · have hnone : ¬ (checkAddrAvailable vm c.physAddr c.size = true ∧ c.IsRam ∧
          c.host.ioctl = true) := fun h => hram h.2.1
      rw [if_neg hnone, if_pos hcheck, allocateEntry, if_neg (show ¬ (_ ∨ _) from hram)]
      split <;> rfl
  · rw [if_neg hcheck, if_neg fun h => hcheck h.1]

/-- A call only adds mappings. -/
theorem mappings_subset {c : AllocCall} (hs : vm.HostAllocates c) {m : UInt64 × UInt64}
    (hm : m ∈ vm.mappings) : m ∈ (memoryAlloc vm c.physAddr c.size c.type c.host).1.mappings := by
  rw [mappings_alloc hs]
  split
  · exact List.mem_cons_of_mem _ hm
  · exact hm

/-- The entry that a call adds is MMIO, or RAM with the mapping made for it. -/
theorem hasMapping_added {c : AllocCall} (hs : vm.HostAllocates c) {e : MemoryEntry}
    (he : vm.entryAdded c = some e) :
    e.type = memoryMmio ∨ e.type = memoryUsable ∧
      (memoryAlloc vm c.physAddr c.size c.type c.host).1.HasMapping e := by
  obtain ⟨hcheck, -, -, hsize, ⟨hram, hi, hnull, hptr, ht⟩ | ⟨-, -, ht⟩⟩ := entryAdded_some he
  · obtain ⟨-, -, hwrap⟩ := hs.mmap hcheck hram
    refine Or.inr ⟨ht, ?_, by rwa [hptr], by rwa [hptr, hsize]⟩
    rw [hptr, hsize, mappings_alloc hs, if_pos ⟨hcheck, hram, hi⟩]
    exact List.mem_cons_self
  · exact Or.inl ht

/-- What holds of the entries of a map and of the one that a call adds holds of all
entries afterwards. -/
theorem forall_entries_alloc {P : MemoryEntry → Prop} {c : AllocCall}
    (hold : ∀ e ∈ vm.memoryEntries, P e) (hnew : ∀ e, vm.entryAdded c = some e → P e) :
    ∀ e ∈ (memoryAlloc vm c.physAddr c.size c.type c.host).1.memoryEntries, P e := by
  intro e he
  rw [memoryEntries_alloc] at he
  rcases List.mem_append.mp he with hmem | hadd
  · exact hold e hmem
  · exact hnew e (Option.mem_toList.mp hadd)

/-- An accepted allocation whose range fits leaves every RAM entry with a mapping. -/
theorem alloc_furnished (h : vm.Furnished) {c : AllocCall} (hs : vm.HostAllocates c)
    (hfit : (vm.entryAdded c).isSome → c.Fits) :
    (memoryAlloc vm c.physAddr c.size c.type c.host).1.Furnished := by
  have hranges := fun e (he : vm.entryAdded c = some e) => by
    obtain ⟨hcheck, -, hphys, hsize, -⟩ := entryAdded_some he
    have hnew : e.Fits := by
      unfold MemoryEntry.Fits
      rw [hphys, hsize]
      exact hfit (by rw [he]; rfl)
    exact And.intro hnew (rangesDisjoint_concat h.fit h.ranges hnew (by rwa [hphys, hsize]))
  refine ⟨forall_entries_alloc h.fit fun e he => (hranges e he).1, ?_, ?_⟩
  · unfold RangesDisjoint
    rw [memoryEntries_alloc]
    cases he : vm.entryAdded c with
    | none => rw [Option.toList_none, List.append_nil]; exact h.ranges
    | some e => exact (hranges e he).2
  · refine forall_entries_alloc (fun e he => ?_) fun e he => hasMapping_added hs he
    exact (h.kinds e he).imp_right fun ⟨ht, hb⟩ =>
      ⟨ht, mappings_subset hs hb.mapping, hb.nonNull, hb.noWrap⟩

/-- **Every accepted allocation leaves the map backed by host mappings.** -/
theorem alloc_backed (h : vm.Backed) {c : AllocCall} (hs : vm.HostServes c)
    (hc : vm.MmioFits c) : ∃ vm', vm.alloc c = .ok vm' ∧ vm'.Backed := by
  obtain ⟨_, he, hfit, hmap⟩ := alloc_keeps h.fit (unambiguous h.fit h.ranges)
    (fun hram hi => (hs.kvm hram hi).1) hc
  refine ⟨_, he, ?_⟩
  cases he
  refine ⟨hfit, hmap.disjoint, ?_, ?_⟩
  · refine forall_entries_alloc (fun e he => ?_) fun e he => ?_
    · exact (h.kinds e he).imp_right fun ⟨ht, hb⟩ =>
        ⟨ht, mappings_subset hs.allocates hb.mapping, hb.nonNull, hb.noWrap, hb.size_lt⟩
    · refine (hasMapping_added hs.allocates he).imp_right fun ⟨ht, hm⟩ =>
        ⟨ht, hm.mapping, hm.nonNull, hm.noWrap, ?_⟩
      obtain ⟨-, -, -, hsize, ⟨hram, hi, -⟩ | ⟨-, -, hmmio⟩⟩ := entryAdded_some he
      · rw [hsize]
        exact (hs.kvm hram hi).2
      · rw [hmmio] at ht
        exact absurd ht (by decide)
  · rw [memoryEntries_alloc]
    cases hadd : vm.entryAdded c with
    | none => rw [Option.toList_none, List.append_nil]; exact h.hosts
    | some new =>
        obtain ⟨hcheck, -, -, hsize, hkind⟩ := entryAdded_some hadd
        refine List.pairwise_append.mpr ⟨h.hosts, List.pairwise_singleton _ _, ?_⟩
        intro e he f hf hte htf
        rw [List.mem_singleton.mp hf] at htf ⊢
        -- the mapping of a new RAM entry is disjoint from those made before
        rcases hkind with ⟨hram, -, -, hptr, -⟩ | ⟨-, -, ht⟩
        · rcases h.kinds e he with hmmio | ⟨-, hb⟩
          · rw [hte] at hmmio
            exact absurd hmmio (by decide)
          · obtain ⟨-, -, -, hdisj⟩ := hs.mmap hcheck hram
            have := hdisj _ hb.mapping
            rwa [← hptr, ← hsize] at this
        · rw [ht] at htf
          exact absurd htf (by decide)

end Vm

end BlackHV
