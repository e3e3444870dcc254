import BlackHV.AllocOutcome

/-! # KVM's memory slots

RAM is in three places: an entry in the list, a slot number taken from `next_slot`, and a
region that KVM holds under that number.  As long as every RAM entry gets into the list,
the three agree: the RAM entries carry the numbers 0, 1, 2, … in the order of the list,
KVM holds the range and the mapping of each, and no number at or above `next_slot` is in
use.  MMIO entries, whose `slot` is 0 and means nothing, do not count.
-/
namespace BlackHV

namespace MemoryEntry

/-- The entry is RAM: its type is USABLE or FRAMEBUFFER. -/
def isRam (e : MemoryEntry) : Bool := e.type = memoryUsable ∨ e.type = memoryFramebuffer

/-- What KVM is expected to hold for an entry. -/
def region (e : MemoryEntry) : KvmRegion :=
  { slot := e.slot, flags := 0, guestPhysAddr := e.guestPhys, memorySize := e.size,
    userspaceAddr := e.memoryPtr }

end MemoryEntry

namespace Vm

/-- The RAM entries, in the order of the list. -/
def ramEntries (vm : Vm) : List MemoryEntry := vm.memoryEntries.filter (·.isRam)

/-- The map mirrors KVM's. -/
structure Mirrored (vm : Vm) : Prop where
  slots : vm.ramEntries.map (·.slot.toNat) = List.range vm.nextSlot.toNat
  kvm : ∀ i e, vm.ramEntries[i]? = some e → vm.slots (UInt32.ofNat i) = some e.region
  unused : ∀ slot, vm.nextSlot.toNat ≤ slot.toNat → vm.slots slot = none

/-- A call leaves every slot that is in use as it is. -/
def KeepsSlots (vm : Vm) (c : AllocCall) : Prop :=
  ∀ slot region, vm.slots slot = some region → ∀ vm', vm.alloc c = .ok vm' →
    vm'.slots slot = some region

/-- KVM accepts no region under a number from `limit` on. -/
def KvmLimits (limit : Nat) (vm : Vm) (c : AllocCall) : Prop :=
  vm.Reaches c → c.IsRam → c.host.ioctl = true → vm.nextSlot.toNat < limit

variable {vm : Vm} {c : AllocCall}

/-- There are as many RAM entries as numbers have been taken. -/
theorem Mirrored.length_eq (h : vm.Mirrored) : vm.ramEntries.length = vm.nextSlot.toNat := by
  have hlen := congrArg List.length h.slots
  rwa [List.length_map, List.length_range] at hlen

/-- The entry of a call that is not for RAM is not RAM, and takes no number. -/
theorem alloc_mmio (hram : ¬ c.IsRam) :
    (memoryAlloc vm c.physAddr c.size c.type c.host).1.ramEntries = vm.ramEntries ∧
    (memoryAlloc vm c.physAddr c.size c.type c.host).1.nextSlot = vm.nextSlot ∧
    (memoryAlloc vm c.physAddr c.size c.type c.host).1.slots = vm.slots := by
  refine ⟨?_, ?_⟩
  · rw [ramEntries, memoryEntries_alloc, List.filter_append]
    cases hadd : vm.entryAdded c with
    | none => exact List.append_nil _
    | some e =>
        obtain ⟨-, -, -, -, ⟨h, -⟩ | ⟨-, -, htype⟩⟩ := entryAdded_some hadd
        · exact absurd h hram
        · have hno : e.isRam = false := by
            rw [MemoryEntry.isRam, htype]
            decide
          rw [Option.toList_some, List.filter_singleton, hno]
          exact List.append_nil _
  · have hentry : (allocateEntry vm c.physAddr c.size c.type c.host).1 = vm := by
      rw [allocateEntry, if_neg (show ¬ (_ ∨ _) from hram)]
      split <;> rfl
    by_cases hcheck : checkAddrAvailable vm c.physAddr c.size = true
    · cases hmade : vm.entryMade c with
      | none =>
          rw [memoryAlloc_none hcheck hmade, hentry]
          exact ⟨rfl, rfl⟩
      | some e =>
          rw [memoryAlloc_some hcheck hmade, hentry]
          split <;> exact ⟨rfl, rfl⟩
    · rw [memoryAlloc_taken hcheck]
      exact ⟨rfl, rfl⟩

/-- A call with a list node changes neither the RAM entries nor KVM's slots, or adds an
entry with the next number to both. -/
theorem alloc_ram_cases (hnode : c.host.node = true) {vm' : Vm} (h : vm.alloc c = .ok vm') :
    (vm'.ramEntries = vm.ramEntries ∧ vm'.nextSlot = vm.nextSlot ∧ vm'.slots = vm.slots) ∨
    ∃ e, (vm.Reaches c ∧ c.IsRam ∧ c.host.ioctl = true) ∧ e.slot = vm.nextSlot ∧
      vm'.ramEntries = vm.ramEntries ++ [e] ∧ vm'.nextSlot = vm.nextSlot + 1 ∧
      ∀ slot, vm'.slots slot = if slot = vm.nextSlot then some e.region else vm.slots slot := by
  cases h
  by_cases hram : c.IsRam
  · by_cases hreach : vm.Reaches c
    · obtain ⟨hcheck, e, he⟩ := reaches_iff_made.mp hreach
      obtain ⟨vm', halloc, hentries, hslots⟩ := memoryAlloc_reaches hcheck he
      obtain ⟨hphys, hsize, ⟨-, hioctl, -, hptr, htype⟩ | ⟨-, -, hmmio⟩⟩ := entryMade_some he
      · obtain ⟨hnext, hkvm⟩ := hslots hram
        have hslot : e.slot = vm.nextSlot := by
          unfold entryMade at he
          rw [if_pos hram] at he
          split at he <;> cases he
          rfl
        have hisRam : e.isRam = true := by
          rw [MemoryEntry.isRam, htype]
          decide
        rw [halloc]
        refine Or.inr ⟨e, ⟨hreach, hram, hioctl⟩, hslot, ?_, hnext, ?_⟩
        · rw [ramEntries, hentries, if_pos hnode, List.filter_append, List.filter_singleton, hisRam]
          rfl
        · intro slot
          rw [hkvm slot, MemoryEntry.region, hslot, hphys, hsize]
      · unfold entryMade at he
        rw [if_pos hram] at he
        split at he <;> cases he
        cases hmmio
    · obtain ⟨vm', halloc, hunchanged⟩ := memoryAlloc_refused hreach
      rw [halloc]
      refine Or.inl ⟨?_, hunchanged.nextSlot, hunchanged.slots⟩
      rw [ramEntries, hunchanged.entries]
      rfl
  · exact Or.inl (alloc_mmio hram)

theorem mirrored_new : Vm.new.Mirrored where
  slots := rfl
  kvm := fun _ _ h => by cases h
  unused := fun _ _ => rfl

/-- An entry with the next number, in the map and in KVM. -/
theorem Mirrored.added (h : vm.Mirrored) (hlt : vm.nextSlot.toNat + 1 < 2 ^ 32) {vm' : Vm}
    {e : MemoryEntry} (hslot : e.slot = vm.nextSlot)
    (hram : vm'.ramEntries = vm.ramEntries ++ [e]) (hnext : vm'.nextSlot = vm.nextSlot + 1)
    (hslots : ∀ slot, vm'.slots slot =
      if slot = vm.nextSlot then some e.region else vm.slots slot) : vm'.Mirrored := by
  have hsucc : (vm.nextSlot + 1).toNat = vm.nextSlot.toNat + 1 := by
    rw [UInt32.toNat_add, Nat.mod_eq_of_lt (by rw [UInt32.toNat_one]; exact hlt)]
    rfl
  refine ⟨?_, ?_, ?_⟩
  · rw [hram, hnext, hsucc, List.map_append, h.slots, List.range_succ, List.map_singleton, hslot]
  · intro i e' he'
    rw [hslots]
    rw [hram] at he'
    rcases Nat.lt_or_ge i vm.ramEntries.length with hi | hi
    · -- an earlier entry has a smaller number
      have hne : UInt32.ofNat i ≠ vm.nextSlot := by
        intro hc
        have hnat := congrArg UInt32.toNat hc
        rw [h.length_eq] at hi
        rw [UInt32.toNat_ofNat', Nat.mod_eq_of_lt (by omega)] at hnat
        omega
      rw [List.getElem?_append_left hi] at he'
      rw [if_neg hne]
      exact h.kvm i e' he'
    · rw [List.getElem?_append_right hi, List.getElem?_singleton] at he'
      split at he'
      · cases he'
        have hi' : i = vm.nextSlot.toNat := by
          rw [h.length_eq] at hi
          have := h.length_eq
          omega
        rw [hi', UInt32.ofNat_toNat, if_pos rfl]
      · cases he'
  · intro slot hs
    rw [hnext, hsucc] at hs
    have hne : slot ≠ vm.nextSlot := by
      rintro rfl
      omega
    rw [hslots, if_neg hne]
    exact h.unused slot (by omega)

/-- No slot has the next number yet. -/
theorem Mirrored.keeps_added (h : vm.Mirrored) {vm' : Vm} {e : MemoryEntry}
    (hslots : ∀ slot, vm'.slots slot =
      if slot = vm.nextSlot then some e.region else vm.slots slot) {slot : UInt32}
    {region : KvmRegion} (hr : vm.slots slot = some region) : vm'.slots slot = some region := by
  have hne : slot ≠ vm.nextSlot := by
    rintro rfl
    rw [h.unused _ (Nat.le_refl _)] at hr
    cases hr
  rw [hslots, if_neg hne]
  exact hr

/-- A call under the limit keeps the mirror, and takes no number that is in use. -/
theorem alloc_mirrored {limit : Nat} (hlimit : limit < 2 ^ 32) (h : vm.Mirrored)
    (hnode : c.host.node = true) (hkvm : vm.KvmLimits limit c) :
    (∃ vm', vm.alloc c = .ok vm' ∧ vm'.Mirrored) ∧ vm.KeepsSlots c := by
  have hcases : ∀ vm', vm.alloc c = .ok vm' → vm'.Mirrored ∧
      ∀ slot region, vm.slots slot = some region → vm'.slots slot = some region := by
    intro vm' halloc
    rcases alloc_ram_cases hnode halloc with ⟨hram, hnext, hslots⟩ |
      ⟨e, ⟨hreach, hisRam, hioctl⟩, hslot, hram, hnext, hslots⟩
    · refine ⟨⟨?_, ?_, ?_⟩, fun slot region hr => hslots ▸ hr⟩
      · rw [hram, hnext, h.slots]
      · rw [hram, hslots]
        exact h.kvm
      · rw [hnext, hslots]
        exact h.unused
    · have hlt := hkvm hreach hisRam hioctl
      exact ⟨h.added (by omega) hslot hram hnext hslots,
        fun slot region hr => h.keeps_added hslots hr⟩
  refine ⟨⟨_, rfl, (hcases _ rfl).1⟩, ?_⟩
  intro slot region hr vm' halloc
  exact (hcases vm' halloc).2 slot region hr

end Vm

/-- **The map mirrors KVM's.**  Whatever types the calls of `memory_alloc` have, and whether
or not `malloc` has a block for the entry, `mmap` a mapping and KVM a free slot: if every
entry gets its list node and KVM accepts no number beyond its limit, then in every state
on the way the RAM entries carry the numbers from 0 to `next_slot - 1` in the order of
the list, KVM holds the range and the mapping of each, and the next call redefines no
slot in use. -/
theorem kvm_slots_mirrored {limit : Nat} (hlimit : limit < 2 ^ 32) {calls : List AllocCall}
    (hnode : ∀ c ∈ calls, c.host.node = true)
    (hkvm : Runs.EachStep Vm.alloc (Vm.KvmLimits limit) Vm.new calls) :
    Runs.AlwaysAlong Vm.alloc (fun vm => vm.Mirrored ∧
      ∀ c, c.host.node = true → vm.KvmLimits limit c → vm.KeepsSlots c) Vm.new calls := by
  refine Runs.alwaysAlong_of_eachStep ?_ (fun vm h => ⟨h, ?_⟩) Vm.mirrored_new
    (hkvm.and (Runs.eachStep_of_forall hnode))
  · rintro vm c h ⟨hk, hn⟩
    exact (Vm.alloc_mirrored hlimit h hn hk).1
  · intro c hn hk
    exact (Vm.alloc_mirrored hlimit h hn hk).2

/-- RAM, MMIO between, RAM that KVM refuses, a framebuffer, and a mapping that fails. -/
theorem kvm_slots_mirrored_five :
    let calls : List AllocCall :=
      [⟨0, 0x1000, memoryUsable, ⟨true, 0x7F0000000000, true, true⟩⟩,
        ⟨0xC0000000, 0x1000, memoryMmio, ⟨true, 0, true, true⟩⟩,
        ⟨0x4000, 0x1000, memoryUsable, ⟨true, 0x7F0000010000, false, true⟩⟩,
        ⟨0xD0000000, 0x1000, memoryFramebuffer, ⟨true, 0x7F0000020000, true, true⟩⟩,
        ⟨0x8000, 0x1000, memoryUsable, ⟨true, 0, true, true⟩⟩]
    Runs.AlwaysAlong Vm.alloc (fun vm => vm.Mirrored ∧
      ∀ c, c.host.node = true → vm.KvmLimits 0x1FD c → vm.KeepsSlots c) Vm.new calls := by
  intro calls
  refine kvm_slots_mirrored (by decide : 0x1FD < 2 ^ 32) (by decide) ?_
  refine Runs.EachStep.cons ?_ rfl (Runs.EachStep.cons ?_ rfl (Runs.EachStep.cons ?_ rfl
    (Runs.EachStep.cons ?_ rfl (Runs.EachStep.cons ?_ rfl trivial))))
  all_goals exact fun _ _ _ => by decide

end BlackHV
