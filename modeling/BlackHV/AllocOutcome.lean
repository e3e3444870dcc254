import BlackHV.E820

/-! # Whether an allocation is all or nothing

`memory_alloc` takes an entry, a mapping, a KVM slot, a slot number and a list node, in
this order.  `allocate_usable` gives back what it has taken where a later step fails.
`memory_alloc` itself does not look at what `linked_list_add` returns, and the entry it
gets for a framebuffer says that it is ordinary RAM.
-/
namespace BlackHV

namespace Vm

/-- The call gets to `linked_list_add`: the range is available, there is memory for the
entry, and RAM gets a mapping that KVM accepts. -/
def Reaches (vm : Vm) (c : AllocCall) : Prop :=
  checkAddrAvailable vm c.physAddr c.size = true ∧ c.host.entry = true ∧
    ((c.IsRam ∧ c.host.mmap ≠ 0 ∧ c.host.ioctl = true) ∨ c.type = memoryMmio)

/-- What is expected of a call that returns 0. -/
structure Unchanged (vm vm' : Vm) : Prop where
  entries : vm'.memoryEntries = vm.memoryEntries
  nextSlot : vm'.nextSlot = vm.nextSlot
  slots : vm'.slots = vm.slots

variable {vm : Vm}

theorem Unchanged.refl (vm : Vm) : Unchanged vm vm := ⟨rfl, rfl, rfl⟩

@[simp] theorem mmap_slots (vm : Vm) (memPtr size : UInt64) :
    (vm.mmap memPtr size).slots = vm.slots := by
  unfold mmap
  split <;> rfl

/-- `allocate_usable` gives back what it took, or returns an entry with its slot. -/
theorem allocateUsable_slots (vm : Vm) (physAddr size : UInt64) (host : HostAnswers) :
    ((allocateUsable vm physAddr size host).2 = none →
      Unchanged vm (allocateUsable vm physAddr size host).1) ∧
    ∀ entry, (allocateUsable vm physAddr size host).2 = some entry →
      (allocateUsable vm physAddr size host).1.nextSlot = vm.nextSlot + 1 ∧
      ∀ slot, (allocateUsable vm physAddr size host).1.slots slot =
        if slot = vm.nextSlot then
          some { slot := vm.nextSlot, flags := 0, guestPhysAddr := physAddr, memorySize := size,
                 userspaceAddr := entry.memoryPtr }
        else vm.slots slot := by
  unfold allocateUsable
  by_cases he : host.entry = true
  · by_cases hm : host.mmap = 0
    · refine ⟨fun _ => ?_, fun entry h => by simp [he, hm] at h⟩
      constructor <;> simp [he, hm]
    · by_cases hi : host.ioctl = true
      · refine ⟨fun h => by simp [he, hm, hi] at h, ?_⟩
        intro entry h
        simp only [he, hm, hi, Bool.not_true, Bool.false_eq_true, if_false, Option.some.injEq] at h
        subst h
        simp [he, hm, hi, setUserMemoryRegion]
      · refine ⟨fun _ => ?_, fun entry h => by simp [he, hm, hi] at h⟩
        constructor <;> simp [he, hm, hi, munmap]
  · refine ⟨fun _ => ?_, fun entry h => by simp [he] at h⟩
    constructor <;> simp [he]

/-- The same of `memory_alloc`'s `switch`. -/
theorem allocateEntry_slots (vm : Vm) (c : AllocCall) :
    (vm.entryMade c = none → Unchanged vm (allocateEntry vm c.physAddr c.size c.type c.host).1) ∧
    ∀ entry, vm.entryMade c = some entry → c.IsRam →
      (allocateEntry vm c.physAddr c.size c.type c.host).1.nextSlot = vm.nextSlot + 1 ∧
      ∀ slot, (allocateEntry vm c.physAddr c.size c.type c.host).1.slots slot =
        if slot = vm.nextSlot then
          some { slot := vm.nextSlot, flags := 0, guestPhysAddr := c.physAddr, memorySize := c.size,
                 userspaceAddr := entry.memoryPtr }
        else vm.slots slot := by
  obtain ⟨-, hmade⟩ := allocateEntry_entry vm c
  rw [← hmade]
  unfold allocateEntry
  by_cases hram : c.IsRam
  · rw [if_pos (show _ ∨ _ from hram)]
    obtain ⟨hnone, hsome⟩ := allocateUsable_slots vm c.physAddr c.size c.host
    exact ⟨hnone, fun entry he _ => hsome entry he⟩
  · rw [if_neg (show ¬ (_ ∨ _) from hram)]
    refine ⟨fun _ => ?_, fun _ _ h => absurd h hram⟩
    split
    · exact Unchanged.refl vm
    · exact Unchanged.refl vm

theorem entryMade_isSome_iff {c : AllocCall} :
    (vm.entryMade c).isSome = true ↔ c.host.entry = true ∧
      ((c.IsRam ∧ c.host.mmap ≠ 0 ∧ c.host.ioctl = true) ∨ c.type = memoryMmio) := by
  unfold entryMade
  by_cases hram : c.IsRam
  · have hmmio : ¬ c.type = memoryMmio := by
      rcases hram with h | h
      · rw [h]
        decide
      · rw [h]
        decide
    rw [if_pos hram]
    split
    · rename_i h
      exact iff_of_true rfl ⟨h.1, Or.inl ⟨hram, h.2⟩⟩
    · rename_i h
      refine iff_of_false (fun hs => by cases hs) ?_
      rintro ⟨he, ⟨-, hrest⟩ | hc⟩
      · exact h ⟨he, hrest⟩
      · exact hmmio hc
  · rw [if_neg hram]
    split
    · rename_i h
      exact iff_of_true rfl ⟨h.2, Or.inr h.1⟩
    · rename_i h
      refine iff_of_false (fun hs => by cases hs) ?_
      rintro ⟨he, ⟨hr, -⟩ | hc⟩
      · exact hram hr
      · exact h ⟨hc, he⟩

/-- A call gets to `linked_list_add` when its range is available and it makes an entry. -/
theorem reaches_iff_made {c : AllocCall} : vm.Reaches c ↔
    checkAddrAvailable vm c.physAddr c.size = true ∧ ∃ e, vm.entryMade c = some e := by
  unfold Reaches
  rw [← entryMade_isSome_iff, Option.isSome_iff_exists]

theorem entryMade_of_not_reaches {c : AllocCall}
    (hcheck : checkAddrAvailable vm c.physAddr c.size = true) (h : ¬ vm.Reaches c) :
    vm.entryMade c = none := by
  cases he : vm.entryMade c with
  | none => rfl
  | some e => exact absurd (reaches_iff_made.mpr ⟨hcheck, e, he⟩) h

/-- A call that does not get to `linked_list_add` returns 0 and changes nothing. -/
theorem memoryAlloc_refused {c : AllocCall} (h : ¬ vm.Reaches c) :
    ∃ vm', memoryAlloc vm c.physAddr c.size c.type c.host = (vm', false) ∧ Unchanged vm vm' := by
  by_cases hcheck : checkAddrAvailable vm c.physAddr c.size = true
  · have hnone := entryMade_of_not_reaches hcheck h
    exact ⟨_, memoryAlloc_none hcheck hnone, (allocateEntry_slots vm c).1 hnone⟩
  · exact ⟨vm, memoryAlloc_taken hcheck, Unchanged.refl vm⟩

/-- A call that gets there returns 1, whatever `linked_list_add` returns. -/
theorem memoryAlloc_reaches {c : AllocCall} {e : MemoryEntry}
    (hcheck : checkAddrAvailable vm c.physAddr c.size = true) (he : vm.entryMade c = some e) :
    ∃ vm', memoryAlloc vm c.physAddr c.size c.type c.host = (vm', true) ∧
      vm'.memoryEntries =
        (if c.host.node then vm.memoryEntries ++ [e] else vm.memoryEntries) ∧
      (c.IsRam → vm'.nextSlot = vm.nextSlot + 1 ∧ ∀ slot, vm'.slots slot =
        if slot = vm.nextSlot then
          some { slot := vm.nextSlot, flags := 0, guestPhysAddr := c.physAddr, memorySize := c.size,
                 userspaceAddr := e.memoryPtr }
        else vm.slots slot) := by
  obtain ⟨hlist, -⟩ := allocateEntry_entry vm c
  have hslots := (allocateEntry_slots vm c).2 e he
  refine ⟨_, memoryAlloc_some hcheck he, ?_⟩
  cases hn : c.host.node with
  | true => exact ⟨rfl, hslots⟩
  | false => exact ⟨hlist, hslots⟩

end Vm

end BlackHV
