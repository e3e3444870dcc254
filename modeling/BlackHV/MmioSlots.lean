import BlackHV.MmioRounds
import Mathlib.Data.List.Nodup
import Mathlib.Data.List.Perm.Subperm

/-! # The table as an allocator of slots

What marks a slot as available is the `id` in it, and `mmio_register` copies the caller's
record over it before it writes the slot's own number there.  A session is a run of calls
with a record of the regions that are live: from the call of `mmio_register` that returns
their id to the call of `mmio_unregister` with that id, or to the next `mmio_init`.
-/
namespace BlackHV

/-- A call on the table.  Registrations may come from any VM. -/
inductive MmioSlotCall where
  | init
  | register (vm : Vm) (region : MmioRegion) (host : HostAnswers)
  | unregister (id : Int32)

/-- The table, the live regions by their id, and what `mmio_register` has returned so far. -/
structure MmioSlots where
  table : MmioTable
  live : List (Int32 × MmioRegion)
  returned : List Int32

namespace MmioSlots

/-- The table as the program starts. -/
def start : MmioSlots := { table := MmioTable.zero, live := [], returned := [] }

/-- A table after `mmio_init`. -/
def initialised (table : MmioTable) : MmioSlots :=
  { table := mmioInit table, live := [], returned := [] }

def step (s : MmioSlots) : MmioSlotCall → Except Fault MmioSlots
  | .init => .ok { s with table := mmioInit s.table, live := [] }
  | .register vm region host =>
      let (_, table, region, id) := mmioRegister vm s.table region host
      .ok { table
            live := if id = -1 then s.live else s.live ++ [(id, region)]
            returned := s.returned ++ [id] }
  | .unregister id => do
      let table ← mmioUnregister s.table id
      .ok { s with table, live := s.live.filter (·.1 ≠ id) }

/-- No live region has the id. -/
def Free (s : MmioSlots) (id : Int32) : Prop := ∀ p ∈ s.live, p.1 ≠ id

/-- The table is a correct allocator of slots. -/
structure IsAllocator (s : MmioSlots) : Prop where
  /-- The id of a slot is -1 or its number. -/
  ids : ∀ i : Fin maxMmioRegionCount, (s.table.slot i).id = -1 ∨ (s.table.slot i).id = Int32.ofNat i
  /-- No two live regions share an id. -/
  distinct : (s.live.map Prod.fst).Nodup
  /-- A live region is in the slot of its id. -/
  held : ∀ p ∈ s.live, ∃ i : Fin maxMmioRegionCount, p.1 = Int32.ofNat i ∧ s.table.slot i = p.2 ∧
    p.2.id = p.1
  /-- A registration that succeeds takes a free id, and only the slot of that id. -/
  registered : ∀ vm region host, (mmioRegister vm s.table region host).2.2.2 ≠ -1 →
    ∃ i : Fin maxMmioRegionCount, (mmioRegister vm s.table region host).2.2.2 = Int32.ofNat i ∧
      s.Free (Int32.ofNat i) ∧
      (mmioRegister vm s.table region host).2.2.1 = { region with id := Int32.ofNat i } ∧
      (mmioRegister vm s.table region host).2.1.slot i = { region with id := Int32.ofNat i } ∧
      ∀ j, j ≠ i → (mmioRegister vm s.table region host).2.1.slot j = s.table.slot j
  /-- One that fails changes nothing. -/
  refused : ∀ vm region host, (mmioRegister vm s.table region host).2.2.2 = -1 →
    (mmioRegister vm s.table region host).2.1 = s.table ∧
      (mmioRegister vm s.table region host).2.2.1 = region
  /-- With the memory allocated, it fails exactly if all slots have live regions. -/
  full : ∀ vm region host,
    (memoryAlloc vm region.baseAddress (region.highAddress - region.baseAddress) memoryMmio
      host).2 = true →
    ((mmioRegister vm s.table region host).2.2.2 = -1 ↔ s.live.length = maxMmioRegionCount)
  /-- The id of a live region frees the slot of that id, and no other. -/
  freed : ∀ i : Fin maxMmioRegionCount, ¬ s.Free (Int32.ofNat i) → ∃ table,
    mmioUnregister s.table (Int32.ofNat i) = .ok table ∧
      table.slot i = { s.table.slot i with id := -1 } ∧ ∀ j, j ≠ i → table.slot j = s.table.slot j
  /-- Any other id that is not negative changes nothing. -/
  ignored : ∀ id, 0 ≤ id → s.Free id → mmioUnregister s.table id = .ok s.table

/-- The invariant: the ids of the live regions are the numbers of the slots that are taken,
and these hold the regions. -/
structure Allocates (s : MmioSlots) : Prop where
  ids : ∀ i : Fin maxMmioRegionCount, (s.table.slot i).id = -1 ∨ (s.table.slot i).id = Int32.ofNat i
  taken : ∀ i : Fin maxMmioRegionCount, (s.table.slot i).id ≠ -1 → ∃ p ∈ s.live, p.1 = Int32.ofNat i
  held : ∀ p ∈ s.live, ∃ i : Fin maxMmioRegionCount, p.1 = Int32.ofNat i ∧ s.table.slot i = p.2 ∧
    p.2.id = p.1
  distinct : (s.live.map Prod.fst).Nodup

variable {s s' : MmioSlots}

/-- The numbers of the slots, as ids. -/
def slotNumbers : List Int32 :=
  (List.finRange maxMmioRegionCount).map fun i : Fin maxMmioRegionCount => Int32.ofNat i.val

theorem nodup_slotNumbers : slotNumbers.Nodup :=
  List.Nodup.map (fun _ _ hij => MmioSession.id_inj hij) (List.nodup_finRange _)

theorem length_slotNumbers : slotNumbers.length = maxMmioRegionCount := by
  rw [slotNumbers, List.length_map, List.length_finRange]

theorem allocates_init (table : MmioTable) (returned : List Int32) :
    Allocates { table := mmioInit table, live := [], returned } := by
  refine ⟨fun i => Or.inl ?_, fun i hi => absurd ?_ hi, fun p hp => absurd hp List.not_mem_nil,
    List.nodup_nil⟩ <;> rw [MmioTable.slot_mmioInit]

namespace Allocates

/-- A slot is available exactly if its number is free. -/
theorem free_iff (h : s.Allocates) (i : Fin maxMmioRegionCount) :
    s.Free (Int32.ofNat i) ↔ (s.table.slot i).id = -1 := by
  constructor
  · intro hfree
    by_contra hid
    obtain ⟨p, hp, heq⟩ := h.taken i hid
    exact hfree p hp heq
  · rintro hid p hp heq
    obtain ⟨j, hj, hslot, hpid⟩ := h.held p hp
    have hij : i = j := MmioSession.id_inj (heq.symm.trans hj)
    rw [hij, hslot, hpid, heq] at hid
    exact MmioSession.id_ne i hid

/-- All slots are taken exactly if there are as many live regions as slots. -/
theorem full_iff (h : s.Allocates) :
    s.table.firstAvailable = none ↔ s.live.length = maxMmioRegionCount := by
  have hsub : s.live.map Prod.fst ⊆ slotNumbers := by
    intro id hid
    obtain ⟨p, hp, rfl⟩ := List.mem_map.mp hid
    obtain ⟨i, hi, -⟩ := h.held p hp
    exact List.mem_map.mpr ⟨i, List.mem_finRange i, hi.symm⟩
  have hperm := List.subperm_of_subset h.distinct hsub
  rw [MmioTable.firstAvailable_eq_none_iff]
  constructor
  · intro hfull
    have hsub' : slotNumbers ⊆ s.live.map Prod.fst := by
      intro id hid
      obtain ⟨i, -, rfl⟩ := List.mem_map.mp hid
      obtain ⟨p, hp, hpi⟩ := h.taken i (hfull i)
      exact List.mem_map.mpr ⟨p, hp, hpi⟩
    have hle := (List.subperm_of_subset nodup_slotNumbers hsub').length_le
    have hge := hperm.length_le
    rw [length_slotNumbers, List.length_map] at hle hge
    exact Nat.le_antisymm hge hle
  · intro hall i hid
    -- the ids of the live regions are all the numbers then
    have hall' := hperm.perm_of_length_le
      (Nat.le_of_eq (by rw [length_slotNumbers, List.length_map, hall]))
    have hmem : Int32.ofNat i.val ∈ s.live.map Prod.fst :=
      hall'.mem_iff.mpr (List.mem_map.mpr ⟨i, List.mem_finRange i, rfl⟩)
    obtain ⟨p, hp, hpi⟩ := List.mem_map.mp hmem
    exact (h.free_iff i).mpr hid p hp hpi

/-- A live region that is registered: it takes a free slot. -/
theorem register (h : s.Allocates) {i : Fin maxMmioRegionCount} (hid : (s.table.slot i).id = -1)
    (region : MmioRegion) (returned : List Int32) :
    Allocates { table := s.table.setSlot i { region with id := Int32.ofNat i }
                live := s.live ++ [(Int32.ofNat i, { region with id := Int32.ofNat i })]
                returned } := by
  have hfree := (h.free_iff i).mpr hid
  refine ⟨fun j => ?_, fun j hj => ?_, fun p hp => ?_, ?_⟩
  · by_cases hji : j = i
    · rw [hji, MmioTable.slot_setSlot]
      exact Or.inr rfl
    · rw [MmioTable.slot_setSlot_ne _ _ hji]
      exact h.ids j
  · by_cases hji : j = i
    · rw [hji]
      exact ⟨_, List.mem_append_right _ (List.mem_singleton.mpr rfl), rfl⟩
    · rw [MmioTable.slot_setSlot_ne _ _ hji] at hj
      obtain ⟨p, hp, hpj⟩ := h.taken j hj
      exact ⟨p, List.mem_append_left _ hp, hpj⟩
  · rcases List.mem_append.mp hp with hold | hnew
    · obtain ⟨j, hpj, hslot, hpid⟩ := h.held p hold
      have hji : j ≠ i := fun he => hfree p hold (he ▸ hpj)
      exact ⟨j, hpj, (MmioTable.slot_setSlot_ne _ _ hji).trans hslot, hpid⟩
    · rw [List.mem_singleton] at hnew
      subst hnew
      exact ⟨i, rfl, MmioTable.slot_setSlot .., rfl⟩
  · rw [List.map_append, List.map_singleton]
    refine List.nodup_append.mpr ⟨h.distinct, List.nodup_singleton _, fun a ha b hb => ?_⟩
    obtain ⟨p, hp, rfl⟩ := List.mem_map.mp ha
    rw [List.mem_singleton.mp hb]
    exact hfree p hp

/-- The region of a slot that is unregistered, if there is one, is not live any more. -/
theorem unregister (h : s.Allocates) (i : Fin maxMmioRegionCount) (returned : List Int32) :
    Allocates { table := s.table.setSlot i { s.table.slot i with id := -1 }
                live := s.live.filter (·.1 ≠ Int32.ofNat i)
                returned } := by
  refine ⟨fun j => ?_, fun j hj => ?_, fun p hp => ?_, ?_⟩
  · by_cases hji : j = i
    · rw [hji, MmioTable.slot_setSlot]
      exact Or.inl rfl
    · rw [MmioTable.slot_setSlot_ne _ _ hji]
      exact h.ids j
  · by_cases hji : j = i
    · rw [hji, MmioTable.slot_setSlot] at hj
      exact absurd rfl hj
    · rw [MmioTable.slot_setSlot_ne _ _ hji] at hj
      obtain ⟨p, hp, hpj⟩ := h.taken j hj
      refine ⟨p, List.mem_filter.mpr ⟨hp, decide_eq_true fun he => hji ?_⟩, hpj⟩
      exact MmioSession.id_inj (hpj.symm.trans he)
  · obtain ⟨hmem, hne⟩ := List.mem_filter.mp hp
    obtain ⟨j, hpj, hslot, hpid⟩ := h.held p hmem
    have hji : j ≠ i := fun he => of_decide_eq_true hne (he ▸ hpj)
    exact ⟨j, hpj, (MmioTable.slot_setSlot_ne _ _ hji).trans hslot, hpid⟩
  · exact h.distinct.sublist (List.Sublist.map _ List.filter_sublist)

/-- Where no slot has the id, no region has it either. -/
theorem free_of_ne (h : s.Allocates) {id : Int32}
    (hid : ∀ i : Fin maxMmioRegionCount, id ≠ Int32.ofNat i) : s.Free id := by
  intro p hp heq
  obtain ⟨i, hpi, -⟩ := h.held p hp
  exact hid i (heq ▸ hpi)

end Allocates

/-- `mmio_unregister` with an id that is not negative: the number of a slot, or nothing. -/
theorem unregister_cases (table : MmioTable) {id : Int32} (hid : 0 ≤ id) :
    (∃ i : Fin maxMmioRegionCount, id = Int32.ofNat i ∧
      mmioUnregister table id = .ok (table.setSlot i { table.slot i with id := -1 })) ∨
    ((∀ i : Fin maxMmioRegionCount, id ≠ Int32.ofNat i) ∧ mmioUnregister table id = .ok table) := by
  by_cases hlt : id < Int32.ofNat maxMmioRegionCount
  · have hpos : 0 ≤ id.toInt := Int32.le_iff_toInt_le.mp hid
    have hbound : id.toInt.toNat < maxMmioRegionCount := by
      have : id.toInt < 64 := Int32.lt_iff_toInt_lt.mp hlt
      show id.toInt.toNat < 64
      omega
    have heq : id = Int32.ofNat id.toInt.toNat := by
      apply Int32.toInt.inj
      rw [Int32.toInt_ofNat_of_lt (Nat.lt_trans hbound (by decide))]
      omega
    refine Or.inl ⟨⟨id.toInt.toNat, hbound⟩, heq, ?_⟩
    rw [mmioUnregister, if_pos hlt, dif_pos ⟨hpos, hbound⟩]
    rfl
  · refine Or.inr ⟨fun i hi => hlt ?_, if_neg hlt⟩
    rw [hi]
    exact (MmioSession.id_bounds i).1

/-- Setting the id of an available slot to -1 changes nothing. -/
theorem setSlot_available {table : MmioTable} {i : Fin maxMmioRegionCount}
    (hid : (table.slot i).id = -1) : table.setSlot i { table.slot i with id := -1 } = table := by
  have hsame : ({ table.slot i with id := -1 } : MmioRegion) = table.slot i := by rw [← hid]
  rw [hsame]
  exact Vector.set_getElem_self ..

/-- The invariant makes the table an allocator. -/
theorem Allocates.isAllocator (h : s.Allocates) : s.IsAllocator where
  ids := h.ids
  distinct := h.distinct
  held := h.held
  registered := by
    intro vm region host hne
    rcases MmioSession.register_cases vm s.table region host with ⟨vm', he⟩ | ⟨vm', i, hi, he⟩
    · rw [he] at hne
      exact absurd rfl hne
    · rw [he]
      exact ⟨i, rfl, (h.free_iff i).mpr (MmioTable.id_of_firstAvailable hi), rfl,
        MmioTable.slot_setSlot .., fun j hj => MmioTable.slot_setSlot_ne _ _ hj⟩
  refused := by
    intro vm region host hfail
    rcases MmioSession.register_cases vm s.table region host with ⟨vm', he⟩ | ⟨vm', i, -, he⟩
    · rw [he]
      exact ⟨rfl, rfl⟩
    · rw [he] at hfail
      exact absurd hfail (MmioSession.id_ne i)
  full := by
    intro vm region host halloc
    rw [← h.full_iff]
    obtain ⟨vm', hmap⟩ : ∃ vm', memoryAlloc vm region.baseAddress
        (region.highAddress - region.baseAddress) memoryMmio host = (vm', true) :=
      ⟨_, Prod.ext rfl halloc⟩
    cases hi : s.table.firstAvailable with
    | none => exact iff_of_true (congrArg (·.2.2.2) (mmioRegister_full hi hmap)) rfl
    | some i =>
        refine iff_of_false (fun hfail => ?_) (fun hc => by cases hc)
        unfold mmioRegister at hfail
        rw [hmap, hi] at hfail
        exact MmioSession.id_ne i hfail
  freed := by
    intro i _
    exact ⟨_, MmioSession.unregister_eq s.table i, MmioTable.slot_setSlot ..,
      fun j hj => MmioTable.slot_setSlot_ne _ _ hj⟩
  ignored := by
    intro id hid hfree
    rcases unregister_cases s.table hid with ⟨i, rfl, he⟩ | ⟨-, he⟩
    · rw [he, setSlot_available ((h.free_iff i).mp hfree)]
    · exact he

/-- Every call but `mmio_unregister` with a negative id keeps the invariant. -/
theorem Allocates.step (h : s.Allocates) {c : MmioSlotCall}
    (hc : ∀ id, c = .unregister id → 0 ≤ id) : ∃ s', s.step c = .ok s' ∧ s'.Allocates := by
  cases c with
  | init => exact ⟨_, rfl, allocates_init s.table s.returned⟩
  | register vm region host =>
      rcases MmioSession.register_cases vm s.table region host with ⟨vm', he⟩ | ⟨vm', i, hi, he⟩
      · refine ⟨_, by rw [MmioSlots.step, he], ?_⟩
        exact ⟨h.ids, h.taken, h.held, h.distinct⟩
      · refine ⟨_, by rw [MmioSlots.step, he], ?_⟩
        rw [if_neg (MmioSession.id_ne i)]
        exact h.register (MmioTable.id_of_firstAvailable hi) region _
  | unregister id =>
      rcases unregister_cases s.table (hc id rfl) with ⟨i, rfl, he⟩ | ⟨hne, he⟩
      · exact ⟨_, by rw [MmioSlots.step, he, ok_bind], h.unregister i s.returned⟩
      · refine ⟨s, ?_, h⟩
        have hsame : s.live.filter (·.1 ≠ id) = s.live :=
          List.filter_eq_self.mpr fun p hp => decide_eq_true (h.free_of_ne hne p hp)
        rw [MmioSlots.step, he, ok_bind, hsame]

end MmioSlots

/-- **The table is a correct allocator of slots.**  After `mmio_init`, along every run of
`mmio_register`, `mmio_unregister` with ids that are not negative, and `mmio_init`, the
table is an allocator: ids are -1 or the slot's number, live regions have different ids
and are in their slots, a registration takes a free slot and no other, one whose memory is
allocated fails exactly if 64 regions are live, and `mmio_unregister` frees the slot of a
live region, or does nothing. -/
theorem mmio_slots_allocator (table : MmioTable) {calls : List MmioSlotCall}
    (h : ∀ c ∈ calls, ∀ id, c = .unregister id → 0 ≤ id) :
    Runs.AlwaysAlong MmioSlots.step MmioSlots.IsAllocator (MmioSlots.initialised table) calls :=
  Runs.alwaysAlong_of_invariant (I := MmioSlots.Allocates)
    (E := fun c => ∀ id, c = .unregister id → 0 ≤ id)
    (fun _ _ hc hs => hs.step hc) (fun _ hs => hs.isAllocator)
    (MmioSlots.allocates_init table []) h

/-- A slot that is used, given back twice, and used again. -/
theorem mmio_slots_allocator_reused :
    Runs.AlwaysAlong MmioSlots.step MmioSlots.IsAllocator (MmioSlots.initialised MmioTable.zero)
      [.register Vm.new ⟨7, 0xC0000000, 0xC0001000, some 0x401000, none, 0⟩ ⟨true, 0, true, true⟩,
        .unregister 0, .unregister 0, .unregister 64,
        .register Vm.new ⟨0, 0xD0000000, 0xD0001000, some 0x402000, none, 0⟩
          ⟨true, 0, true, true⟩] := by
  refine mmio_slots_allocator MmioTable.zero ?_
  intro c hc id hid
  subst hid
  simp only [List.mem_cons, List.not_mem_nil, or_false, reduceCtorEq, false_or,
    MmioSlotCall.unregister.injEq] at hc
  rcases hc with rfl | rfl | rfl <;> decide

/-! ## Ids that `mmio_register` has returned -/

namespace MmioSlots

/-- What is given to `mmio_unregister` is something that `mmio_register` has returned. -/
def Given (s : MmioSlots) (c : MmioSlotCall) : Prop := ∀ id, c = .unregister id → id ∈ s.returned

/-- The call accesses the table at the indices of its slots only; and if it is
`mmio_unregister` with an id that no live region has, it leaves the table as it is. -/
def Guarded (s : MmioSlots) (c : MmioSlotCall) : Prop :=
  ∃ s', s.step c = .ok s' ∧ ∀ id, c = .unregister id → s.Free id → s'.table = s.table

/-- What is known of every state: before the first `mmio_init` no slot is available and
`mmio_register` has returned nothing but -1; afterwards it has returned -1 and numbers of
slots. -/
structure Reached (s : MmioSlots) : Prop where
  table : s.Allocates ∨ (s.table.firstAvailable = none ∧ ∀ id ∈ s.returned, id = -1)
  returned : ∀ id ∈ s.returned, id = -1 ∨ ∃ i : Fin maxMmioRegionCount, id = Int32.ofNat i

variable {s s' : MmioSlots} {c : MmioSlotCall}

theorem reached_start : start.Reached := by
  refine ⟨Or.inr ⟨?_, fun id hid => absurd hid List.not_mem_nil⟩,
    fun id hid => absurd hid List.not_mem_nil⟩
  rw [MmioTable.firstAvailable_eq_none_iff]
  intro i
  rw [start, MmioTable.slot_zero]
  decide

/-- -1 is below the upper bound, and the index of no slot. -/
theorem unregister_failure (s : MmioSlots) : s.step (.unregister (-1)) = .error .outOfBounds := rfl

/-- What `mmio_register` returns. -/
theorem register_returned (vm : Vm) (table : MmioTable) (region : MmioRegion) (host : HostAnswers) :
    (mmioRegister vm table region host).2.2.2 = -1 ∨ ∃ i : Fin maxMmioRegionCount,
      (mmioRegister vm table region host).2.2.2 = Int32.ofNat i := by
  rcases MmioSession.register_cases vm table region host with ⟨vm', he⟩ | ⟨vm', i, -, he⟩
  · exact Or.inl (congrArg (·.2.2.2) he)
  · exact Or.inr ⟨i, congrArg (·.2.2.2) he⟩

/-- A registration adds one to what was returned. -/
theorem Reached.register_returned (h : s.Reached) (vm : Vm) (region : MmioRegion)
    (host : HostAnswers) : ∀ id ∈ s.returned ++ [(mmioRegister vm s.table region host).2.2.2],
      id = -1 ∨ ∃ i : Fin maxMmioRegionCount, id = Int32.ofNat i := by
  intro id hid
  rcases List.mem_append.mp hid with hold | hnew
  · exact h.returned id hold
  · rw [List.mem_singleton.mp hnew]
    exact MmioSlots.register_returned vm s.table region host

/-- A call with an id that was returned, and is not -1, has the number of a slot, after
`mmio_init`. -/
theorem Reached.of_given (h : s.Reached) {id : Int32} (hgiven : id ∈ s.returned) (hid : id ≠ -1) :
    s.Allocates ∧ ∃ i : Fin maxMmioRegionCount, id = Int32.ofNat i := by
  refine ⟨?_, (h.returned id hgiven).resolve_left hid⟩
  rcases h.table with halloc | ⟨-, hall⟩
  · exact halloc
  · exact absurd (hall id hgiven) hid

theorem Reached.step (h : s.Reached) (hgiven : s.Given c) (he : s.step c = .ok s') :
    s'.Reached := by
  cases c with
  | init =>
      cases he
      exact ⟨Or.inl (allocates_init s.table s.returned), h.returned⟩
  | register vm region host =>
      have hreturned := h.register_returned vm region host
      rcases h.table with halloc | ⟨hfull, hall⟩
      · obtain ⟨s₁, he₁, h₁⟩ :=
          halloc.step (c := .register vm region host) (fun _ hc => by cases hc)
        rw [he] at he₁
        cases he₁
        cases he
        exact ⟨Or.inl h₁, hreturned⟩
      · -- no slot is available, so nothing can be registered
        rcases MmioSession.register_cases vm s.table region host with ⟨vm', hreg⟩ | ⟨vm', i, hi, -⟩
        · rw [MmioSlots.step, hreg] at he
          rw [hreg] at hreturned
          cases he
          refine ⟨Or.inr ⟨hfull, fun id hid => ?_⟩, hreturned⟩
          rcases List.mem_append.mp hid with hold | hnew
          · exact hall id hold
          · exact List.mem_singleton.mp hnew
        · cases hfull.symm.trans hi
  | unregister id =>
      by_cases hid : id = -1
      · rw [hid, unregister_failure] at he
        cases he
      · obtain ⟨halloc, i, rfl⟩ := h.of_given (hgiven id rfl) hid
        rw [MmioSlots.step, MmioSession.unregister_eq, ok_bind] at he
        cases he
        exact ⟨Or.inl (halloc.unregister i s.returned), h.returned⟩

theorem Reached.guarded_iff (h : s.Reached) (hgiven : s.Given c) :
    s.Guarded c ↔ c ≠ .unregister (-1) := by
  constructor
  · rintro ⟨s', he, -⟩ rfl
    rw [unregister_failure] at he
    cases he
  · intro hne
    cases c with
    | init => exact ⟨_, rfl, fun id hc => by cases hc⟩
    | register vm region host => exact ⟨_, rfl, fun id hc => by cases hc⟩
    | unregister id =>
        have hid : id ≠ -1 := fun hc => hne (congrArg MmioSlotCall.unregister hc)
        obtain ⟨halloc, i, rfl⟩ := h.of_given (hgiven id rfl) hid
        refine ⟨_, by rw [MmioSlots.step, MmioSession.unregister_eq, ok_bind], ?_⟩
        rintro _ ⟨⟩ hfree
        exact setSlot_available ((halloc.free_iff i).mp hfree)

end MmioSlots

/-- **When what `mmio_register` returned can be unregistered.**  In a run of `mmio_init`,
`mmio_register` and `mmio_unregister`, from the table of zeros, that gives to
`mmio_unregister` only what some `mmio_register` before has returned: every access to the
table is at the index of a slot, and an id that no live region has changes nothing, if and
only if `mmio_unregister` is never given -1. -/
theorem mmio_unregister_returned_iff {calls : List MmioSlotCall}
    (hgiven : Runs.EachStep MmioSlots.step MmioSlots.Given MmioSlots.start calls) :
    Runs.EachStep MmioSlots.step MmioSlots.Guarded MmioSlots.start calls ↔
      Runs.EachStep MmioSlots.step (fun _ c => c ≠ .unregister (-1)) MmioSlots.start calls :=
  Runs.eachStep_iff_of_keeps (fun _ _ _ h hgiven he => h.step hgiven he)
    (fun _ _ h hgiven => h.guarded_iff hgiven) MmioSlots.reached_start hgiven

/-- A slot that is used and given back twice. -/
theorem mmio_unregister_returned_iff_twice :
    Runs.EachStep MmioSlots.step MmioSlots.Guarded MmioSlots.start
        [.init, .register Vm.new ⟨0, 0xC0000000, 0xC0001000, some 0x401000, none, 0⟩
          ⟨true, 0, true, true⟩, .unregister 0, .unregister 0] ↔
      Runs.EachStep MmioSlots.step (fun _ c => c ≠ .unregister (-1)) MmioSlots.start
        [.init, .register Vm.new ⟨0, 0xC0000000, 0xC0001000, some 0x401000, none, 0⟩
          ⟨true, 0, true, true⟩, .unregister 0, .unregister 0] := by
  refine mmio_unregister_returned_iff ?_
  refine .cons (fun _ hc => by cases hc) rfl (.cons (fun _ hc => by cases hc) rfl ?_)
  refine .cons (fun _ hc => ?_) rfl (.cons (fun _ hc => ?_) rfl trivial)
  · cases hc
    decide +kernel
  · cases hc
    decide +kernel

/-- After `mmio_init`, a registration fails for want of memory and returns -1, and
`mmio_unregister` is given that: the access is before the first slot. -/
theorem mmio_unregister_failure_value :
    let calls : List MmioSlotCall := [.init,
      .register Vm.new ⟨0, 0xC0000000, 0xC0001000, some 0x401000, none, 0⟩ ⟨false, 0, true, true⟩,
      .unregister (-1)]
    Runs.EachStep MmioSlots.step MmioSlots.Given MmioSlots.start calls ∧
      Runs.run MmioSlots.step MmioSlots.start calls = .error .outOfBounds ∧
      ¬ Runs.EachStep MmioSlots.step MmioSlots.Guarded MmioSlots.start calls := by
  refine ⟨?_, rfl, fun h => ?_⟩
  · refine .cons (fun _ hc => by cases hc) rfl (.cons (fun _ hc => by cases hc) rfl ?_)
    refine ⟨fun _ hc => ?_, fun s' hs' => by cases hs'⟩
    cases hc
    decide +kernel
  · obtain ⟨s', he, -⟩ := ((h.2 _ rfl).2 _ rfl).1
    cases he

end BlackHV
