import BlackHV.MmioDispatch
import BlackHV.MemoryRanges

/-! # What a failed registration leaves behind

`mmio_register` reserves the range in the VM's map, and looks for a slot of the table
afterwards.  Where there is none it returns -1, as it does where the range is taken, and
the map keeps the range.
-/
namespace BlackHV

/-- The range of the region gets an entry in the map. -/
def MmioRegion.Reserves (region : MmioRegion) (vm : Vm) (host : HostAnswers) : Prop :=
  checkAddrAvailable vm region.baseAddress (region.highAddress - region.baseAddress) = true ∧
    host.entry = true ∧ host.node = true

/-- If the registration returns -1, it has changed neither the map nor the table. -/
def RegisterUndone (vm : Vm) (table : MmioTable) (region : MmioRegion) (host : HostAnswers) :
    Prop :=
  (mmioRegister vm table region host).2.2.2 = -1 →
    (mmioRegister vm table region host).1 = vm ∧ (mmioRegister vm table region host).2.1 = table

/-- `memory_alloc` of MMIO: what it does to the map, and whether it returns 1. -/
theorem memoryAlloc_mmio (vm : Vm) (physAddr size : UInt64) (host : HostAnswers) :
    memoryAlloc vm physAddr size memoryMmio host =
      if checkAddrAvailable vm physAddr size = true ∧ host.entry = true then
        ({ vm with memoryEntries := if host.node then
            vm.memoryEntries ++ [{ guestPhys := physAddr, memoryPtr := 0, size, slot := 0,
                                   type := memoryMmio }]
          else vm.memoryEntries }, true)
      else (vm, false) := by
  have hram : ¬ (memoryMmio = memoryFramebuffer ∨ memoryMmio = memoryUsable) := by decide
  simp only [memoryAlloc, allocateEntry, if_neg hram, if_true, allocateMmio]
  by_cases hcheck : checkAddrAvailable vm physAddr size = true
  · cases he : host.entry with
    | false => simp [hcheck]
    | true => cases hn : host.node <;> simp [hcheck]
  · simp [hcheck]

namespace MmioTable

theorem firstAvailable_eq_none_iff {table : MmioTable} :
    table.firstAvailable = none ↔ ∀ i : Fin maxMmioRegionCount, (table.slot i).id ≠ -1 := by
  unfold firstAvailable
  rw [List.find?_eq_none]
  constructor
  · intro h i hi
    exact h i (List.mem_finRange i) (decide_eq_true hi)
  · intro h i _ hi
    exact h i (of_decide_eq_true hi)

/-- The first `n` slots are taken, and the others available. -/
def TakenTo (table : MmioTable) (n : Nat) : Prop :=
  ∀ i : Fin maxMmioRegionCount, (table.slot i).id ≠ -1 ↔ i.val < n

theorem id_of_firstAvailable {table : MmioTable} {i : Fin maxMmioRegionCount}
    (h : table.firstAvailable = some i) : (table.slot i).id = -1 := by
  have hfound := List.find?_some h
  exact of_decide_eq_true hfound

theorem takenTo_mmioInit (table : MmioTable) : TakenTo (mmioInit table) 0 := by
  intro i
  rw [slot_mmioInit]
  exact iff_of_false (fun h => h rfl) (Nat.not_lt_zero _)

theorem TakenTo.firstAvailable {table : MmioTable} {n : Nat} (h : table.TakenTo n)
    (hn : n < maxMmioRegionCount) : table.firstAvailable = some ⟨n, hn⟩ := by
  have hfree : (table.slot ⟨n, hn⟩).id = -1 :=
    Decidable.not_not.mp fun hid => Nat.lt_irrefl n ((h ⟨n, hn⟩).mp hid)
  refine List.find?_eq_some_iff_getElem.mpr ⟨decide_eq_true hfree, n, ?_, ?_, fun j hj => ?_⟩
  · rwa [List.length_finRange]
  · rw [List.getElem_finRange]
    rfl
  · rw [List.getElem_finRange]
    have htaken : ¬ table[j].id = -1 := (h ⟨j, Nat.lt_trans hj hn⟩).mpr hj
    simpa using htaken

/-- An available slot that comes first comes right after those that are taken. -/
theorem TakenTo.eq_of_firstAvailable {table : MmioTable} {n : Nat} (h : table.TakenTo n)
    {i : Fin maxMmioRegionCount} (hi : table.firstAvailable = some i) : i.val = n := by
  have hle : n ≤ i.val :=
    Nat.le_of_not_lt fun hlt => (h i).mpr hlt (id_of_firstAvailable hi)
  rw [h.firstAvailable (Nat.lt_of_le_of_lt hle i.isLt)] at hi
  exact congrArg Fin.val (Option.some.inj hi).symm

theorem TakenTo.setSlot {table : MmioTable} {n : Nat} (h : table.TakenTo n)
    (hn : n < maxMmioRegionCount) {region : MmioRegion} (hid : region.id ≠ -1) :
    (table.setSlot ⟨n, hn⟩ region).TakenTo (n + 1) := by
  intro i
  by_cases hi : i = ⟨n, hn⟩
  · rw [hi, slot_setSlot]
    exact iff_of_true hid (Nat.lt_succ_self n)
  · have hne : i.val ≠ n := fun he => hi (Fin.ext he)
    rw [slot_setSlot_ne table region hi, h i]
    omega

/-- A table whose slots are all taken has none available. -/
theorem TakenTo.full {table : MmioTable} (h : table.TakenTo maxMmioRegionCount) :
    table.firstAvailable = none :=
  firstAvailable_eq_none_iff.mpr fun i => (h i).mpr i.isLt

end MmioTable

/-- The call of `memory_alloc` that a registration makes. -/
def MmioRegion.allocCall (region : MmioRegion) (host : HostAnswers) : AllocCall :=
  { physAddr := region.baseAddress, size := region.highAddress - region.baseAddress,
    type := memoryMmio, host }

/-- A registration that the map accepts takes the first slot that is left. -/
theorem MmioTable.TakenTo.step_register {s : MmioSession} {n : Nat} (h : s.table.TakenTo n)
    (region : MmioRegion) (host : HostAnswers) (hn : n < maxMmioRegionCount) {vm' : Vm}
    (hmap : memoryAlloc s.vm region.baseAddress (region.highAddress - region.baseAddress)
      memoryMmio host = (vm', true)) :
    ∃ s', s.step (.register region host) = .ok s' ∧ s'.vm = vm' ∧ s'.table.TakenTo (n + 1) := by
  have hregister : mmioRegister s.vm s.table region host =
      (vm', s.table.setSlot ⟨n, hn⟩ { region with id := Int32.ofNat n },
        { region with id := Int32.ofNat n }, Int32.ofNat n) := by
    unfold mmioRegister
    rw [hmap, h.firstAvailable hn]
    rfl
  refine ⟨_, by rw [MmioSession.step, hregister], rfl, ?_⟩
  exact h.setSlot hn (MmioSession.id_ne ⟨n, hn⟩)

/-- **Registrations take the slots in order.**  From a table whose first `n` slots are
taken, a run of registrations that the map accepts, no more than there are slots left,
takes the slots behind them. -/
theorem MmioTable.TakenTo.run_registers {s : MmioSession} {n : Nat} (h : s.table.TakenTo n)
    (regions : List (MmioRegion × HostAnswers))
    (hlen : n + regions.length ≤ maxMmioRegionCount)
    (hmap : Runs.EachStep Vm.alloc
      (fun vm c => (memoryAlloc vm c.physAddr c.size c.type c.host).2 = true) s.vm
      (regions.map fun r => r.1.allocCall r.2)) :
    ∃ s', Runs.run MmioSession.step s (regions.map fun r => .register r.1 r.2) = .ok s' ∧
      Runs.run Vm.alloc s.vm (regions.map fun r => r.1.allocCall r.2) = .ok s'.vm ∧
      s'.table.TakenTo (n + regions.length) := by
  induction regions generalizing s n with
  | nil => exact ⟨s, rfl, rfl, h⟩
  | cons r regions ih =>
      obtain ⟨haccepted, hrest⟩ := hmap
      rw [List.length_cons] at hlen
      obtain ⟨s₁, hstep, hvm, h₁⟩ := h.step_register r.1 r.2 (by omega)
        (Prod.ext rfl haccepted)
      have halloc₁ : s.vm.alloc (r.1.allocCall r.2) = .ok s₁.vm := congrArg Except.ok hvm.symm
      obtain ⟨s', hrun, halloc, htaken⟩ := ih h₁ (by omega) (hrest s₁.vm halloc₁)
      refine ⟨s', (Runs.run_cons_ok hstep).trans hrun, (Runs.run_cons_ok halloc₁).trans halloc, ?_⟩
      rwa [List.length_cons, Nat.add_comm regions.length 1, ← Nat.add_assoc]

/-- A registration that finds no slot leaves the map with the range. -/
theorem mmioRegister_full {vm vm' : Vm} {table : MmioTable} (hfull : table.firstAvailable = none)
    {region : MmioRegion} {host : HostAnswers}
    (h : memoryAlloc vm region.baseAddress (region.highAddress - region.baseAddress) memoryMmio
      host = (vm', true)) : mmioRegister vm table region host = (vm', table, region, -1) := by
  unfold mmioRegister
  rw [h, hfull]

/-- **When a failed registration is undone.**  For every map, every table and every
region: if `mmio_register` returns -1 then map and table are as before, if and only if the
table has an available slot, or the range gets no entry in the map. -/
theorem mmio_register_undone_iff (vm : Vm) (table : MmioTable) (region : MmioRegion)
    (host : HostAnswers) :
    RegisterUndone vm table region host ↔
      (∃ i : Fin maxMmioRegionCount, (table.slot i).id = -1) ∨ ¬ region.Reserves vm host := by
  unfold RegisterUndone mmioRegister
  rw [memoryAlloc_mmio]
  by_cases halloc : checkAddrAvailable vm region.baseAddress
      (region.highAddress - region.baseAddress) = true ∧ host.entry = true
  · rw [if_pos halloc]
    cases hfirst : table.firstAvailable with
    | some i =>
        refine iff_of_true (fun hid => absurd hid (MmioSession.id_ne i)) (Or.inl ⟨i, ?_⟩)
        exact MmioTable.id_of_firstAvailable hfirst
    | none =>
        have hfull := MmioTable.firstAvailable_eq_none_iff.mp hfirst
        rw [or_iff_right fun ⟨i, hi⟩ => hfull i hi]
        by_cases hn : host.node = true
        -- the map has kept the range
        · refine iff_of_false (fun h => ?_) fun h => h ⟨halloc.1, halloc.2, hn⟩
          have hlist := congrArg (fun vm => vm.memoryEntries.length) (h rfl).1
          simp [hn] at hlist
        · refine iff_of_true (fun _ => ⟨?_, rfl⟩) fun h => hn h.2.2
          rw [if_neg hn]
  · rw [if_neg halloc]
    exact iff_of_true (fun _ => ⟨rfl, rfl⟩) (Or.inr fun h => halloc ⟨h.1, h.2.1⟩)

/-- As many pages from address 0 on as the table has slots. -/
def firstPages : List (MmioRegion × HostAnswers) :=
  (List.range 64).map fun i =>
    (⟨0, 0x1000 * UInt64.ofNat i, 0x1000 * UInt64.ofNat (i + 1), some 0x401000, none, 0⟩,
      ⟨true, 0, true, true⟩)

/-- After `mmio_init` and 64 registrations, one page each, the next one returns -1 and
leaves its page in the map, where neither `memory_alloc` nor `mmio_register` can have it
any more. -/
theorem mmio_register_leaves_range :
    ∃ s, Runs.run MmioSession.step (MmioSession.start Vm.new MmioTable.zero)
        ((List.range 64).map fun i => .register
          ⟨0, 0x1000 * UInt64.ofNat i, 0x1000 * UInt64.ofNat (i + 1), some 0x401000, none, 0⟩
          ⟨true, 0, true, true⟩) = .ok s ∧
      (mmioRegister s.vm s.table ⟨0, 0x40000, 0x41000, some 0x401000, none, 0⟩
        ⟨true, 0, true, true⟩).2.2.2 = -1 ∧
      checkAddrAvailable s.vm 0x40000 0x1000 = true ∧
      checkAddrAvailable (mmioRegister s.vm s.table ⟨0, 0x40000, 0x41000, some 0x401000, none, 0⟩
        ⟨true, 0, true, true⟩).1 0x40000 0x1000 = false ∧
      ¬ RegisterUndone s.vm s.table ⟨0, 0x40000, 0x41000, some 0x401000, none, 0⟩
        ⟨true, 0, true, true⟩ := by
  obtain ⟨s, hrun, hvm, htaken⟩ := (MmioTable.takenTo_mmioInit MmioTable.zero).run_registers
    (s := MmioSession.start Vm.new MmioTable.zero) firstPages
    (Nat.le_of_eq (by rw [firstPages, List.length_map, List.length_range]; rfl))
    (by decide +kernel)
  have hbefore : checkAddrAvailable s.vm 0x40000 0x1000 = true := by
    have hpages : okAnd (Runs.run Vm.alloc Vm.new (firstPages.map fun r => r.1.allocCall r.2))
        (fun vm => checkAddrAvailable vm 0x40000 0x1000) = true := by
      decide +kernel
    rwa [show Runs.run Vm.alloc Vm.new _ = _ from hvm] at hpages
  have hfails : mmioRegister s.vm s.table ⟨0, 0x40000, 0x41000, some 0x401000, none, 0⟩
      ⟨true, 0, true, true⟩ = (_, s.table, _, -1) :=
    mmioRegister_full htaken.full ((memoryAlloc_mmio s.vm 0x40000 0x1000 _).trans
      (if_pos ⟨hbefore, rfl⟩))
  have hafter : checkAddrAvailable (mmioRegister s.vm s.table
      ⟨0, 0x40000, 0x41000, some 0x401000, none, 0⟩ ⟨true, 0, true, true⟩).1 0x40000 0x1000 =
        false := by
    rw [hfails, checkAddrAvailable, if_pos rfl, List.all_append]
    exact Bool.and_eq_false_imp.mpr fun _ => by decide
  rw [firstPages, List.map_map] at hrun
  refine ⟨s, hrun, congrArg (·.2.2.2) hfails, hbefore, hafter, fun h => ?_⟩
  rw [(h (congrArg (·.2.2.2) hfails)).1, hbefore] at hafter
  cases hafter

end BlackHV
