import BlackHV.MmioRanges

/-! # Registering and unregistering, again and again

`mmio_unregister` has no VM: it gives the slot of the table back, and not the range in the
VM's map, which nothing takes out of the map again.  So a round of the two calls leaves the
table with the same available slots, and the map with one entry more.
-/
namespace BlackHV

/-- A registration, with what the host answers to `memory_alloc`. -/
structure MmioRound where
  region : MmioRegion
  host : HostAnswers

/-- What the map keeps of a registration: its entry, if there is a list node for it. -/
def MmioRound.kept (r : MmioRound) : List MemoryEntry :=
  if r.host.node then [r.region.entry] else []

/-- The map with the entry of a registration. -/
def Vm.keep (vm : Vm) (entries : List MemoryEntry) : Vm :=
  { vm with memoryEntries := vm.memoryEntries ++ entries }

/-- `mmio_register` where the map lets the range in. -/
theorem mmioRegister_available {vm : Vm} {r : MmioRound} (table : MmioTable)
    (hcheck : checkAddrAvailable vm r.region.baseAddress
      (r.region.highAddress - r.region.baseAddress) = true) (hentry : r.host.entry = true) :
    mmioRegister vm table r.region r.host = match table.firstAvailable with
      | some i => (vm.keep r.kept, table.setSlot i { r.region with id := Int32.ofNat i },
          { r.region with id := Int32.ofNat i }, Int32.ofNat i)
      | none => (vm.keep r.kept, table, r.region, -1) := by
  have hvm : ({ vm with memoryEntries := if r.host.node = true then
      vm.memoryEntries ++ [r.region.entry] else vm.memoryEntries } : Vm) = vm.keep r.kept := by
    unfold Vm.keep MmioRound.kept
    split
    · rfl
    · rw [List.append_nil]
  unfold mmioRegister
  rw [memoryAlloc_mmio, if_pos ⟨hcheck, hentry⟩, ← hvm]
  rfl

/-- `mmio_register` where it does not, or where there is no block for the entry. -/
theorem mmioRegister_refused {vm : Vm} {region : MmioRegion} {host : HostAnswers}
    (table : MmioTable) (h : ¬ (checkAddrAvailable vm region.baseAddress
      (region.highAddress - region.baseAddress) = true ∧ host.entry = true)) :
    mmioRegister vm table region host = (vm, table, region, -1) := by
  unfold mmioRegister
  rw [memoryAlloc_mmio, if_neg h]

namespace MmioMap

/-- `mmio_register`, and `mmio_unregister` with the id it returns. -/
def round (s : MmioMap) (r : MmioRound) : Except Fault MmioMap := do
  let (vm, table, _, id) := mmioRegister s.vm s.table r.region r.host
  let table ← mmioUnregister table id
  .ok { vm, table }

/-- `mmio_register` accepts the region. -/
def Accepts (s : MmioMap) (r : MmioRound) : Prop :=
  (mmioRegister s.vm s.table r.region r.host).2.2.2 ≠ -1

instance (s : MmioMap) (r : MmioRound) : Decidable (s.Accepts r) :=
  inferInstanceAs (Decidable (_ ≠ _))

/-- The range is refused: to `memory_alloc` whatever the type is, and to `mmio_register`. -/
structure Refuses (s : MmioMap) (physAddr size : UInt64) : Prop where
  alloc : ∀ type host, memoryAlloc s.vm physAddr size type host = (s.vm, false)
  register : ∀ (region : MmioRegion) host, region.baseAddress = physAddr →
    region.highAddress - region.baseAddress = size →
    mmioRegister s.vm s.table region host = (s.vm, s.table, region, -1)

/-- The same slots are available. -/
def SameIds (s s' : MmioMap) : Prop :=
  ∀ i : Fin maxMmioRegionCount, (s'.table.slot i).id = (s.table.slot i).id

variable {s s' : MmioMap} {r : MmioRound}

/-- A round that is accepted gives its slot back, and its entry stays in the map. -/
theorem round_accepted (h : s.Accepts r) :
    ∃ s', s.round r = .ok s' ∧ s.SameIds s' ∧ s'.vm = s.vm.keep r.kept := by
  unfold Accepts at h
  unfold round
  by_cases hmap : checkAddrAvailable s.vm r.region.baseAddress
      (r.region.highAddress - r.region.baseAddress) = true ∧ r.host.entry = true
  · have he := mmioRegister_available s.table hmap.1 hmap.2
    cases hi : s.table.firstAvailable with
    | none =>
        rw [he, hi] at h
        exact absurd rfl h
    | some i =>
        rw [hi] at he
        rw [he]
        refine ⟨_, by dsimp only; rw [MmioSession.unregister_eq, ok_bind], fun j => ?_, rfl⟩
        by_cases hj : j = i
        · rw [hj, MmioTable.slot_setSlot, MmioTable.id_of_firstAvailable hi]
        · rw [MmioTable.slot_setSlot_ne _ _ hj, MmioTable.slot_setSlot_ne _ _ hj]
  · rw [mmioRegister_refused s.table hmap] at h
    exact absurd rfl h

/-- Rounds that are all accepted. -/
theorem run_round {rounds : List MmioRound} (h : Runs.EachStep round Accepts s rounds) :
    ∃ s', Runs.run round s rounds = .ok s' ∧ s.SameIds s' ∧
      s'.vm = s.vm.keep (rounds.flatMap MmioRound.kept) := by
  induction rounds generalizing s with
  | nil => exact ⟨s, rfl, fun _ => rfl, by rw [List.flatMap_nil, Vm.keep, List.append_nil]⟩
  | cons r rounds ih =>
      obtain ⟨s₁, hround, hids, hvm⟩ := round_accepted h.1
      obtain ⟨s', hrun, hids', hvm'⟩ := ih (h.2 s₁ hround)
      refine ⟨s', (Runs.run_cons_ok hround).trans hrun, fun i => (hids' i).trans (hids i), ?_⟩
      rw [hvm', hvm, List.flatMap_cons, Vm.keep, Vm.keep, Vm.keep, List.append_assoc]

/-- The map as more entries leave it. -/
theorem checkAddrAvailable_keep (vm : Vm) (entries : List MemoryEntry) (physAddr size : UInt64) :
    checkAddrAvailable (vm.keep entries) physAddr size = true ↔
      checkAddrAvailable vm physAddr size = true ∧
        ∀ e ∈ entries, e.conflicts physAddr size = false := by
  unfold checkAddrAvailable Vm.keep
  rw [List.all_append, Bool.and_eq_true, List.all_eq_true (l := entries)]
  refine and_congr_right fun _ => forall_congr' fun e => imp_congr_right fun _ => ?_
  rw [Bool.not_eq_true']

/-- No call takes an entry out of the map. -/
theorem mem_of_step {c : MmioMapCall} (h : s.step c = .ok s') {e : MemoryEntry}
    (he : e ∈ s.vm.memoryEntries) : e ∈ s'.vm.memoryEntries := by
  cases c with
  | alloc c =>
      cases h
      rw [Vm.memoryEntries_alloc s.vm c]
      exact List.mem_append_left _ he
  | init =>
      cases h
      exact he
  | register region host =>
      have hkeep : e ∈ (mmioRegister s.vm s.table region host).1.memoryEntries := by
        by_cases hmap : checkAddrAvailable s.vm region.baseAddress
            (region.highAddress - region.baseAddress) = true ∧ host.entry = true
        · rw [mmioRegister_available (r := ⟨region, host⟩) s.table hmap.1 hmap.2]
          split <;> exact List.mem_append_left _ he
        · rwa [mmioRegister_refused s.table hmap]
      cases h
      exact hkeep
  | unregister id =>
      obtain ⟨table, -, hret⟩ := bind_eq_ok.mp h
      cases hret
      exact he

/-- A range that conflicts with an entry is refused. -/
theorem refuses_of_mem {e : MemoryEntry} (he : e ∈ s.vm.memoryEntries) {physAddr size : UInt64}
    (hc : e.conflicts physAddr size = true) : s.Refuses physAddr size := by
  have hcheck : ¬ checkAddrAvailable s.vm physAddr size = true := fun hc' => by
    have := List.all_eq_true.mp hc' e he
    rw [hc] at this
    cases this
  refine ⟨fun type host => ?_, fun region host hbase hsize => ?_⟩
  · exact Vm.memoryAlloc_taken (c := ⟨physAddr, size, type, host⟩) hcheck
  · subst hbase hsize
    exact mmioRegister_refused s.table fun hmap => hcheck hmap.1

end MmioMap

/-- A region that has a range conflicts with its own entry. -/
theorem MmioRegion.HasRange.conflicts {region : MmioRegion} (h : region.HasRange) :
    region.entry.conflicts region.baseAddress (region.highAddress - region.baseAddress) = true := by
  have hend : region.baseAddress + (region.highAddress - region.baseAddress) =
      region.highAddress := by
    rw [UInt64.add_comm, UInt64.sub_add_cancel]
  unfold MemoryEntry.conflicts
  rw [Bool.or_eq_true]
  refine Or.inl ?_
  rw [Bool.and_eq_true, decide_eq_true_eq, decide_eq_true_eq]
  refine ⟨UInt64.le_refl _, ?_⟩
  show region.baseAddress < region.baseAddress + (region.highAddress - region.baseAddress)
  rwa [hend]

/-- **What rounds of `mmio_register` and `mmio_unregister` leave.**  Whatever the map and
the table are, and for any number of rounds that are accepted: the same slots are available
afterwards, and the map has the entries of the rounds behind those it had.  A range is
available then if and only if it was before and conflicts with none of these entries.  A
range that conflicts with one of them, such as that of a region of the rounds that has a
range, is refused from then on, whatever calls follow. -/
theorem mmio_rounds_keep (s : MmioMap) (rounds : List MmioRound)
    (h : Runs.EachStep MmioMap.round MmioMap.Accepts s rounds) :
    ∃ s', Runs.run MmioMap.round s rounds = .ok s' ∧ s.SameIds s' ∧
      s'.vm = s.vm.keep (rounds.flatMap MmioRound.kept) ∧
      (∀ physAddr size, checkAddrAvailable s'.vm physAddr size = true ↔
        checkAddrAvailable s.vm physAddr size = true ∧
          ∀ e ∈ rounds.flatMap MmioRound.kept, e.conflicts physAddr size = false) ∧
      (∀ later last, Runs.run MmioMap.step s' later = .ok last →
        ∀ e ∈ rounds.flatMap MmioRound.kept, ∀ physAddr size,
          e.conflicts physAddr size = true → last.Refuses physAddr size) ∧
      ∀ r ∈ rounds, r.region.HasRange → r.region.entry.conflicts r.region.baseAddress
        (r.region.highAddress - r.region.baseAddress) = true := by
  obtain ⟨s', hrun, hids, hvm⟩ := MmioMap.run_round h
  refine ⟨s', hrun, hids, hvm, fun physAddr size => ?_,
    fun later last hlater e he physAddr size hc => ?_,
    fun r _ hr => hr.conflicts⟩
  · rw [hvm]
    exact MmioMap.checkAddrAvailable_keep ..
  · have hmem : e ∈ s'.vm.memoryEntries := by
      rw [hvm]
      exact List.mem_append_right _ he
    have hlast : e ∈ last.vm.memoryEntries :=
      Runs.run_keeps (fun _ _ _ hs hstep => MmioMap.mem_of_step hstep hs) hmem hlater
    exact MmioMap.refuses_of_mem hlast hc

/-- A page that is registered and unregistered. -/
theorem mmio_rounds_keep_page :
    ∃ s, Runs.run MmioMap.step MmioMap.start [.init] = .ok s ∧
      ∃ s', Runs.run MmioMap.round s
          [⟨⟨0, 0xC0000000, 0xC0001000, some 0x401000, none, 0⟩, ⟨true, 0, true, true⟩⟩] = .ok s' ∧
        s.SameIds s' ∧ s'.Refuses 0xC0000000 0x1000 := by
  refine ⟨_, rfl, ?_⟩
  obtain ⟨s', hrun, hids, -, -, hrefuses, hown⟩ := mmio_rounds_keep
    ⟨Vm.new, mmioInit MmioTable.zero⟩
    [⟨⟨0, 0xC0000000, 0xC0001000, some 0x401000, none, 0⟩, ⟨true, 0, true, true⟩⟩]
    ⟨by decide +kernel, fun _ _ => trivial⟩
  exact ⟨s', hrun, hids, hrefuses [] s' rfl _ List.mem_cons_self _ _ (by decide)⟩

/-- After `mmio_init`, a page is registered with id 0 and unregistered: the map has one entry
more than before, the page was available and is not any more, and to register it again
fails. -/
theorem mmio_unregister_keeps_range :
    let page : MmioRegion := ⟨0, 0xC0000000, 0xC0001000, some 0x401000, none, 0⟩
    ∃ s₀ s₁ s₂, Runs.run MmioMap.step MmioMap.start [.init] = .ok s₀ ∧
      s₀.step (.register page ⟨true, 0, true, true⟩) = .ok s₁ ∧
      (mmioRegister s₀.vm s₀.table page ⟨true, 0, true, true⟩).2.2.2 = 0 ∧
      s₁.step (.unregister ⟨0, by decide⟩) = .ok s₂ ∧
      s₂.vm.memoryEntries ≠ s₀.vm.memoryEntries ∧
      checkAddrAvailable s₀.vm 0xC0000000 0x1000 = true ∧
      checkAddrAvailable s₂.vm 0xC0000000 0x1000 = false ∧
      (mmioRegister s₂.vm s₂.table page ⟨true, 0, true, true⟩).2.2.2 = -1 :=
  ⟨_, _, _, rfl, rfl, by decide +kernel, rfl, by decide +kernel, by decide +kernel,
    by decide +kernel, by decide +kernel⟩

end BlackHV
