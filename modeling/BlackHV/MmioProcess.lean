import BlackHV.MmioRegister

/-! # Several VMs, one MMIO table

`mmio_register` takes a VM, and checks the range against that VM's map.  The table has no
VM in it, and neither `mmio_handle_write` nor its caller `vm_run` says which VM has exited.
So a dispatch is by address alone: it reaches the registered regions that have the address,
whichever VM they were registered with.
-/
namespace BlackHV

/-- `kvm_run->mmio`. -/
structure MmioExit where
  physAddr : UInt64
  data : Vector UInt8 8
  len : UInt32
  isWrite : Bool

/-- What `vm_run` does with an exit of reason `KVM_EXIT_MMIO`: the calls it makes. -/
def handleExitMmio (table : MmioTable) (exit : MmioExit) : List MmioCall :=
  if exit.isWrite then mmioHandleWrite table exit.physAddr exit.data exit.len else []

/-- A process with VMs, by their names, and the regions that have been registered, each
with its VM, in order. -/
structure MmioProcess (Name : Type) where
  vms : Name → Vm
  table : MmioTable
  registered : List (Name × MmioRegion)

/-- A registration with one of the VMs, or an exit of one of them. -/
inductive MmioProcessEvent (Name : Type) where
  | register (vm : Name) (region : MmioRegion) (host : HostAnswers)
  | exit (vm : Name) (exit : MmioExit)

namespace MmioProcess

variable {Name : Type}

/-- The process after `mmio_init`. -/
def start (vms : Name → Vm) : MmioProcess Name :=
  { vms, table := mmioInit MmioTable.zero, registered := [] }

/-- One event, and the calls of handlers it leads to. -/
def step [DecidableEq Name] (s : MmioProcess Name) :
    MmioProcessEvent Name → Except Fault (MmioProcess Name × List MmioCall)
  | .register name region host =>
      let (vm, table, region, id) := mmioRegister (s.vms name) s.table region host
      .ok ({ vms := fun n => if n = name then vm else s.vms n
             table
             registered := if id = -1 then s.registered else s.registered ++ [(name, region)] }, [])
  | .exit _ exit => .ok (s, handleExitMmio s.table exit)

/-- The calls that the dispatch of an exit makes for one registered region. -/
def callOf (exit : MmioExit) (registered : Name × MmioRegion) : Option MmioCall :=
  if exit.isWrite then registered.2.writeCall exit.physAddr exit.data exit.len else none

/-- The registered regions are in the first slots, in order; the others are available,
and have no handler. -/
structure Filled (s : MmioProcess Name) : Prop where
  table : ∃ free : List MmioRegion, s.table.toList = s.registered.map Prod.snd ++ free ∧
    ∀ region ∈ free, region.id = -1 ∧ region.writeHandler = none
  ids : ∀ r ∈ s.registered, r.2.id ≠ -1

end MmioProcess

namespace MmioTable
variable {table : MmioTable} {taken free : List MmioRegion}

theorem toList_eq (table : MmioTable) :
    table.toList = (List.finRange maxMmioRegionCount).map table.slot := by
  refine List.ext_getElem (by simp) fun i hi _ => ?_
  rw [Vector.getElem_toList, List.getElem_map, List.getElem_finRange]
  rfl

/-- The dispatch goes through the slots in order. -/
theorem mmioHandleWrite_eq (table : MmioTable) (address : UInt64) (data : Vector UInt8 8)
    (len : UInt32) : mmioHandleWrite table address data len =
      table.toList.filterMap (·.writeCall address data len) := by
  rw [toList_eq, List.filterMap_map]
  rfl

/-- The slots of a list of regions that are taken, and of available ones behind them. -/
theorem takenTo_of_toList (h : table.toList = taken ++ free)
    (htaken : ∀ region ∈ taken, region.id ≠ -1) (hfree : ∀ region ∈ free, region.id = -1) :
    table.TakenTo taken.length := by
  intro i
  have hget : (taken ++ free)[i.val]? = some (table.slot i) := by
    rw [← h, List.getElem?_eq_getElem (by simp), Vector.getElem_toList]
    rfl
  by_cases hi : i.val < taken.length
  · rw [List.getElem?_append_left hi] at hget
    exact iff_of_true (htaken _ (List.mem_of_getElem? hget)) hi
  · rw [List.getElem?_append_right (Nat.le_of_not_lt hi)] at hget
    exact iff_of_false (fun hid => hid (hfree _ (List.mem_of_getElem? hget))) hi

/-- Where the first slots are taken and the others are available, the first available one
comes right after those that are taken. -/
theorem firstAvailable_of_toList (h : table.toList = taken ++ free)
    (htaken : ∀ region ∈ taken, region.id ≠ -1) (hfree : ∀ region ∈ free, region.id = -1)
    {i : Fin maxMmioRegionCount} (hi : table.firstAvailable = some i) :
    i.val = taken.length ∧ free ≠ [] := by
  have hval := (takenTo_of_toList h htaken hfree).eq_of_firstAvailable hi
  refine ⟨hval, ?_⟩
  rintro rfl
  have hlen := congrArg List.length h
  rw [Vector.length_toList, List.append_nil] at hlen
  have hlt := i.isLt
  omega

end MmioTable

namespace MmioProcess

variable {Name : Type} {s : MmioProcess Name}

theorem filled_start (vms : Name → Vm) : (start vms).Filled where
  table := by
    refine ⟨(start vms).table.toList, rfl, fun region hregion => ?_⟩
    have hzero : (start vms).table = Vector.replicate maxMmioRegionCount
        { id := -1, baseAddress := 0, highAddress := 0, writeHandler := none, readHandler := none,
          data := 0 } := by
      simp [start, mmioInit, MmioTable.zero]
    rw [hzero, Vector.toList_replicate] at hregion
    rw [List.eq_of_mem_replicate hregion]
    exact ⟨rfl, rfl⟩
  ids := fun _ hr => absurd hr List.not_mem_nil

/-- An exit makes the calls of the registered regions, in the order of registration. -/
theorem Filled.calls (h : s.Filled) (exit : MmioExit) :
    handleExitMmio s.table exit = s.registered.filterMap (callOf exit) := by
  obtain ⟨⟨free, htable, hfree⟩, -⟩ := h
  cases hw : exit.isWrite with
  | false =>
      have hnone : s.registered.filterMap (callOf exit) = [] :=
        List.filterMap_eq_nil_iff.mpr fun r _ => by rw [callOf, hw]; rfl
      rw [hnone, handleExitMmio, hw]
      rfl
  | true =>
      have hnil : free.filterMap (·.writeCall exit.physAddr exit.data exit.len) = [] := by
        refine List.filterMap_eq_nil_iff.mpr fun region hregion => ?_
        exact (MmioSession.writeCall_eq_none_iff _ _ _ _).mpr fun hne =>
          absurd (hfree region hregion).2 hne
      rw [handleExitMmio, hw, if_pos rfl, MmioTable.mmioHandleWrite_eq, htable,
        List.filterMap_append, hnil, List.append_nil, List.filterMap_map]
      refine congrArg (List.filterMap · s.registered) (funext fun r => ?_)
      rw [callOf, hw]
      rfl

variable [DecidableEq Name]

/-- A registration fills the first available slot, or leaves the table as it is. -/
theorem Filled.step (h : s.Filled) (e : MmioProcessEvent Name) :
    ∃ s' calls, s.step e = .ok (s', calls) ∧ s'.Filled := by
  cases e with
  | exit name exit => exact ⟨s, _, rfl, h⟩
  | register name region host =>
      obtain ⟨⟨free, htable, hfree⟩, hids⟩ := h
      have htaken : ∀ region ∈ s.registered.map Prod.snd, region.id ≠ -1 := by
        intro region hregion
        obtain ⟨r, hr, rfl⟩ := List.mem_map.mp hregion
        exact hids r hr
      rcases MmioSession.register_cases (s.vms name) s.table region host with
        ⟨vm', he⟩ | ⟨vm', i, hfirst, he⟩
      · refine ⟨{ s with vms := fun n => if n = name then vm' else s.vms n }, [], ?_,
          ⟨free, htable, hfree⟩, hids⟩
        simp only [MmioProcess.step, he, if_true]
      · obtain ⟨hi, hne⟩ := MmioTable.firstAvailable_of_toList htable htaken
          (fun r hr => (hfree r hr).1) hfirst
        obtain ⟨slot, free', rfl⟩ := List.exists_cons_of_ne_nil hne
        refine ⟨{ vms := fun n => if n = name then vm' else s.vms n
                  table := s.table.setSlot i { region with id := Int32.ofNat i }
                  registered := s.registered ++ [(name, { region with id := Int32.ofNat i })] }, [],
          ?_, ⟨free', ?_, fun r hr => hfree r (List.mem_cons_of_mem _ hr)⟩, fun r hr => ?_⟩
        · simp only [MmioProcess.step, he, if_neg (MmioSession.id_ne i)]
        · have hset : ∀ r, (s.registered.map Prod.snd ++ slot :: free').set i.val r =
              s.registered.map Prod.snd ++ r :: free' := by
            intro r
            rw [hi, List.set_append_right _ _ (Nat.le_refl _), Nat.sub_self, List.set_cons_zero]
          rw [MmioTable.toList_setSlot, htable, hset, List.map_append, List.append_assoc]
          rfl
        · rcases List.mem_append.mp hr with hold | hnew
          · exact hids r hold
          · rw [List.mem_singleton.mp hnew]
            exact MmioSession.id_ne i

/-- What an exit does, in one state: it makes the calls of the registered regions that
have the address, in the order of registration; and only calls of the VM's own regions,
where no region registered with another VM has the address. -/
structure ByAddress (s : MmioProcess Name) : Prop where
  calls : ∀ exit, handleExitMmio s.table exit = s.registered.filterMap (callOf exit)
  own : ∀ (name : Name) (exit : MmioExit),
    (∀ r ∈ s.registered, r.1 ≠ name →
      ¬ (r.2.baseAddress ≤ exit.physAddr ∧ exit.physAddr < r.2.highAddress)) →
    ∀ call ∈ handleExitMmio s.table exit,
      ∃ r ∈ s.registered, r.1 = name ∧ callOf exit r = some call

omit [DecidableEq Name] in
theorem Filled.byAddress (h : s.Filled) : s.ByAddress where
  calls := h.calls
  own := by
    intro name exit hother call hcall
    rw [h.calls] at hcall
    obtain ⟨r, hr, hc⟩ := List.mem_filterMap.mp hcall
    refine ⟨r, hr, Classical.byContradiction fun hne => ?_, hc⟩
    unfold callOf at hc
    split at hc
    · rw [(MmioSession.writeCall_eq_none_iff _ _ _ _).mpr fun _ => hother r hr hne] at hc
      cases hc
    · cases hc

/-- One event, without the calls it leads to. -/
def next (s : MmioProcess Name) (e : MmioProcessEvent Name) :
    Except Fault (MmioProcess Name) := do
  let (s, _) ← s.step e
  .ok s

end MmioProcess

/-- **A write is dispatched by its address alone.**  For any VMs in one process, and any
interleaving of registrations with them and of their exits after `mmio_init`: an exit of
any of them makes the calls of all registered regions that have the address, and only of
its own where no region of another VM has it. -/
theorem mmio_dispatch_by_address {Name : Type} [DecidableEq Name] (vms : Name → Vm)
    (events : List (MmioProcessEvent Name)) :
    Runs.AlwaysAlong MmioProcess.next MmioProcess.ByAddress (MmioProcess.start vms) events := by
  refine Runs.alwaysAlong_of_invariant (I := MmioProcess.Filled) (E := fun _ => True) ?_
    (fun _ h => h.byAddress) (MmioProcess.filled_start vms) fun _ _ => trivial
  intro s e _ h
  obtain ⟨s', calls, he, h'⟩ := h.step e
  exact ⟨s', by rw [MmioProcess.next, he, ok_bind], h'⟩

/-- Two VMs, `true` and `false`, register the same range, each with its own map.  A write
of `false` calls the handler of `true` too. -/
theorem mmio_dispatch_other_vm :
    ∃ s : MmioProcess Bool, Runs.run MmioProcess.next (MmioProcess.start fun _ => Vm.new)
        [.register true ⟨0, 0xC0000000, 0xC1000000, some 0x401000, none, 0⟩ ⟨true, 0, true, true⟩,
          .register false ⟨0, 0xC0000000, 0xC1000000, some 0x402000, none, 0⟩
            ⟨true, 0, true, true⟩] = .ok s ∧
      s.registered =
        [(true, ⟨0, 0xC0000000, 0xC1000000, some 0x401000, none, 0⟩),
          (false, ⟨1, 0xC0000000, 0xC1000000, some 0x402000, none, 0⟩)] ∧
      s.step (.exit false ⟨0xC0000000, Vector.replicate 8 0, 4, true⟩) = .ok (s,
        [⟨0x401000, ⟨0, 0xC0000000, 0xC1000000, some 0x401000, none, 0⟩, 0xC0000000,
            Vector.replicate 8 0, 4, 0⟩,
          ⟨0x402000, ⟨1, 0xC0000000, 0xC1000000, some 0x402000, none, 0⟩, 0xC0000000,
            Vector.replicate 8 0, 4, 0⟩]) := by
  obtain ⟨s, hrun, hs⟩ := exists_of_okAnd (show okAnd
      (Runs.run MmioProcess.next (MmioProcess.start fun _ : Bool => Vm.new)
        [.register true ⟨0, 0xC0000000, 0xC1000000, some 0x401000, none, 0⟩ ⟨true, 0, true, true⟩,
          .register false ⟨0, 0xC0000000, 0xC1000000, some 0x402000, none, 0⟩
            ⟨true, 0, true, true⟩])
      (fun s => decide (s.registered =
          [(true, ⟨0, 0xC0000000, 0xC1000000, some 0x401000, none, 0⟩),
            (false, ⟨1, 0xC0000000, 0xC1000000, some 0x402000, none, 0⟩)] ∧
        handleExitMmio s.table ⟨0xC0000000, Vector.replicate 8 0, 4, true⟩ =
          [⟨0x401000, ⟨0, 0xC0000000, 0xC1000000, some 0x401000, none, 0⟩, 0xC0000000,
              Vector.replicate 8 0, 4, 0⟩,
            ⟨0x402000, ⟨1, 0xC0000000, 0xC1000000, some 0x402000, none, 0⟩, 0xC0000000,
              Vector.replicate 8 0, 4, 0⟩])) = true by decide +kernel)
  obtain ⟨hregistered, hcalls⟩ := of_decide_eq_true hs
  exact ⟨s, hrun, hregistered, congrArg (fun calls => Except.ok (s, calls)) hcalls⟩

end BlackHV
