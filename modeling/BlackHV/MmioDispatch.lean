import BlackHV.Mmio
import BlackHV.Runs

/-! # Which writes reach a region that is no longer registered

A session is a run of `mmio_register` and `mmio_unregister` after `mmio_init`, with a
record of the regions that are registered: what the table is for.  The table agrees
with the record on the `id` fields, but a slot that has been given back keeps its range
and its handler, and `mmio_handle_write` looks at those only.
-/
namespace BlackHV

section FilterMap
variable {α β : Type} {f g : α → Option β}

/-- A filter that keeps at least what another one keeps leaves no shorter list. -/
theorem length_filterMap_le (hle : ∀ x, g x = none ∨ g x = f x) (l : List α) :
    (l.filterMap g).length ≤ (l.filterMap f).length := by
  rw [List.length_filterMap_eq_countP, List.length_filterMap_eq_countP]
  refine List.countP_mono_left fun x _ hg => ?_
  rcases hle x with hx | hx
  · rw [hx] at hg
    cases hg
  · rwa [← hx]

/-- It leaves the same list exactly when the two agree on every element. -/
theorem filterMap_eq_iff (hle : ∀ x, g x = none ∨ g x = f x) (l : List α) :
    l.filterMap f = l.filterMap g ↔ ∀ x ∈ l, f x = g x := by
  induction l with
  | nil => exact ⟨fun _ _ hx => absurd hx List.not_mem_nil, fun _ => rfl⟩
  | cons x l ih =>
      have hlen := length_filterMap_le hle l
      refine Iff.trans ⟨fun h => ?_, fun h => ?_⟩ List.forall_mem_cons.symm
      · rcases hle x with hx | hx
        · cases hf : f x with
          | none =>
              rw [List.filterMap_cons_none hf, List.filterMap_cons_none hx] at h
              exact ⟨hx.symm, ih.mp h⟩
          | some b =>
              -- one element more on the left, and no fewer from the rest
              rw [List.filterMap_cons_some hf, List.filterMap_cons_none hx] at h
              have := congrArg List.length h
              rw [List.length_cons] at this
              omega
        · refine ⟨hx.symm, ih.mp ?_⟩
          rw [List.filterMap_cons, List.filterMap_cons, hx] at h
          split at h
          · exact h
          · exact (List.cons.inj h).2
      · rw [List.filterMap_cons, List.filterMap_cons, h.1, ih.mpr h.2]

end FilterMap

/-- A call on the table. -/
inductive MmioEvent where
  /-- `mmio_register`, with what the host answers to `memory_alloc`. -/
  | register (region : MmioRegion) (host : HostAnswers)
  /-- `mmio_unregister`. -/
  | unregister (id : Fin maxMmioRegionCount)

/-- The VM's map and the table, with the region that is registered under each id. -/
structure MmioSession where
  vm : Vm
  table : MmioTable
  registered : Fin maxMmioRegionCount → Option MmioRegion

namespace MmioSession

/-- The session after `mmio_init`. -/
def start (vm : Vm) (table : MmioTable) : MmioSession :=
  { vm, table := mmioInit table, registered := fun _ => none }

/-- One call.  A region is registered from the call of `mmio_register` that returns its
id to the call of `mmio_unregister` with that id. -/
def step (s : MmioSession) : MmioEvent → Except Fault MmioSession
  | .register region host =>
      let (vm, table, region, id) := mmioRegister s.vm s.table region host
      .ok { vm, table
            registered := fun i => if Int32.ofNat i = id then some region else s.registered i }
  | .unregister id => do
      let table ← mmioUnregister s.table (Int32.ofNat id)
      .ok { s with
        table, registered := fun i => if i = id then none else s.registered i }

/-- The calls a write should make: one for each registered region that has a handler
and the address in its range. -/
def expected (s : MmioSession) (address : UInt64) (data : Vector UInt8 8) (len : UInt32) :
    List MmioCall :=
  (List.finRange maxMmioRegionCount).filterMap fun i =>
    (s.registered i).bind (·.writeCall address data len)

/-- No slot that is available has kept a handler and a range with the address. -/
def NoneLeft (s : MmioSession) (address : UInt64) : Prop :=
  ∀ i : Fin maxMmioRegionCount, (s.table.slot i).id = -1 → (s.table.slot i).writeHandler ≠ none →
    ¬ ((s.table.slot i).baseAddress ≤ address ∧ address < (s.table.slot i).highAddress)

/-- The table and the record agree: a registered region is in its slot, and the other
slots are available. -/
def Agrees (s : MmioSession) : Prop :=
  ∀ i : Fin maxMmioRegionCount, match s.registered i with
    | some region => s.table.slot i = region ∧ region.id ≠ -1
    | none => (s.table.slot i).id = -1

variable {s : MmioSession}

theorem agrees_start (vm : Vm) (table : MmioTable) : (start vm table).Agrees := by
  intro i
  show ((mmioInit table).slot i).id = -1
  rw [MmioTable.slot_mmioInit]

/-- The ids of the table, as the source counts them: they are not -1, in bounds, and
all different. -/
theorem id_ne (i : Fin maxMmioRegionCount) : Int32.ofNat i ≠ -1 := by
  revert i
  decide

theorem id_bounds (i : Fin maxMmioRegionCount) :
    Int32.ofNat i < Int32.ofNat maxMmioRegionCount ∧ 0 ≤ (Int32.ofNat i).toInt ∧
      (Int32.ofNat i).toInt.toNat = i.val := by
  revert i
  decide

theorem id_inj {i j : Fin maxMmioRegionCount} (h : Int32.ofNat i = Int32.ofNat j) : i = j := by
  obtain ⟨-, -, hi⟩ := id_bounds i
  obtain ⟨-, -, hj⟩ := id_bounds j
  rw [h] at hi
  exact Fin.ext (hi.symm.trans hj)

/-- `mmio_register` either leaves the table as it is and returns -1, or copies the region
into the first available slot. -/
theorem register_cases (vm : Vm) (table : MmioTable) (region : MmioRegion) (host : HostAnswers) :
    (∃ vm', mmioRegister vm table region host = (vm', table, region, -1)) ∨
    ∃ vm', ∃ i : Fin maxMmioRegionCount, table.firstAvailable = some i ∧
      mmioRegister vm table region host =
        (vm', table.setSlot i { region with id := Int32.ofNat i },
          { region with id := Int32.ofNat i }, Int32.ofNat i) := by
  unfold mmioRegister
  split
  · exact Or.inl ⟨_, rfl⟩
  · split
    · rename_i i hi
      exact Or.inr ⟨_, i, hi, rfl⟩
    · exact Or.inl ⟨_, rfl⟩

/-- `mmio_unregister` with an id of the table clears that id only. -/
theorem unregister_eq (table : MmioTable) (i : Fin maxMmioRegionCount) :
    mmioUnregister table (Int32.ofNat i) =
      .ok (table.setSlot i { table.slot i with id := -1 }) := by
  obtain ⟨hlt, hpos, heq⟩ := id_bounds i
  rw [mmioUnregister, if_pos hlt, dif_pos ⟨hpos, by rw [heq]; exact i.isLt⟩]
  simp only [heq]
  rfl

theorem step_agrees (h : s.Agrees) (e : MmioEvent) : ∃ s', s.step e = .ok s' ∧ s'.Agrees := by
  cases e with
  | register region host =>
      rcases register_cases s.vm s.table region host with ⟨vm', he⟩ | ⟨vm', i, -, he⟩
      · refine ⟨{ s with vm := vm' }, ?_, h⟩
        simp only [step, he, id_ne, if_false]
      · refine ⟨_, by rw [step, he], fun j => ?_⟩
        -- slot `i` has the region now; the other slots are as before
        by_cases hj : j = i
        · subst hj
          simp only [if_true]
          exact ⟨by simp, id_ne j⟩
        · have hne : Int32.ofNat j ≠ Int32.ofNat i := fun heq => hj (id_inj heq)
          have hj' := h j
          simp only [if_neg hne, MmioTable.slot_setSlot_ne s.table _ hj]
          exact hj'
  | unregister i =>
      refine ⟨_, by rw [step, unregister_eq, ok_bind], fun j => ?_⟩
      -- slot `i` is available now; the other slots are as before
      by_cases hj : j = i
      · subst hj
        simp
      · have hj' := h j
        simp only [if_neg hj, MmioTable.slot_setSlot_ne s.table _ hj]
        exact hj'

/-- A slot is called unless it has no handler or the address is out of its range. -/
theorem writeCall_eq_none_iff (region : MmioRegion) (address : UInt64) (data : Vector UInt8 8)
    (len : UInt32) : region.writeCall address data len = none ↔
      (region.writeHandler ≠ none →
        ¬ (region.baseAddress ≤ address ∧ address < region.highAddress)) := by
  unfold MmioRegion.writeCall
  split
  · rename_i hin
    rw [Option.map_eq_none_iff]
    exact ⟨fun h hne => absurd h hne, fun h => Classical.byContradiction fun hne => h hne hin⟩
  · rename_i hout
    exact ⟨fun _ _ => hout, fun _ => rfl⟩

/-- Where the table and the record agree, the dispatch is the expected one exactly when
no available slot would be called. -/
theorem dispatch_iff (h : s.Agrees) (address : UInt64) (data : Vector UInt8 8) (len : UInt32) :
    mmioHandleWrite s.table address data len = s.expected address data len ↔
      s.NoneLeft address := by
  have hslot : ∀ i : Fin maxMmioRegionCount,
      (∃ region, s.registered i = some region ∧ s.table.slot i = region ∧ region.id ≠ -1) ∨
        (s.registered i = none ∧ (s.table.slot i).id = -1) := by
    intro i
    have hi := h i
    cases hr : s.registered i with
    | none =>
        rw [hr] at hi
        exact Or.inr ⟨rfl, hi⟩
    | some region =>
        rw [hr] at hi
        exact Or.inl ⟨region, rfl, hi⟩
  rw [mmioHandleWrite_slots, expected, filterMap_eq_iff]
  · constructor
    · intro heq i hfree
      rcases hslot i with ⟨region, -, htable, hne⟩ | ⟨hr, -⟩
      · exact absurd (htable ▸ hfree) hne
      · have hnone := heq i (List.mem_finRange i)
        rw [hr, Option.bind_none] at hnone
        exact (writeCall_eq_none_iff _ _ _ _).mp hnone
    · intro hleft i _
      rcases hslot i with ⟨region, hr, htable, -⟩ | ⟨hr, hfree⟩
      · rw [hr, Option.bind_some, htable]
      · rw [hr, Option.bind_none]
        exact (writeCall_eq_none_iff _ _ _ _).mpr (hleft i hfree)
  · intro i
    rcases hslot i with ⟨region, hr, htable, -⟩ | ⟨hr, -⟩
    · rw [hr, Option.bind_some, htable]
      exact Or.inr rfl
    · rw [hr]
      exact Or.inl rfl

end MmioSession

/-- **A write reaches exactly the registered regions as long as no region that was given
back has the address.**  After `mmio_init` and any run of `mmio_register` and
`mmio_unregister`, the calls that `mmio_handle_write` makes for an address are one for
each registered region that has a write handler and the address in its range, if and
only if no available slot has kept a handler and a range with the address. -/
theorem mmio_dispatch_iff (vm : Vm) (table : MmioTable) (events : List MmioEvent) :
    ∃ s, Runs.run MmioSession.step (MmioSession.start vm table) events = .ok s ∧
      ∀ address data len,
        mmioHandleWrite s.table address data len = s.expected address data len ↔
          s.NoneLeft address := by
  have hevents := @Runs.eachStep_of_forall _ _ _ MmioSession.step (fun _ => True)
    (MmioSession.start vm table) events fun _ _ => trivial
  obtain ⟨s, hs, hagrees⟩ := Runs.run_of_eachStep
    (fun _ e h _ => MmioSession.step_agrees h e) (MmioSession.agrees_start vm table) hevents
  exact ⟨s, hs, MmioSession.dispatch_iff hagrees⟩

/-- The handler of a region that was registered and given back is still called. -/
theorem mmio_unregistered_called :
    ∃ s, Runs.run MmioSession.step (MmioSession.start Vm.new MmioTable.zero)
        [.register ⟨0, 0xC0000000, 0xC1000000, some 0x401000, none, 0⟩ ⟨true, 0, true, true⟩,
          .unregister ⟨0, by decide⟩] = .ok s ∧
      s.expected 0xC0000000 (Vector.replicate 8 0) 4 = [] ∧
      mmioHandleWrite s.table 0xC0000000 (Vector.replicate 8 0) 4 =
        [⟨0x401000, ⟨-1, 0xC0000000, 0xC1000000, some 0x401000, none, 0⟩, 0xC0000000,
          Vector.replicate 8 0, 4, 0⟩] :=
  ⟨_, rfl, by decide +kernel, by decide +kernel⟩

end BlackHV
