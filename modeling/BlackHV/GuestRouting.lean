import BlackHV.GuestAccess
import BlackHV.MmioRanges

/-! # Where a guest's store goes

A store that KVM does not serve from a slot leaves the guest, and `vm_run` hands it to
`mmio_handle_write`, which asks the table of regions and not the map.  That a store to RAM
calls no handler, and one to a slot of the table is never lost in RAM, takes the map, the
table and KVM's slots together: a region has an entry in the map, the ranges of the map
are disjoint, and the slots are those of its RAM.
-/
namespace BlackHV

open Spans

namespace MmioMap

/-- The byte that a store of one byte has. -/
def firstByte (data : Vector UInt8 8) : UInt8 := data.get ⟨0, Nat.succ_pos 7⟩

/-- A store of the guest: a byte in the process's memory, or an exit that `vm_run` hands to
the table.  The calls are those of the write handlers. -/
def guestStore (s : MmioMap) (host : HostMemory) (addr : UInt64) (data : Vector UInt8 8)
    (len : UInt32) : Except Fault (HostMemory × List MmioCall) :=
  match s.vm.kvmRegionAt addr with
  | none => .ok (host, mmioHandleWrite s.table addr data len)
  | some r => do
      let host ← storeByte s.vm host (r.hostAddress addr) (firstByte data)
      .ok (host, [])

/-- The slot is called for a store at the address.  `mmio_handle_write` looks at the range and
the handler only: a slot whose region `mmio_unregister` has been called for still answers. -/
def Answers (s : MmioMap) (i : Fin maxMmioRegionCount) (addr : UInt64) : Prop :=
  (s.table.slot i).writeHandler ≠ none ∧ (s.table.slot i).HasRange ∧
    (s.table.slot i).span.Contains addr.toNat

/-- A store goes one way: to the RAM that has the address, and to no handler; to the one
slot that answers, and to no RAM; or nowhere. -/
structure Routed (s : MmioMap) : Prop where
  ram : ∀ e ∈ s.vm.memoryEntries, e.isRam = true → ∀ addr, e.span.Contains addr.toNat →
    (∀ i, ¬ s.Answers i addr) ∧ ∀ host data len, ∃ host',
      s.guestStore host addr data len = .ok (host', []) ∧
      s.vm.flat host' = ((s.vm.flat host).access (.store addr (firstByte data))).1 ∧
      ((s.vm.flat host).access (.store addr (firstByte data))).2 = .stored true
  handler : ∀ i addr, s.Answers i addr → ∀ host data len, ∃ call,
    s.guestStore host addr data len = .ok (host, [call]) ∧
      (s.table.slot i).writeCall addr data len = some call
  nowhere : ∀ addr, (∀ e ∈ s.vm.memoryEntries, e.isRam = true → ¬ e.span.Contains addr.toNat) →
    (∀ i, ¬ s.Answers i addr) → ∀ host data len,
      s.guestStore host addr data len = .ok (host, [])

/-- The invariant. -/
structure Wired (s : MmioMap) : Prop where
  placed : s.Placed
  backed : s.vm.Backed
  mirrored : s.vm.Mirrored

end MmioMap

/-- What is asked of a call: the host serves an allocation, KVM has a slot for it, and the
bounds of a region are in order. -/
def MmioMapCall.Served (limit : Nat) (s : MmioMap) : MmioMapCall → Prop
  | .alloc c => c.Served s.vm ∧ s.vm.KvmLimits limit c
  | .register region host =>
      host.entry = true ∧ host.node = true ∧ region.baseAddress ≤ region.highAddress
  | _ => True

/-! ## The invariant -/

namespace MmioMap
variable {s : MmioMap} {limit : Nat}

theorem wired_start : start.Wired := ⟨Placed.start, Vm.backed_new, Vm.mirrored_new⟩

/-- `mmio_register` does to the map what its allocation does. -/
theorem register_vm (region : MmioRegion) (host : HostAnswers) {s' : MmioMap}
    (h : s.step (.register region host) = .ok s') :
    s.vm.alloc (region.allocCall host) = .ok s'.vm := by
  cases h
  refine congrArg Except.ok ?_
  show (memoryAlloc s.vm region.baseAddress (region.highAddress - region.baseAddress) memoryMmio
    host).1 = (mmioRegister s.vm s.table region host).1
  unfold mmioRegister
  generalize memoryAlloc s.vm region.baseAddress (region.highAddress - region.baseAddress)
    memoryMmio host = r
  obtain ⟨vm, ok⟩ := r
  cases ok with
  | false => rfl
  | true => cases s.table.firstAvailable <;> rfl

/-- The host has no part in an allocation of MMIO, and a range in order fits. -/
theorem allocCall_served (vm : Vm) {region : MmioRegion} {host : HostAnswers}
    (hentry : host.entry = true) (hnode : host.node = true)
    (hle : region.baseAddress ≤ region.highAddress) : (region.allocCall host).Served vm := by
  have hram : ¬ (region.allocCall host).IsRam :=
    (by decide : ¬ (memoryMmio = memoryFramebuffer ∨ memoryMmio = memoryUsable))
  refine ⟨⟨hentry, hnode, fun _ h => absurd h hram, fun h => absurd h hram⟩, fun _ _ _ _ => ?_⟩
  have hhigh := region.highAddress.toNat_lt
  rw [UInt64.le_iff_toNat_le] at hle
  show region.baseAddress.toNat + (region.highAddress - region.baseAddress).toNat < 2 ^ 64
  rw [UInt64.toNat_sub_of_le _ _ (UInt64.le_iff_toNat_le.mpr hle)]
  omega

theorem allowed_of_served {call : MmioMapCall} (h : call.Served limit s) : call.Allowed := by
  cases call with
  | alloc c => exact ⟨h.1.1.entry, h.1.1.node, fun hram hioctl => (h.1.1.kvm hram hioctl).1⟩
  | register region host => exact ⟨h.1, h.2.1⟩
  | init => trivial
  | unregister id => trivial

/-- **A call keeps the invariant.** -/
theorem Wired.step (hlimit : limit < 2 ^ 32) (h : s.Wired) {call : MmioMapCall}
    (hc : call.Served limit s) : ∃ s', s.step call = .ok s' ∧ s'.Wired := by
  obtain ⟨s', hstep, hplaced⟩ := h.placed.step (allowed_of_served hc)
  have hmap : ∀ c : AllocCall, c.Served s.vm → s.vm.KvmLimits limit c → s.vm.alloc c = .ok s'.vm →
      s'.vm.Backed ∧ s'.vm.Mirrored := by
    intro c hs hk halloc
    obtain ⟨vm₁, h₁, hbacked⟩ := Vm.alloc_backed h.backed hs.1 hs.2
    obtain ⟨⟨vm₂, h₂, hmirrored⟩, -⟩ := Vm.alloc_mirrored hlimit h.mirrored hs.1.node hk
    rw [halloc] at h₁ h₂
    cases h₁
    cases h₂
    exact ⟨hbacked, hmirrored⟩
  refine ⟨s', hstep, ?_⟩
  suffices hvm : s'.vm.Backed ∧ s'.vm.Mirrored from ⟨hplaced, hvm.1, hvm.2⟩
  cases call with
  | alloc c =>
      refine hmap c hc.1 hc.2 ?_
      cases hstep
      rfl
  | register region host =>
      refine hmap _ (allocCall_served s.vm hc.1 hc.2.1 hc.2.2) (fun _ hram => ?_)
        (register_vm region host hstep)
      exact absurd hram
        (by decide : ¬ (memoryMmio = memoryFramebuffer ∨ memoryMmio = memoryUsable))
  | init =>
      cases hstep
      exact ⟨h.backed, h.mirrored⟩
  | unregister id =>
      rw [MmioMap.step, MmioSession.unregister_eq, ok_bind] at hstep
      cases hstep
      exact ⟨h.backed, h.mirrored⟩

/-! ## What the invariant says of a store -/

/-- The slots that answer are those that make a call. -/
theorem answers_iff (i : Fin maxMmioRegionCount) (addr : UInt64) (data : Vector UInt8 8)
    (len : UInt32) : s.Answers i addr ↔ (s.table.slot i).writeCall addr data len ≠ none := by
  constructor
  · rintro ⟨hw, hrange, hlow, hhigh⟩
    rw [ne_eq, MmioSession.writeCall_eq_none_iff, Classical.not_imp, Classical.not_not]
    have hlt := UInt64.lt_iff_toNat_lt.mp hrange
    simp only [MmioRegion.span] at hlow hhigh
    exact ⟨hw, UInt64.le_iff_toNat_le.mpr hlow, UInt64.lt_iff_toNat_lt.mpr (by omega)⟩
  · exact MmioRegion.contains_of_writeCall

/-- No slot answers: the table makes no call. -/
theorem mmioHandleWrite_eq_nil {addr : UInt64} (h : ∀ i, ¬ s.Answers i addr)
    (data : Vector UInt8 8) (len : UInt32) : mmioHandleWrite s.table addr data len = [] := by
  rw [mmioHandleWrite_slots, List.filterMap_eq_nil_iff]
  intro i _
  exact Classical.not_not.mp (mt (answers_iff i addr data len).mpr (h i))

/-- One slot answers: the table makes its call, and no other. -/
theorem mmioHandleWrite_eq_singleton (h : s.Placed) {i : Fin maxMmioRegionCount} {addr : UInt64}
    (hi : s.Answers i addr) (data : Vector UInt8 8) (len : UInt32) :
    ∃ call, mmioHandleWrite s.table addr data len = [call] ∧
      (s.table.slot i).writeCall addr data len = some call := by
  obtain ⟨call, hcall⟩ := Option.ne_none_iff_exists'.mp ((answers_iff i addr data len).mp hi)
  have hmem : call ∈ mmioHandleWrite s.table addr data len := by
    rw [mmioHandleWrite_slots]
    exact List.mem_filterMap.mpr ⟨i, List.mem_finRange i, hcall⟩
  have hlen := h.rangesApart.oneHandler addr data len
  refine ⟨call, ?_, hcall⟩
  cases hl : mmioHandleWrite s.table addr data len with
  | nil =>
      rw [hl] at hmem
      exact absurd hmem List.not_mem_nil
  | cons c rest =>
      rw [hl, List.length_cons] at hlen
      have hrest : rest = [] := List.eq_nil_of_length_eq_zero (by omega)
      rw [hl, hrest] at hmem
      rw [hrest, List.mem_singleton.mp hmem]

/-- The range of a slot that answers is disjoint from RAM. -/
theorem Wired.entryAt_answered (h : s.Wired) {i : Fin maxMmioRegionCount} {addr : UInt64}
    (hi : s.Answers i addr) : s.vm.entryAt Vm.isReadable addr.toNat = none := by
  cases hat : s.vm.entryAt Vm.isReadable addr.toNat with
  | none => rfl
  | some e =>
      obtain ⟨he, hread, hin⟩ := (Vm.entryAt_iff h.backed.ranges).mp hat
      refine absurd hin (h.placed.ram i hi.2.1 e he ?_ addr.toNat hi.2.2)
      intro hmmio
      rw [hmmio] at hread
      exact absurd hread (by decide)

/-- A store to RAM. -/
theorem Wired.guestStore_ram (h : s.Wired) {addr : UInt64} {e : MemoryEntry}
    (hat : s.vm.entryAt Vm.isReadable addr.toNat = some e) (host : HostMemory)
    (data : Vector UInt8 8) (len : UInt32) :
    ∃ host', s.guestStore host addr data len = .ok (host', []) ∧
      FlatMemory.view s.vm.translate host' =
        FlatMemory.overwrite (FlatMemory.view s.vm.translate host) addr.toNat [firstByte data] := by
  obtain ⟨htrans, hmapped⟩ := Vm.hostAddress_region h.backed hat
  obtain ⟨host', hstore, hview⟩ := Vm.view_storeByte h.backed htrans hmapped host (firstByte data)
  refine ⟨host', ?_, hview⟩
  rw [guestStore, Vm.kvmRegionAt_eq h.backed h.mirrored, hat, Option.map_some]
  simp only [hstore, ok_bind]

/-- A store to anything else is one for the table. -/
theorem Wired.guestStore_exits (h : s.Wired) {addr : UInt64}
    (hat : s.vm.entryAt Vm.isReadable addr.toNat = none) (host : HostMemory)
    (data : Vector UInt8 8) (len : UInt32) :
    s.guestStore host addr data len = .ok (host, mmioHandleWrite s.table addr data len) := by
  rw [guestStore, Vm.kvmRegionAt_eq h.backed h.mirrored, hat, Option.map_none]

/-- A store does not fault. -/
theorem Wired.guestStore_ok (h : s.Wired) (host : HostMemory) (addr : UInt64)
    (data : Vector UInt8 8) (len : UInt32) :
    ∃ host' calls, s.guestStore host addr data len = .ok (host', calls) := by
  cases hat : s.vm.entryAt Vm.isReadable addr.toNat with
  | none => exact ⟨host, _, h.guestStore_exits hat host data len⟩
  | some e =>
      obtain ⟨host', hstore, -⟩ := h.guestStore_ram hat host data len
      exact ⟨host', [], hstore⟩

/-- **A store goes one way.** -/
theorem Wired.routed (h : s.Wired) : s.Routed where
  ram := by
    intro e he hram addr hin
    have hread : Vm.isReadable e.type = true := by
      rw [← (Vm.isRam_eq_isReadable h.backed he).1]
      exact hram
    have hat : s.vm.entryAt Vm.isReadable addr.toNat = some e :=
      (Vm.entryAt_iff h.backed.ranges).mpr ⟨he, hread, hin⟩
    refine ⟨?_, fun host data len => ?_⟩
    · intro i hi
      rw [h.entryAt_answered hi] at hat
      cases hat
    · obtain ⟨host', hstore, hview⟩ := h.guestStore_ram hat host data len
      have hwrite : s.vm.entryAt Vm.isWritable addr.toNat = some e := by
        refine (Vm.entryAt_iff h.backed.ranges).mpr ⟨he, ?_, hin⟩
        rw [← (Vm.isRam_eq_isReadable h.backed he).2]
        exact hread
      have hspec : (s.vm.flat host).access (.store addr (firstByte data)) =
          ({ s.vm.flat host with
              cells := FlatMemory.overwrite (s.vm.flat host).cells addr.toNat [firstByte data] },
            .stored true) := by
        simp only [GuestMemory.access, Vm.flat, hwrite, Option.map_some]
      refine ⟨host', hstore, ?_, congrArg Prod.snd hspec⟩
      rw [hspec]
      simp only [Vm.flat, hview]
  handler := by
    intro i addr hi host data len
    obtain ⟨call, hcalls, hcall⟩ := mmioHandleWrite_eq_singleton h.placed hi data len
    refine ⟨call, ?_, hcall⟩
    rw [h.guestStore_exits (h.entryAt_answered hi), hcalls]
  nowhere := by
    intro addr hram hslots host data len
    have hnone : s.vm.entryAt Vm.isReadable addr.toNat = none := by
      cases hat : s.vm.entryAt Vm.isReadable addr.toNat with
      | none => rfl
      | some e =>
          obtain ⟨he, hread, hin⟩ := (Vm.entryAt_iff h.backed.ranges).mp hat
          rw [← (Vm.isRam_eq_isReadable h.backed he).1] at hread
          exact absurd hin (hram e he hread)
    rw [h.guestStore_exits hnone, mmioHandleWrite_eq_nil hslots]

end MmioMap

/-- **Every store of the guest goes one way.**  In every run of `memory_alloc`, `mmio_init`,
`mmio_register` and `mmio_unregister` on one VM, in every state on the way: a store to an
address of RAM changes that byte of the memory and calls no handler; a store to an address
of a slot's range exits and calls that slot's handler alone, also after the slot's region has
been unregistered; and any other store does nothing. -/
theorem guest_stores_go_one_way {limit : Nat} (hlimit : limit < 2 ^ 32) {calls : List MmioMapCall}
    (hserved : Runs.EachStep MmioMap.step (fun s call => call.Served limit s) MmioMap.start calls) :
    Runs.AlwaysAlong MmioMap.step MmioMap.Routed MmioMap.start calls :=
  Runs.alwaysAlong_of_eachStep (fun _ _ hs hc => hs.step hlimit hc) (fun _ hs => hs.routed)
    MmioMap.wired_start hserved

/-- RAM, a region above it, and the region freed. -/
theorem guest_stores_go_one_way_four :
    Runs.AlwaysAlong MmioMap.step MmioMap.Routed MmioMap.start
      [.init, .alloc ⟨0, 0x100000, memoryUsable, ⟨true, 0x7F0000000000, true, true⟩⟩,
        .register ⟨0, 0xC0000000, 0xC1000000, some 0x401000, none, 0⟩ ⟨true, 0, true, true⟩,
        .unregister ⟨0, by decide⟩] := by
  refine guest_stores_go_one_way (by decide : 0x1FD < 2 ^ 32) ?_
  refine .cons trivial rfl (.cons ?_ rfl ⟨?_, fun _ _ => ⟨trivial, fun _ _ => trivial⟩⟩)
  · refine ⟨⟨⟨rfl, rfl, fun _ _ => ⟨by decide, by decide, by decide, ?_⟩, fun _ _ => ?_⟩, ?_⟩,
      fun _ _ _ => by decide⟩
    · exact fun m hm => absurd hm List.not_mem_nil
    · exact ⟨by unfold AllocCall.Fits; decide, by decide⟩
    · exact fun hc => absurd hc (by decide)
  · exact ⟨rfl, rfl, by decide⟩

end BlackHV
