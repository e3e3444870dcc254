import BlackHV.Copies
import BlackHV.GuestAccess

/-! # Copies through a pointer

`memory_get_ptr` hands out a pointer into the RAM of the guest, and the programs copy
through it with `memset`, `memcpy` and `strcpy`.  None of these knows where the RAM ends: a
copy that stays in the range is an overwrite of the memory both see, and one that does not
is an access outside of it.
-/
namespace BlackHV

open Spans FlatMemory

/-- Bytes stored one after the other from an address of the process on. -/
def storeBytes (vm : Vm) (host : HostMemory) (ptr : UInt64) : List UInt8 → Except Fault HostMemory
  | [] => .ok host
  | b :: rest => do
      let host ← storeByte vm host ptr b
      storeBytes vm host (ptr + 1) rest

namespace Vm
variable {vm : Vm} {e : MemoryEntry}

/-- The map has one range, and it is RAM. -/
structure Single (vm : Vm) (e : MemoryEntry) : Prop where
  entries : vm.memoryEntries = [e]
  mappings : vm.mappings = [(e.memoryPtr, e.size)]
  usable : e.type = memoryUsable
  backed : vm.Backed

theorem Single.mem (h : vm.Single e) : e ∈ vm.memoryEntries := h.entries ▸ List.mem_cons_self

theorem Single.readable (h : vm.Single e) : isReadable e.type = true := by
  rw [h.usable]
  decide

/-- The host address of an offset in an entry. -/
theorem translate_offset (h : vm.Backed) (he : e ∈ vm.memoryEntries)
    (ht : isReadable e.type = true) {d : Nat} (hd : d < e.size.toNat) :
    vm.translate (e.guestPhys.toNat + d) = some (e.memoryPtr + UInt64.ofNat d) := by
  have hat : vm.entryAt isReadable (e.guestPhys.toNat + d) = some e :=
    (entryAt_iff h.ranges).mpr ⟨he, ht, Span.contains_add (s := e.span) hd⟩
  rw [translate, hat, Option.map_some, Nat.add_sub_cancel_left]

theorem ofNat_succ (ptr : UInt64) (d : Nat) :
    ptr + UInt64.ofNat d + 1 = ptr + UInt64.ofNat (d + 1) := by
  rw [UInt64.ofNat_add, UInt64.add_assoc]
  rfl

/-- **A copy that stays in the range is an overwrite.** -/
theorem storeBytes_ok (h : vm.Backed) (he : e ∈ vm.memoryEntries)
    (ht : isReadable e.type = true) (host : HostMemory) (d : Nat) (bytes : List UInt8)
    (hroom : d + bytes.length ≤ e.size.toNat) :
    ∃ host', storeBytes vm host (e.memoryPtr + UInt64.ofNat d) bytes = .ok host' ∧
      view vm.translate host' =
        overwrite (view vm.translate host) (e.guestPhys.toNat + d) bytes := by
  induction bytes generalizing host d with
  | nil => exact ⟨host, rfl, overwrite_nil.symm⟩
  | cons b rest ih =>
      rw [List.length_cons] at hroom
      have htrans := translate_offset h he ht (show d < e.size.toNat by omega)
      obtain ⟨host₁, hstore, hview₁⟩ :=
        view_storeByte h htrans (mapped_of_translate h htrans) host b
      obtain ⟨host', hrest, hview⟩ := ih host₁ (d + 1) (by omega)
      refine ⟨host', ?_, ?_⟩
      · rw [storeBytes, hstore, ok_bind, ofNat_succ, hrest]
      · rw [hview, hview₁, overwrite_cons b rest, Nat.add_assoc]

/-- The byte behind the only mapping is not mapped. -/
theorem Single.not_mapped_end (h : vm.Single e) :
    ¬ vm.Mapped (e.memoryPtr + UInt64.ofNat e.size.toNat) := by
  rintro ⟨m, hm, hin⟩
  rw [h.mappings] at hm
  cases List.mem_singleton.mp hm
  obtain ⟨-, hb⟩ := isBacked_of_readable h.backed h.mem h.readable
  have hwrap := hb.noWrap
  have hpos : e.memoryPtr.toNat ≠ 0 := fun hp => hb.nonNull (UInt64.toNat_inj.mp hp)
  obtain ⟨hlow, hhigh⟩ := hin
  rw [UInt64.ofNat_toNat, UInt64.toNat_add] at hlow hhigh
  dsimp only at hlow hhigh
  omega

/-- **A copy that leaves it is an access outside.** -/
theorem Single.storeBytes_leaves (h : vm.Single e) (host : HostMemory) (d : Nat)
    (bytes : List UInt8) (hd : d ≤ e.size.toNat) (hout : e.size.toNat < d + bytes.length) :
    storeBytes vm host (e.memoryPtr + UInt64.ofNat d) bytes = .error .outOfBounds := by
  induction bytes generalizing host d with
  | nil =>
      rw [List.length_nil] at hout
      omega
  | cons b rest ih =>
      rcases Nat.lt_or_eq_of_le hd with hlt | rfl
      · have htrans := translate_offset h.backed h.mem h.readable hlt
        obtain ⟨host₁, hstore, -⟩ :=
          view_storeByte h.backed htrans (mapped_of_translate h.backed htrans) host b
        rw [List.length_cons] at hout
        rw [storeBytes, hstore, ok_bind, ofNat_succ]
        exact ih host₁ (d + 1) (by omega) (by omega)
      · have hno : storeByte vm host (e.memoryPtr + UInt64.ofNat e.size.toNat) b =
            .error .outOfBounds := if_neg h.not_mapped_end
        rw [storeBytes, hno, error_bind]

/-- The pointer for an address of the range. -/
theorem Single.memoryGetPtr_of_mem (h : vm.Single e) {addr : UInt64}
    (hin : e.span.Contains addr.toNat) :
    memoryGetPtr vm addr ≠ 0 ∧
      memoryGetPtr vm addr = e.memoryPtr + UInt64.ofNat (addr.toNat - e.guestPhys.toNat) := by
  have hwritable : isWritable e.type = true := by
    rw [h.usable]
    decide
  obtain ⟨-, hnone⟩ | ⟨f, hne, hat, htrans, -⟩ := memoryGetPtr_cases h.backed addr
  · rw [(entryAt_iff h.backed.ranges).mpr ⟨h.mem, hwritable, hin⟩] at hnone
    cases hnone
  · have hat' : vm.entryAt isReadable addr.toNat = some e :=
      (entryAt_iff h.backed.ranges).mpr ⟨h.mem, h.readable, hin⟩
    rw [translate, hat', Option.map_some] at htrans
    exact ⟨hne, (Option.some.inj htrans).symm⟩

/-- There is no pointer for another address. -/
theorem Single.memoryGetPtr_of_not_mem (h : vm.Single e) {addr : UInt64}
    (hin : ¬ e.span.Contains addr.toNat) : memoryGetPtr vm addr = 0 := by
  obtain ⟨hz, -⟩ | ⟨f, -, hat, -⟩ := memoryGetPtr_cases h.backed addr
  · exact hz
  · obtain ⟨hf, -, hfin⟩ := (entryAt_iff h.backed.ranges).mp hat
    rw [h.entries] at hf
    exact absurd (List.mem_singleton.mp hf ▸ hfin) hin

/-! ## RAM from 0 on -/

/-- The only range of the map is RAM from 0 on. -/
structure LowRam (vm : Vm) (e : MemoryEntry) : Prop extends vm.Single e where
  low : e.guestPhys = 0

theorem LowRam.contains_iff (h : vm.LowRam e) {a : Nat} : e.span.Contains a ↔ a < e.size.toNat := by
  rw [MemoryEntry.span, h.low]
  unfold Span.Contains
  rw [show (0 : UInt64).toNat = 0 from rfl, Nat.zero_add]
  exact and_iff_right (Nat.zero_le a)

/-- The host address of one of the guest's. -/
def hostOf (e : MemoryEntry) (a : Nat) : UInt64 := e.memoryPtr + UInt64.ofNat a

theorem hostOf_add (a k : Nat) : hostOf e a + UInt64.ofNat k = hostOf e (a + k) := by
  rw [hostOf, hostOf, UInt64.add_assoc, ← UInt64.ofNat_add]

/-- `memory_get_ptr`, with one range from 0 on. -/
theorem LowRam.memoryGetPtr_cases (h : vm.LowRam e) (addr : UInt64) :
    addr.toNat < e.size.toNat ∧ memoryGetPtr vm addr ≠ 0 ∧
        memoryGetPtr vm addr = hostOf e addr.toNat ∨
      e.size.toNat ≤ addr.toNat ∧ memoryGetPtr vm addr = 0 := by
  by_cases hlt : addr.toNat < e.size.toNat
  · obtain ⟨hne, heq⟩ := h.memoryGetPtr_of_mem (h.contains_iff.mpr hlt)
    rw [h.low, show (0 : UInt64).toNat = 0 from rfl, Nat.sub_zero] at heq
    exact .inl ⟨hlt, hne, heq⟩
  · exact .inr ⟨Nat.le_of_not_lt hlt, h.memoryGetPtr_of_not_mem fun hin =>
      hlt (h.contains_iff.mp hin)⟩

/-- A copy through a pointer fits, or leaves the range. -/
theorem LowRam.puts_storeBytes (h : vm.LowRam e) {a : Nat} (ha : a ≤ e.size.toNat)
    (bytes : List UInt8) :
    Puts (view vm.translate) (fun host => storeBytes vm host (hostOf e a) bytes)
      (a + bytes.length ≤ e.size.toNat) [(a, bytes)] := by
  refine fun host => PutsAt.of_cases (fun hroom => ?_) fun hout => ⟨.outOfBounds, ?_⟩
  · have hok := storeBytes_ok h.backed h.mem h.readable host a bytes hroom
    rwa [h.low, show (0 : UInt64).toNat = 0 from rfl, Nat.zero_add] at hok
  · exact h.storeBytes_leaves host a bytes ha (Nat.lt_of_not_le hout)

/-- `memory_write`, with one range from 0 on: it fails behind the range, and stops at its end. -/
theorem LowRam.memoryWrite_cases (h : vm.LowRam e) (host : HostMemory) (dest : UInt64)
    (buffer : List UInt8) : ∃ host' result, memoryWrite vm host dest buffer = .ok (host', result) ∧
      (dest.toNat < e.size.toNat ∧ 0 ≤ result.toInt ∧ view vm.translate host' =
          overwrite (view vm.translate host) dest.toNat (buffer.take (e.size.toNat - dest.toNat)) ∨
        e.size.toNat ≤ dest.toNat ∧ result.toInt < 0) := by
  obtain ⟨host', haccess, hflat⟩ := memoryWrite_simulates h.backed host dest buffer
  obtain ⟨⟨host₁, result⟩, hwrite, hret⟩ := bind_eq_ok.mp haccess
  have hwritable : isWritable e.type = true := by
    rw [h.usable]
    decide
  by_cases hlt : dest.toNat < e.size.toNat
  · have hat : vm.entryAt isWritable dest.toNat = some e :=
      (entryAt_iff h.backed.ranges).mpr ⟨h.mem, hwritable, h.contains_iff.mpr hlt⟩
    have hend : e.span.base + e.span.size = e.size.toNat := by
      rw [MemoryEntry.span, h.low]
      exact Nat.zero_add _
    simp only [GuestMemory.access, flat, hat, Option.map_some, hend] at hret hflat
    obtain ⟨rfl, hresult⟩ := Prod.mk.inj (Except.ok.inj hret)
    refine ⟨host₁, result, hwrite, .inl ⟨hlt, ?_, congrArg GuestMemory.cells hflat⟩⟩
    rw [MemoryAnswer.written.inj hresult]
    exact Int.natCast_nonneg _
  · have hat : vm.entryAt isWritable dest.toNat = none := by
      rcases hat : vm.entryAt isWritable dest.toNat with _ | f
      · rfl
      · obtain ⟨hf, -, hin⟩ := (entryAt_iff h.backed.ranges).mp hat
        rw [h.entries] at hf
        rw [List.mem_singleton.mp hf] at hin
        exact absurd (h.contains_iff.mp hin) hlt
    simp only [GuestMemory.access, flat, hat, Option.map_none] at hret
    obtain ⟨-, hresult⟩ := Prod.mk.inj (Except.ok.inj hret)
    refine ⟨host₁, result, hwrite, .inr ⟨Nat.le_of_not_lt hlt, ?_⟩⟩
    rw [MemoryAnswer.written.inj hresult]
    decide

/-- The RAM of a new VM is such a range, if it is allocated from 0 on. -/
theorem lowRam_alloc {size : UInt64} {host : HostAnswers}
    (hs : Vm.new.HostServes ⟨0, size, memoryUsable, host⟩) (haccepts : host.ioctl = true) :
    ∃ vm e, memoryAlloc Vm.new 0 size memoryUsable host = (vm, true) ∧ vm.LowRam e ∧
      e.size = size := by
  have hram : AllocCall.IsRam ⟨0, size, memoryUsable, host⟩ := .inr rfl
  obtain ⟨hnull, -⟩ := hs.mmap rfl hram
  have hmade : Vm.new.entryMade ⟨0, size, memoryUsable, host⟩ =
      some ⟨host.mmap, 0, size, 0, memoryUsable⟩ := by
    unfold entryMade
    rw [if_pos hram, if_pos ⟨hs.entry, hnull, haccepts⟩]
    rfl
  have hadd : Vm.new.entryAdded ⟨0, size, memoryUsable, host⟩ = _ :=
    (if_pos ⟨rfl, hs.node⟩).trans hmade
  have hentries := memoryEntries_alloc Vm.new ⟨0, size, memoryUsable, host⟩
  have hmappings := mappings_alloc hs.allocates
  rw [hadd] at hentries
  rw [if_pos ⟨rfl, hram, haccepts⟩] at hmappings
  obtain ⟨vm, halloc, hbacked⟩ := alloc_backed backed_new hs (fun hmmio => nomatch hmmio)
  cases halloc
  refine ⟨_, ⟨host.mmap, 0, size, 0, memoryUsable⟩, ?_, ⟨⟨hentries, hmappings, rfl, hbacked⟩, rfl⟩,
    rfl⟩
  have hret := congrArg Prod.snd (memoryAlloc_some (c := ⟨0, size, memoryUsable, host⟩) rfl hmade)
  exact Prod.ext rfl hret

/-- There are VMs with such a range. -/
theorem exists_lowRam {size : UInt64} (hsize : size.toNat ≤ 2 ^ 30) :
    ∃ vm e, LowRam vm e ∧ e.size = size := by
  have hserves : Vm.new.HostServes ⟨0, size, memoryUsable, ⟨true, 0x7F0000000000, true, true⟩⟩ := by
    have hptr : (0x7F0000000000 : UInt64) ≠ 0 ∧ (0x7F0000000000 : UInt64) ≠ mapFailed := by decide
    refine ⟨rfl, rfl, fun _ _ => ⟨hptr.1, hptr.2, ?_, fun m hm => absurd hm List.not_mem_nil⟩,
      fun _ _ => ⟨?_, Nat.lt_of_le_of_lt hsize (by decide)⟩⟩
    · show 0x7F0000000000 + size.toNat ≤ 2 ^ 64
      omega
    · show 0 + size.toNat < 2 ^ 64
      omega
  obtain ⟨vm, e, -, hlow, he⟩ := lowRam_alloc hserves rfl
  exact ⟨vm, e, hlow, he⟩

end Vm

end BlackHV
