import BlackHV.FlatMemory
import BlackHV.HostMappings

/-! # Guest memory is flat

What `memory_write`, `memory_read` and the pointers of `memory_get_ptr` are for: one
partial map from physical addresses to bytes, divided into regions that an access does
not leave.  `Vm.flat` is that map, seen through the entries of a VM in the host's
memory; `GuestMemory.access` says what an access does to it, and `access_simulates` that
the three functions do the same.
-/
namespace BlackHV

open Spans FlatMemory

/-! ## The flat memory -/

/-- An access by the program that runs the VM. -/
inductive MemoryAccess where
  | write (dest : UInt64) (buffer : List UInt8)
  | read (srcPhys : UInt64) (size : UInt64)
  /-- A byte stored through the pointer for `addr`, if there is one. -/
  | store (addr : UInt64) (b : UInt8)
  /-- A byte loaded through the pointer for `addr`, if there is one. -/
  | load (addr : UInt64)

/-- What an access answers: the value `memory_write` returns, the cells `memory_read` has
read and the value it returns, whether there was a pointer to store through, and the
byte loaded through it. -/
inductive MemoryAnswer where
  | written (result : Int)
  | read (cells : List (Option UInt8)) (result : Int)
  | stored (nonNull : Bool)
  | loaded (b : Option UInt8)
  deriving DecidableEq

/-- A partial map from addresses to bytes, with the region of each address that can be
written, and of each that can be read. -/
structure GuestMemory where
  cells : Nat → Option UInt8
  writable : Nat → Option Span
  readable : Nat → Option Span

namespace GuestMemory

/-- An access to the flat memory. -/
def access (m : GuestMemory) : MemoryAccess → GuestMemory × MemoryAnswer
  | .write dest buffer =>
      match m.writable dest.toNat with
      | none => (m, .written (-1))
      | some region =>
          let bytes := buffer.take (region.base + region.size - dest.toNat)
          ({ m with cells := overwrite m.cells dest.toNat bytes }, .written bytes.length)
  | .read srcPhys size =>
      match m.readable srcPhys.toNat with
      | none => (m, .read [] (-1))
      | some region =>
          let count := min size.toNat (region.base + region.size - srcPhys.toNat)
          (m, .read ((List.range count).map fun i => m.cells (srcPhys.toNat + i)) count)
  | .store addr b =>
      match m.writable addr.toNat with
      | none => (m, .stored false)
      | some _ => ({ m with cells := overwrite m.cells addr.toNat [b] }, .stored true)
  | .load addr =>
      match m.writable addr.toNat with
      | none => (m, .loaded none)
      | some _ => (m, .loaded (m.cells addr.toNat))

end GuestMemory

namespace Vm

/-- The same access on a VM. -/
def access (vm : Vm) (host : HostMemory) : MemoryAccess → Except Fault (HostMemory × MemoryAnswer)
  | .write dest buffer => do
      let (host, result) ← memoryWrite vm host dest buffer
      .ok (host, .written result.toInt)
  | .read srcPhys size => do
      let (bytes, result) ← memoryRead vm host srcPhys size
      .ok (host, .read (bytes.map some) result.toInt)
  | .store addr b => do
      let ptr := memoryGetPtr vm addr
      if ptr = 0 then
        .ok (host, .stored false)
      else do
        let host ← storeByte vm host ptr b
        .ok (host, .stored true)
  | .load addr => do
      let ptr := memoryGetPtr vm addr
      if ptr = 0 then
        .ok (host, .loaded none)
      else do
        let b ← loadByte vm host ptr
        .ok (host, .loaded (some b))

/-! ## The view of a VM -/

/-- The entry of one of some types that has the address. -/
def entryAt (vm : Vm) (types : UInt32 → Bool) (a : Nat) : Option MemoryEntry :=
  vm.memoryEntries.find? fun e => types e.type && decide (e.span.Contains a)

/-- The types `memory_write` and `memory_get_ptr` take. -/
def isWritable (type : UInt32) : Bool := type == memoryUsable

/-- The types `memory_read` takes. -/
def isReadable (type : UInt32) : Bool := type == memoryUsable || type == memoryFramebuffer

/-- The host address of a physical one. -/
def translate (vm : Vm) (a : Nat) : Option UInt64 :=
  (vm.entryAt isReadable a).map fun e => e.memoryPtr + UInt64.ofNat (a - e.guestPhys.toNat)

/-- The flat memory that a VM's entries make of the host's. -/
def flat (vm : Vm) (host : HostMemory) : GuestMemory :=
  { cells := view vm.translate host
    writable := fun a => (vm.entryAt isWritable a).map MemoryEntry.span
    readable := fun a => (vm.entryAt isReadable a).map MemoryEntry.span }

variable {vm : Vm} {types : UInt32 → Bool} {e : MemoryEntry} {host : HostMemory}

/-! ## Lookups -/

theorem entryAt_iff (hdisj : vm.RangesDisjoint) {a : Nat} :
    vm.entryAt types a = some e ↔
      e ∈ vm.memoryEntries ∧ types e.type = true ∧ e.span.Contains a := by
  constructor
  · intro h
    have hp := List.find?_some h
    simp only [Bool.and_eq_true, decide_eq_true_eq] at hp
    exact ⟨List.mem_of_find?_eq_some h, hp⟩
  · rintro ⟨hmem, ht, hin⟩
    refine find?_eq_some (fun x y hxy hpx hpy => ?_) hdisj hmem (by simp [ht, hin])
    simp only [Bool.and_eq_true, decide_eq_true_eq] at hpx hpy
    exact hxy a hpx.2 hpy.2

/-- `find_entry` followed by a test of the type looks the same entry up. -/
theorem entryAt_eq (h : vm.Backed) (types : UInt32 → Bool) (addr : UInt64) :
    vm.entryAt types addr.toNat = (findEntry vm addr).filter fun e => types e.type := by
  have hmap := unambiguous h.fit h.ranges
  cases hf : findEntry vm addr with
  | none =>
      cases he : vm.entryAt types addr.toNat with
      | none => rfl
      | some e =>
          obtain ⟨hmem, -, hin⟩ := (entryAt_iff h.ranges).mp he
          rw [hmap.found addr e hmem hin] at hf
          cases hf
  | some f =>
      obtain ⟨hmem, hin⟩ := findEntry_some h.fit hf
      by_cases ht : types f.type = true
      · rw [Option.filter_some, if_pos ht]
        exact (entryAt_iff h.ranges).mpr ⟨hmem, ht, hin⟩
      · rw [Option.filter_some, if_neg ht]
        cases he : vm.entryAt types addr.toNat with
        | none => rfl
        | some e =>
            obtain ⟨hmem', ht', hin'⟩ := (entryAt_iff h.ranges).mp he
            rw [hmap.found addr e hmem' hin'] at hf
            cases hf
            exact absurd ht' ht

/-- An entry that can be read is RAM, and has a mapping. -/
theorem isBacked_of_readable (h : vm.Backed) (he : e ∈ vm.memoryEntries)
    (ht : isReadable e.type = true) : e.type = memoryUsable ∧ vm.IsBacked e := by
  rcases h.kinds e he with hmmio | hram
  · rw [hmmio] at ht
    exact absurd ht (by decide)
  · exact hram

/-! ## Addresses inside an entry -/

section Inside
variable {d w : UInt64}

theorem sub_guestPhys_toNat (hin : e.span.Contains d.toNat) :
    (d - e.guestPhys).toNat = d.toNat - e.guestPhys.toNat :=
  UInt64.toNat_sub_of_le _ _ (UInt64.le_iff_toNat_le.mpr hin.1)

/-- `mem_limit`: the bytes from `d` to the end of the entry. -/
theorem memLimit_toNat (hin : e.span.Contains d.toNat) :
    (e.size - (d - e.guestPhys)).toNat = e.span.base + e.span.size - d.toNat := by
  have hbase := sub_guestPhys_toNat hin
  obtain ⟨hlow, hhigh⟩ := hin
  simp only [MemoryEntry.span] at hlow hhigh ⊢
  rw [UInt64.toNat_sub_of_le _ _ (UInt64.le_iff_toNat_le.mpr (by omega)), hbase]
  omega

/-- The host address the loops compute for byte `w` from `d` on. -/
theorem hostAddress_toNat (hb : vm.HasMapping e) (hin : e.span.Contains d.toNat)
    (hw : w < e.size - (d - e.guestPhys)) :
    (e.memoryPtr + ((d - e.guestPhys) + w)).toNat =
      e.memoryPtr.toNat + (d.toNat + w.toNat - e.guestPhys.toNat) := by
  have hwrap := hb.noWrap
  have hbase := sub_guestPhys_toNat hin
  rw [UInt64.lt_iff_toNat_lt, memLimit_toNat hin] at hw
  obtain ⟨hlow, hhigh⟩ := hin
  simp only [MemoryEntry.span] at hlow hhigh hw
  rw [UInt64.toNat_add, UInt64.toNat_add, hbase]
  omega

/-- It is inside the mapping. -/
theorem mapped_inside (hb : vm.HasMapping e) (hin : e.span.Contains d.toNat)
    (hw : w < e.size - (d - e.guestPhys)) :
    vm.Mapped (e.memoryPtr + ((d - e.guestPhys) + w)) := by
  have hhost := hostAddress_toNat hb hin hw
  rw [UInt64.lt_iff_toNat_lt, memLimit_toNat hin] at hw
  obtain ⟨hlow, hhigh⟩ := hin
  simp only [MemoryEntry.span] at hlow hhigh hw
  refine ⟨_, hb.mapping, ?_⟩
  show e.memoryPtr.toNat ≤ _ ∧ _ < e.memoryPtr.toNat + e.size.toNat
  omega

/-- A mapping is not at 0 and does not wrap, so a pointer into it is not `NULL`. -/
theorem pointer_ne_zero (hb : vm.HasMapping e) (hin : e.span.Contains d.toNat) :
    e.memoryPtr + (d - e.guestPhys) ≠ 0 := by
  intro hz
  have hw : (0 : UInt64) < e.size - (d - e.guestPhys) := by
    have hhigh := hin.2
    rw [UInt64.lt_iff_toNat_lt, memLimit_toNat hin]
    exact Nat.sub_pos_of_lt hhigh
  have hhost := hostAddress_toNat hb hin hw
  have hpos : e.memoryPtr.toNat ≠ 0 := fun hp => hb.nonNull (UInt64.toNat_inj.mp hp)
  rw [UInt64.add_zero, hz] at hhost
  change 0 = _ at hhost
  omega

/-- It is the translation of that byte's physical address, and inside the mapping. -/
theorem translate_inside (h : vm.Backed) (he : e ∈ vm.memoryEntries)
    (ht : isReadable e.type = true) (hin : e.span.Contains d.toNat)
    (hw : w < e.size - (d - e.guestPhys)) :
    vm.translate (d.toNat + w.toNat) = some (e.memoryPtr + ((d - e.guestPhys) + w)) ∧
      vm.Mapped (e.memoryPtr + ((d - e.guestPhys) + w)) := by
  obtain ⟨-, hb⟩ := isBacked_of_readable h he ht
  have hhost := hostAddress_toNat hb.hasMapping hin hw
  have hm := mapped_inside hb.hasMapping hin hw
  have hwrap := hb.noWrap
  rw [UInt64.lt_iff_toNat_lt, memLimit_toNat hin] at hw
  obtain ⟨hlow, hhigh⟩ := hin
  simp only [MemoryEntry.span] at hlow hhigh hw
  constructor
  · have hat : vm.entryAt isReadable (d.toNat + w.toNat) = some e :=
      (entryAt_iff h.ranges).mpr ⟨he, ht, by constructor <;> simp only [MemoryEntry.span] <;> omega⟩
    rw [translate, hat, Option.map_some]
    refine congrArg some (UInt64.toNat_inj.mp ?_)
    rw [hhost, UInt64.toNat_add, UInt64.toNat_ofNat']
    omega
  · exact hm

/-- No two physical addresses share a host address. -/
theorem translate_inj (h : vm.Backed) (a a' : Nat) (p : UInt64)
    (ha : vm.translate a = some p) (ha' : vm.translate a' = some p) : a = a' := by
  obtain ⟨e, he, hp⟩ := Option.map_eq_some_iff.mp ha
  obtain ⟨f, hf, hp'⟩ := Option.map_eq_some_iff.mp ha'
  obtain ⟨hemem, het, hein⟩ := (entryAt_iff h.ranges).mp he
  obtain ⟨hfmem, hft, hfin⟩ := (entryAt_iff h.ranges).mp hf
  obtain ⟨heu, heb⟩ := isBacked_of_readable h hemem het
  obtain ⟨hfu, hfb⟩ := isBacked_of_readable h hfmem hft
  have hhost : ∀ {e : MemoryEntry} {a : Nat}, vm.IsBacked e → e.span.Contains a →
      e.memoryPtr + UInt64.ofNat (a - e.guestPhys.toNat) = p →
        p.toNat = e.memoryPtr.toNat + (a - e.guestPhys.toNat) ∧ e.hostSpan.Contains p.toNat := by
    intro e a hb hin hp
    have hlt : a - e.guestPhys.toNat < e.size.toNat := hin.offset_lt
    have hwrap := hb.noWrap
    have heq : p.toNat = e.memoryPtr.toNat + (a - e.guestPhys.toNat) := by
      rw [← hp, UInt64.toNat_add, UInt64.toNat_ofNat']
      omega
    exact ⟨heq, heq ▸ Span.contains_add hlt⟩
  obtain ⟨hpe, hpein⟩ := hhost heb hein hp
  obtain ⟨hpf, hpfin⟩ := hhost hfb hfin hp'
  -- in one entry the offset decides; two entries share no host byte
  by_cases hef : e = f
  · subst hef
    have := hein.1
    have := hfin.1
    simp only [MemoryEntry.span] at *
    omega
  · exact absurd hpfin (h.hosts.forall hemem hfmem hef heu hfu p.toNat hpein)

end Inside

/-! ## The loops -/

section Loops
variable {d : UInt64}

/-- A byte stored at the host address of a physical one is a byte stored in the view. -/
theorem view_storeByte (h : vm.Backed) {a : Nat} {p : UInt64} (ha : vm.translate a = some p)
    (hm : vm.Mapped p) (host : HostMemory) (b : UInt8) :
    ∃ host', storeByte vm host p b = .ok host' ∧
      view vm.translate host' = overwrite (view vm.translate host) a [b] :=
  ⟨_, if_pos hm, view_store (translate_inj h) ha host b⟩

/-- The next index of a loop that has not reached its limit. -/
theorem index_succ {w limit : UInt64} (hw : w < limit) : (w + 1).toNat = w.toNat + 1 := by
  have := limit.toNat_lt
  rw [UInt64.lt_iff_toNat_lt] at hw
  rw [UInt64.toNat_add, Nat.mod_eq_of_lt]
  · rfl
  · show w.toNat + 1 < 2 ^ 64
    omega

/-- The loop of `memory_write`, with `written` bytes behind it, overwrites the bytes up to
the end of the entry or of the buffer. -/
theorem memoryWriteLoop_spec (h : vm.Backed) (he : e ∈ vm.memoryEntries)
    (ht : isReadable e.type = true) (hin : e.span.Contains d.toNat) (host : HostMemory)
    (written : UInt64) (buffer : List UInt8) :
    ∃ host' written', memoryWriteLoop vm e.memoryPtr (d - e.guestPhys)
        (e.size - (d - e.guestPhys)) host written buffer = .ok (host', written') ∧
      written'.toNat = written.toNat +
        (buffer.take ((e.size - (d - e.guestPhys)).toNat - written.toNat)).length ∧
      view vm.translate host' = overwrite (view vm.translate host) (d.toNat + written.toNat)
        (buffer.take ((e.size - (d - e.guestPhys)).toNat - written.toNat)) := by
  induction buffer generalizing host written with
  | nil =>
      refine ⟨host, written, rfl, by simp, ?_⟩
      rw [List.take_nil, overwrite_nil]
  | cons b rest ih =>
      by_cases hw : written < e.size - (d - e.guestPhys)
      -- a byte before the end of the entry: it is stored, and the rest follows it
      · obtain ⟨htr, hm⟩ := translate_inside h he ht hin hw
        obtain ⟨host₁, hstore, hview₁⟩ := view_storeByte h htr hm host b
        have hsucc := index_succ hw
        obtain ⟨host', written', hloop, hlen, hview⟩ := ih host₁ (written + 1)
        rw [UInt64.lt_iff_toNat_lt] at hw
        obtain ⟨k, hk⟩ := Nat.exists_eq_add_of_lt hw
        have htake : (b :: rest).take ((e.size - (d - e.guestPhys)).toNat - written.toNat) =
            b :: rest.take ((e.size - (d - e.guestPhys)).toNat - (written + 1).toNat) := by
          rw [hsucc, hk, show written.toNat + k + 1 - written.toNat = k + 1 by omega,
            show written.toNat + k + 1 - (written.toNat + 1) = k by omega, List.take_succ_cons]
        refine ⟨host', written', ?_, ?_, ?_⟩
        · rw [memoryWriteLoop, if_pos (UInt64.lt_iff_toNat_lt.mpr hw), hstore, ok_bind, hloop]
        · rw [hlen, htake, hsucc, List.length_cons]
          omega
        · rw [hview, htake, overwrite_cons, hview₁, hsucc, Nat.add_assoc]
      · refine ⟨host, written, by rw [memoryWriteLoop, if_neg hw], ?_, ?_⟩
        · rw [UInt64.lt_iff_toNat_lt] at hw
          rw [Nat.sub_eq_zero_of_le (Nat.le_of_not_lt hw), List.take_zero]
          rfl
        · rw [UInt64.lt_iff_toNat_lt] at hw
          rw [Nat.sub_eq_zero_of_le (Nat.le_of_not_lt hw), List.take_zero, overwrite_nil]

/-- The loop of `memory_read`, with `read` bytes behind it, reads the bytes up to the end
of the entry or of the buffer, and all of them have a value in the view. -/
theorem memoryReadLoop_spec (h : vm.Backed) (he : e ∈ vm.memoryEntries)
    (ht : isReadable e.type = true) (hin : e.span.Contains d.toNat) (host : HostMemory)
    (read : UInt64) (left : Nat) :
    ∃ bytes read', memoryReadLoop vm e.memoryPtr (d - e.guestPhys) (e.size - (d - e.guestPhys))
        host read left = .ok (bytes, read') ∧
      bytes.map some = (List.range (min left ((e.size - (d - e.guestPhys)).toNat - read.toNat))).map
        (fun i => view vm.translate host (d.toNat + read.toNat + i)) ∧
      read'.toNat = read.toNat + min left ((e.size - (d - e.guestPhys)).toNat - read.toNat) := by
  induction left generalizing read with
  | zero => exact ⟨[], read, rfl, by rw [Nat.zero_min]; rfl, by rw [Nat.zero_min]; rfl⟩
  | succ left ih =>
      by_cases hr : read < e.size - (d - e.guestPhys)
      -- a byte before the end of the entry: it is loaded, and the rest follows it
      · obtain ⟨htr, hm⟩ := translate_inside h he ht hin hr
        have hsucc := index_succ hr
        obtain ⟨bytes, read', hloop, hbytes, hlen⟩ := ih (read + 1)
        have hlt := UInt64.lt_iff_toNat_lt.mp hr
        have hmin : min (left + 1) ((e.size - (d - e.guestPhys)).toNat - read.toNat) =
            min left ((e.size - (d - e.guestPhys)).toNat - (read + 1).toNat) + 1 := by
          omega
        have hload : loadByte vm host (e.memoryPtr + ((d - e.guestPhys) + read)) = .ok _ :=
          if_pos hm
        have hfirst : view vm.translate host (d.toNat + read.toNat + 0) =
            some (host (e.memoryPtr + ((d - e.guestPhys) + read))) := by
          rw [Nat.add_zero, view, htr, Option.map_some]
        refine ⟨host (e.memoryPtr + ((d - e.guestPhys) + read)) :: bytes, read', ?_, ?_, by omega⟩
        · rw [memoryReadLoop, if_pos hr, hload, ok_bind, hloop, ok_bind]
        · rw [hmin, List.range_succ_eq_map, List.map_cons, List.map_cons, hbytes, hfirst,
            List.map_map]
          simp only [Function.comp_def, hsucc, Nat.succ_eq_add_one, Nat.add_assoc, Nat.add_comm 1]
      · have hz : (e.size - (d - e.guestPhys)).toNat - read.toNat = 0 :=
          Nat.sub_eq_zero_of_le (Nat.le_of_not_lt (mt UInt64.lt_iff_toNat_lt.mpr hr))
        refine ⟨[], read, by rw [memoryReadLoop, if_neg hr], ?_, ?_⟩
        · rw [hz, Nat.min_zero]
          rfl
        · rw [hz, Nat.min_zero]
          rfl

end Loops

/-! ## The accesses -/

/-- A count below 2^63 is returned as it is. -/
theorem toInt64_toInt {w : UInt64} (h : w.toNat < 2 ^ 63) : w.toInt64.toInt = w.toNat :=
  BitVec.toInt_eq_toNat_of_lt (by show 2 * w.toNat < 2 ^ 64; omega)

theorem isReadable_of_isWritable {type : UInt32} (h : isWritable type = true) :
    isReadable type = true := by
  rw [isReadable, show (type == memoryUsable) = true from h, Bool.true_or]

/-- The entry an access finds, if its type is one the access takes. -/
theorem entryAt_cases (h : vm.Backed) (types : UInt32 → Bool) (addr : UInt64) :
    (vm.entryAt types addr.toNat = none ∧ ∀ e, findEntry vm addr = some e → types e.type = false) ∨
    ∃ e, findEntry vm addr = some e ∧ types e.type = true ∧ vm.entryAt types addr.toNat = some e ∧
      e ∈ vm.memoryEntries ∧ e.span.Contains addr.toNat := by
  rw [entryAt_eq h]
  cases hf : findEntry vm addr with
  | none => exact Or.inl ⟨rfl, fun e he => by cases he⟩
  | some e =>
      obtain ⟨hmem, hin⟩ := findEntry_some h.fit hf
      by_cases ht : types e.type = true
      · exact Or.inr ⟨e, rfl, ht, by rw [Option.filter_some, if_pos ht], hmem, hin⟩
      · refine Or.inl ⟨by rw [Option.filter_some, if_neg ht], fun f hf => ?_⟩
        cases hf
        exact Bool.eq_false_iff.mpr ht

/-- `memory_write` overwrites the bytes up to the end of the entry. -/
theorem memoryWrite_simulates (h : vm.Backed) (host : HostMemory) (dest : UInt64)
    (buffer : List UInt8) :
    ∃ host', vm.access host (.write dest buffer) =
        .ok (host', ((vm.flat host).access (.write dest buffer)).2) ∧
      vm.flat host' = ((vm.flat host).access (.write dest buffer)).1 := by
  obtain ⟨hnone, htypes⟩ | ⟨e, hf, ht, hat, hmem, hin⟩ := entryAt_cases h isWritable dest
  · have hw : memoryWrite vm host dest buffer = .ok (host, -1) := by
      unfold memoryWrite
      cases hf : findEntry vm dest with
      | none => rfl
      | some e => exact if_pos (ne_of_beq_false (htypes e hf))
    have hspec : (vm.flat host).access (.write dest buffer) = (vm.flat host, .written (-1)) := by
      simp only [GuestMemory.access, flat, hnone, Option.map_none]
    rw [hspec]
    exact ⟨host, by rw [access, hw]; rfl, rfl⟩
  · have htr := isReadable_of_isWritable ht
    obtain ⟨-, hb⟩ := isBacked_of_readable h hmem htr
    obtain ⟨host', written, hloop, hlen, hview⟩ := memoryWriteLoop_spec h hmem htr hin host 0 buffer
    have hzero : (0 : UInt64).toNat = 0 := rfl
    rw [hzero, Nat.sub_zero, memLimit_toNat hin] at hlen hview
    rw [Nat.add_zero] at hview
    rw [Nat.zero_add] at hlen
    have hw : memoryWrite vm host dest buffer = .ok (host', written.toInt64) := by
      have htype : ¬ e.type ≠ memoryUsable := not_not.mpr (eq_of_beq ht)
      simp only [memoryWrite, hf, if_neg htype, hloop]
      rfl
    have hspec : (vm.flat host).access (.write dest buffer) =
        ({ vm.flat host with
            cells := overwrite (view vm.translate host) dest.toNat
              (buffer.take (e.span.base + e.span.size - dest.toNat)) },
          .written (buffer.take (e.span.base + e.span.size - dest.toNat)).length) := by
      simp only [GuestMemory.access, flat, hat, Option.map_some]
    -- the count is at most the size of the entry, so the cast to `s64` keeps it
    have hsmall : written.toNat < 2 ^ 63 := by
      have hsize := hb.size_lt
      have hlow := hin.1
      rw [hlen, List.length_take]
      simp only [MemoryEntry.span] at hlow ⊢
      omega
    rw [hspec]
    refine ⟨host', ?_, ?_⟩
    · simp only [access, hw, ok_bind, toInt64_toInt hsmall, hlen]
    · rw [flat, hview]
      rfl

/-- `memory_read` reads the bytes up to the end of the entry. -/
theorem memoryRead_simulates (h : vm.Backed) (host : HostMemory) (srcPhys size : UInt64) :
    vm.access host (.read srcPhys size) =
        .ok (host, ((vm.flat host).access (.read srcPhys size)).2) ∧
      vm.flat host = ((vm.flat host).access (.read srcPhys size)).1 := by
  obtain ⟨hnone, htypes⟩ | ⟨e, hf, ht, hat, hmem, hin⟩ := entryAt_cases h isReadable srcPhys
  · have hr : memoryRead vm host srcPhys size = .ok ([], -1) := by
      unfold memoryRead
      cases hf : findEntry vm srcPhys with
      | none => rfl
      | some e =>
          obtain ⟨hu, hfb⟩ := Bool.or_eq_false_iff.mp (htypes e hf)
          exact if_pos ⟨ne_of_beq_false hu, ne_of_beq_false hfb⟩
    have hspec : (vm.flat host).access (.read srcPhys size) = (vm.flat host, .read [] (-1)) := by
      simp only [GuestMemory.access, flat, hnone, Option.map_none]
    rw [hspec]
    exact ⟨by rw [access, hr]; rfl, rfl⟩
  · obtain ⟨-, hb⟩ := isBacked_of_readable h hmem ht
    obtain ⟨bytes, read, hloop, hbytes, hlen⟩ :=
      memoryReadLoop_spec h hmem ht hin host 0 size.toNat
    have hzero : (0 : UInt64).toNat = 0 := rfl
    rw [hzero, Nat.sub_zero, memLimit_toNat hin] at hbytes hlen
    rw [Nat.zero_add] at hlen
    have hr : memoryRead vm host srcPhys size = .ok (bytes, read.toInt64) := by
      have htype : ¬ (e.type ≠ memoryUsable ∧ e.type ≠ memoryFramebuffer) := by
        rintro ⟨hu, hfb⟩
        rcases Bool.or_eq_true_iff.mp ht with hu' | hfb'
        · exact hu (eq_of_beq hu')
        · exact hfb (eq_of_beq hfb')
      simp only [memoryRead, hf, if_neg htype, hloop]
      rfl
    have hspec : (vm.flat host).access (.read srcPhys size) =
        (vm.flat host,
          .read ((List.range (min size.toNat (e.span.base + e.span.size - srcPhys.toNat))).map
            fun i => view vm.translate host (srcPhys.toNat + i))
            (min size.toNat (e.span.base + e.span.size - srcPhys.toNat) : Nat)) := by
      simp only [GuestMemory.access, flat, hat, Option.map_some]
    have hsmall : read.toNat < 2 ^ 63 := by
      have hsize := hb.size_lt
      have hlow := hin.1
      rw [hlen]
      simp only [MemoryEntry.span] at hlow ⊢
      omega
    rw [hspec]
    refine ⟨?_, rfl⟩
    simp only [access, hr, ok_bind, toInt64_toInt hsmall, hlen, hbytes, Nat.add_zero]

/-- The pointer `memory_get_ptr` returns: `NULL`, or the translation of the address,
and then it can be used. -/
theorem memoryGetPtr_cases (h : vm.Backed) (addr : UInt64) :
    (memoryGetPtr vm addr = 0 ∧ vm.entryAt isWritable addr.toNat = none) ∨
    ∃ e, memoryGetPtr vm addr ≠ 0 ∧ vm.entryAt isWritable addr.toNat = some e ∧
      vm.translate addr.toNat = some (memoryGetPtr vm addr) ∧ vm.Mapped (memoryGetPtr vm addr) := by
  obtain ⟨hnone, htypes⟩ | ⟨e, hf, ht, hat, hmem, hin⟩ := entryAt_cases h isWritable addr
  · refine Or.inl ⟨?_, hnone⟩
    unfold memoryGetPtr
    cases hf : findEntry vm addr with
    | none => rfl
    | some e => exact if_pos (ne_of_beq_false (htypes e hf))
  · have htr := isReadable_of_isWritable ht
    obtain ⟨-, hb⟩ := isBacked_of_readable h hmem htr
    have hptr : memoryGetPtr vm addr = e.memoryPtr + ((addr - e.guestPhys) + 0) := by
      simp only [memoryGetPtr, hf, if_neg (not_not.mpr (eq_of_beq ht)), UInt64.add_zero]
    have hw : (0 : UInt64) < e.size - (addr - e.guestPhys) := by
      have hhigh := hin.2
      rw [UInt64.lt_iff_toNat_lt, memLimit_toNat hin]
      exact Nat.sub_pos_of_lt hhigh
    have hne : memoryGetPtr vm addr ≠ 0 := by
      rw [hptr, UInt64.add_zero]
      exact pointer_ne_zero hb.hasMapping hin
    obtain ⟨htrans, hmapped⟩ := translate_inside h hmem htr hin hw
    refine Or.inr ⟨e, hne, hat, ?_, ?_⟩
    · rw [hptr]
      exact htrans
    · rw [hptr]
      exact hmapped

/-- A byte stored through a pointer is a byte stored in the flat memory. -/
theorem store_simulates (h : vm.Backed) (host : HostMemory) (addr : UInt64) (b : UInt8) :
    ∃ host', vm.access host (.store addr b) =
        .ok (host', ((vm.flat host).access (.store addr b)).2) ∧
      vm.flat host' = ((vm.flat host).access (.store addr b)).1 := by
  obtain ⟨hz, hnone⟩ | ⟨e, hne, hat, htrans, hmapped⟩ := memoryGetPtr_cases h addr
  · refine ⟨host, ?_, ?_⟩
    · simp only [access, hz, if_true, GuestMemory.access, flat, hnone, Option.map_none]
    · simp only [GuestMemory.access, flat, hnone, Option.map_none]
  · obtain ⟨host', hstore, hview⟩ := view_storeByte h htrans hmapped host b
    refine ⟨host', ?_, ?_⟩
    · simp only [access, if_neg hne, hstore, ok_bind, GuestMemory.access, flat, hat,
        Option.map_some]
    · simp only [GuestMemory.access, flat, hat, Option.map_some, hview]

/-- A byte loaded through a pointer is the byte of the flat memory. -/
theorem load_simulates (h : vm.Backed) (host : HostMemory) (addr : UInt64) :
    vm.access host (.load addr) = .ok (host, ((vm.flat host).access (.load addr)).2) ∧
      vm.flat host = ((vm.flat host).access (.load addr)).1 := by
  obtain ⟨hz, hnone⟩ | ⟨e, hne, hat, htrans, hmapped⟩ := memoryGetPtr_cases h addr
  · refine ⟨?_, ?_⟩
    · simp only [access, hz, if_true, GuestMemory.access, flat, hnone, Option.map_none]
    · simp only [GuestMemory.access, flat, hnone, Option.map_none]
  · have hload : loadByte vm host (memoryGetPtr vm addr) = .ok (host (memoryGetPtr vm addr)) :=
      if_pos hmapped
    refine ⟨?_, ?_⟩
    · simp only [access, if_neg hne, hload, ok_bind, GuestMemory.access, flat, hat,
        Option.map_some, view, htrans]
    · simp only [GuestMemory.access, flat, hat, Option.map_some]

/-- **Every access does what it does to the flat memory.** -/
theorem access_simulates (h : vm.Backed) (host : HostMemory) (a : MemoryAccess) :
    ∃ host', vm.access host a = .ok (host', ((vm.flat host).access a).2) ∧
      vm.flat host' = ((vm.flat host).access a).1 := by
  cases a with
  | write dest buffer => exact memoryWrite_simulates h host dest buffer
  | read srcPhys size => exact ⟨host, memoryRead_simulates h host srcPhys size⟩
  | store addr b => exact store_simulates h host addr b
  | load addr => exact ⟨host, load_simulates h host addr⟩

end Vm

/-! ## Every run -/

/-- What is asked of an allocation: the host serves it, and an MMIO range that is
accepted fits in 64 bits. -/
def AllocCall.Served (vm : Vm) (c : AllocCall) : Prop := vm.HostServes c ∧ vm.MmioFits c

/-- **Guest memory is flat.**  After any calls of `memory_alloc`, no two entries share an
address, and any accesses answer, and leave the memory, as the same accesses to the flat
memory do. -/
theorem guest_memory_is_flat {calls : List AllocCall}
    (hcalls : Runs.EachStep Vm.alloc AllocCall.Served Vm.new calls) (host : HostMemory)
    (accesses : List MemoryAccess) :
    ∃ vm, Runs.run Vm.alloc Vm.new calls = .ok vm ∧ vm.RangesDisjoint ∧
      ∃ host', Runs.trace vm.access host accesses =
          .ok (host', (Runs.traceTotal GuestMemory.access (vm.flat host) accesses).2) ∧
        vm.flat host' = (Runs.traceTotal GuestMemory.access (vm.flat host) accesses).1 := by
  obtain ⟨vm, hrun, hb⟩ := Runs.run_of_eachStep
    (fun _ _ h hs => Vm.alloc_backed h hs.1 hs.2) Vm.backed_new hcalls
  refine ⟨vm, hrun, hb.ranges, ?_⟩
  refine Runs.trace_simulates GuestMemory.access (fun host m => vm.flat host = m) ?_ rfl accesses
  rintro host m a rfl
  exact Vm.access_simulates hb host a

/-- Two RAM ranges whose mappings touch, and an MMIO range: a write up to the end of the
first one, a store and a load in the second, and reads of both. -/
theorem guest_memory_is_flat_three :
    let host : HostMemory := fun _ => 0
    let accesses : List MemoryAccess :=
      [.write 0xFFE [1, 2, 3], .store 0x8000 4, .load 0x8000, .read 0x8000 2, .read 0xFFF 8]
    ∃ vm, Runs.run Vm.alloc Vm.new
        [⟨0, 0x1000, memoryUsable, ⟨true, 0x7F0000001000, true, true⟩⟩,
          ⟨0xC0000000, 0x1000, memoryMmio, ⟨true, 0, true, true⟩⟩,
          ⟨0x8000, 0x1000, memoryFramebuffer, ⟨true, 0x7F0000000000, true, true⟩⟩] = .ok vm ∧
      vm.RangesDisjoint ∧
      ∃ host', Runs.trace vm.access host accesses =
          .ok (host', (Runs.traceTotal GuestMemory.access (vm.flat host) accesses).2) ∧
        vm.flat host' = (Runs.traceTotal GuestMemory.access (vm.flat host) accesses).1 := by
  intro host accesses
  refine guest_memory_is_flat ?_ host _
  refine .cons ⟨⟨rfl, rfl, fun _ _ => ⟨by decide, by decide, by decide, ?_⟩, fun _ _ => ?_⟩, ?_⟩
    rfl ?_
  · exact fun m hm => absurd hm List.not_mem_nil
  · exact ⟨by unfold AllocCall.Fits; decide, by decide⟩
  · exact fun hc => absurd hc (by decide)
  refine .cons ⟨⟨rfl, rfl, fun _ hc => absurd hc (by decide), fun hc => absurd hc (by decide)⟩, ?_⟩
    rfl ?_
  · exact fun _ _ _ _ => by unfold AllocCall.Fits; decide
  refine .cons ⟨⟨rfl, rfl, fun _ _ => ⟨by decide, by decide, by decide, ?_⟩, fun _ _ => ?_⟩, ?_⟩ rfl
    trivial
  · intro m hm
    cases List.mem_singleton.mp (show m ∈ [(0x7F0000001000, 0x1000)] from hm)
    exact (Span.disjoint_of_le (by decide)).symm
  · exact ⟨by unfold AllocCall.Fits; decide, by decide⟩
  · exact fun hc => absurd hc (by decide)

end BlackHV
