import BlackHV.GuestMemory
import BlackHV.LinkedListGrowth

/-! # What the guest is told of its memory

`e820_table_get` sizes the table by the size counter of the list and fills it by a walk
along `next`.  `memory_get_ptr` and `memory_write` look an address up in the same list
and test the type of what they find.  `E820Agrees` says that the two tell the same, of
every address.
-/
namespace BlackHV

open Spans Chains

/-- `E820_USABLE`. -/
def e820Usable : UInt32 := 0x1
/-- `E820_RESERVED`. -/
def e820Reserved : UInt32 := 0x2

/-- `struct e820_entry`. -/
structure E820Entry where
  baseAddress : UInt64
  size : UInt64
  type : UInt32
  deriving DecidableEq

/-- The entry of the table for one of the map. -/
def e820Entry (map : MemoryEntry) : E820Entry :=
  { baseAddress := map.guestPhys
    size := map.size
    type := if map.type = memoryUsable then e820Usable else e820Reserved }

/-- The loop of `e820_table_get`, with `left` entries of the table to go: those entries,
`none` where it stores nothing. -/
def e820Fill (list : LinkedList MemoryEntry) :
    Option Nat → Nat → Except Fault (List (Option E820Entry))
  | none, left => .ok (List.replicate left none)
  | some _, 0 => .ok []
  | some current, left + 1 => do
      let map ← list.loadValue (some current)
      let next ← list.loadNext (some current)
      let rest ← e820Fill list next left
      .ok (some (e820Entry map) :: rest)

/-- `e820_table_get`.  `table` and `entries` tell whether `malloc` has a block for the
table, and for its entries. -/
def e820TableGet (memoryEntries : LinkedList MemoryEntry) (table entries : Bool) :
    Except Fault (Option (List (Option E820Entry))) :=
  if table && entries then do
    let filled ← e820Fill memoryEntries memoryEntries.head memoryEntries.size.toNat
    .ok (some filled)
  else
    .ok none

section Table
variable {list : LinkedList MemoryEntry} {nodes : List Nat} {entries : List MemoryEntry}

/-- Where the list is as long as the table, or longer, the loop fills the table. -/
theorem e820Fill_spec {p : Option Nat} (hn : Chain list.heap.next p nodes)
    (hv : nodes.map list.heap.value = entries.map some) {left : Nat}
    (hleft : left ≤ entries.length) :
    e820Fill list p left = .ok ((entries.take left).map fun e => some (e820Entry e)) := by
  induction entries generalizing p nodes left with
  | nil =>
      rw [List.map_nil, List.map_eq_nil_iff] at hv
      subst hv
      rw [Nat.le_zero.mp hleft, show p = none from hn]
      rfl
  | cons e entries ih =>
      cases nodes with
      | nil => cases hv
      | cons a nodes =>
          obtain ⟨rfl, q, hq, hrest⟩ := hn
          obtain ⟨hva, hv⟩ := List.cons.inj hv
          cases left with
          | zero => rfl
          | succ left =>
              obtain ⟨elt, helt⟩ := LinkedListHeap.exists_of_next hq
              rw [LinkedListHeap.next_eq helt] at hq
              rw [LinkedListHeap.value_eq helt] at hva
              rw [e820Fill, LinkedList.loadValue_ok helt, ok_bind, LinkedList.loadNext_ok helt,
                ok_bind, Option.some.inj hq, ih hrest hv (Nat.le_of_succ_le_succ hleft), ok_bind,
                Option.some.inj hva]
              rfl

/-- The table is as long as the size counter says, and all of it is filled. -/
theorem e820TableGet_spec (h : list.Holds nodes entries) :
    e820TableGet list true true =
      .ok (some ((entries.take (entries.length % 2 ^ 32)).map fun e => some (e820Entry e))) := by
  have hsize : list.size.toNat = entries.length % 2 ^ 32 := by
    rw [h.size, UInt32.toNat_ofNat']
  rw [e820TableGet, if_pos (by rfl), hsize,
    e820Fill_spec h.next h.value (Nat.mod_le _ _), ok_bind]

/-- The list of some entries, and the table made from it. -/
theorem e820TableGet_addAll {entries : List MemoryEntry} {nodes : List Nat}
    (hnodup : nodes.Nodup) (hlen : nodes.length = entries.length)
    {new : LinkedList MemoryEntry} (hnew : linkedListNew MemoryEntry true true = some new) :
    ∃ list, linkedListAddAll new (entries.zip nodes) = .ok list ∧
      e820TableGet list true true =
        .ok (some ((entries.take (entries.length % 2 ^ 32)).map fun e => some (e820Entry e))) := by
  have hfst : (entries.zip nodes).map Prod.fst = entries :=
    List.map_fst_zip (Nat.le_of_eq hlen.symm)
  have hsnd : (entries.zip nodes).map Prod.snd = nodes := List.map_snd_zip (Nat.le_of_eq hlen)
  have hfresh : ([] ++ (entries.zip nodes).map Prod.snd).Nodup := by
    rwa [hsnd, List.nil_append]
  obtain ⟨list, hadd, hlist⟩ := (LinkedList.holds_new hnew).addAll hfresh
  rw [hfst, hsnd, List.nil_append, List.nil_append] at hlist
  exact ⟨list, hadd, e820TableGet_spec hlist⟩

end Table

/-! ## The table and the access functions -/

/-- The addresses of an entry of the table. -/
def E820Entry.span (entry : E820Entry) : Span := ⟨entry.baseAddress.toNat, entry.size.toNat⟩

/-- The address lies in an entry of the table of this type. -/
def LiesIn (table : List (Option E820Entry)) (type : UInt32) (a : UInt64) : Prop :=
  ∃ entry, some entry ∈ table ∧ entry.type = type ∧ entry.span.Contains a.toNat

/-- The table tells of every address what the access functions do there.  A buffer is
shorter than the address space, so its length is not what `memory_write` returns on
failure. -/
structure E820Agrees (vm : Vm) (table : List (Option E820Entry)) : Prop where
  pointer : ∀ a, LiesIn table e820Usable a ↔ memoryGetPtr vm a ≠ 0
  write : ∀ a host (buffer : List UInt8), buffer.length < 2 ^ 64 - 1 →
    ∃ host' result, memoryWrite vm host a buffer = .ok (host', result) ∧
      (LiesIn table e820Usable a ↔ result ≠ -1) ∧
      (LiesIn table e820Reserved a ↔ (∃ e, findEntry vm a = some e) ∧ result = -1)
  absent : ∀ a, (∀ entry, some entry ∈ table → ¬ entry.span.Contains a.toNat) ↔
    findEntry vm a = none
  disjoint : table.Pairwise fun x y => ∀ entry entry', x = some entry → y = some entry' →
    entry.span.Disjoint entry'.span

namespace Vm
variable {vm : Vm} {e : MemoryEntry} {a : UInt64}

/-- `find_entry` returns the entry whose range has the address. -/
theorem findEntry_iff (h : vm.Furnished) :
    findEntry vm a = some e ↔ e ∈ vm.memoryEntries ∧ e.span.Contains a.toNat :=
  ⟨findEntry_some h.fit, fun ⟨hmem, hin⟩ => (unambiguous h.fit h.ranges).found a e hmem hin⟩

/-- The map finds an entry of type USABLE at the address. -/
def FindsUsable (vm : Vm) (a : UInt64) : Prop :=
  ∃ e, findEntry vm a = some e ∧ e.type = memoryUsable

/-- A USABLE entry of the table is one of the map. -/
theorem liesIn_usable_iff (h : vm.Furnished) :
    LiesIn (vm.memoryEntries.map fun e => some (e820Entry e)) e820Usable a ↔ vm.FindsUsable a := by
  constructor
  · rintro ⟨_, hmem, ht, hin⟩
    obtain ⟨e, he, heq⟩ := List.mem_map.mp hmem
    cases heq
    refine ⟨e, (findEntry_iff h).mpr ⟨he, hin⟩, Classical.byContradiction fun hne => ?_⟩
    simp only [e820Entry, if_neg hne] at ht
    exact absurd ht (by decide)
  · rintro ⟨e, hf, ht⟩
    obtain ⟨he, hin⟩ := (findEntry_iff h).mp hf
    refine ⟨e820Entry e, List.mem_map_of_mem he, ?_, hin⟩
    simp only [e820Entry, if_pos ht]

theorem liesIn_reserved_iff (h : vm.Furnished) :
    LiesIn (vm.memoryEntries.map fun e => some (e820Entry e)) e820Reserved a ↔
      (∃ e, findEntry vm a = some e) ∧ ¬ vm.FindsUsable a := by
  constructor
  · rintro ⟨_, hmem, ht, hin⟩
    obtain ⟨e, he, heq⟩ := List.mem_map.mp hmem
    cases heq
    have hf := (findEntry_iff h).mpr ⟨he, hin⟩
    refine ⟨⟨e, hf⟩, fun ⟨f, hf', ht'⟩ => ?_⟩
    rw [hf] at hf'
    cases hf'
    simp only [e820Entry, if_pos ht'] at ht
    exact absurd ht (by decide)
  · rintro ⟨⟨e, hf⟩, hnot⟩
    obtain ⟨he, hin⟩ := (findEntry_iff h).mp hf
    refine ⟨e820Entry e, List.mem_map_of_mem he, ?_, hin⟩
    simp only [e820Entry, if_neg fun ht => hnot ⟨e, hf, ht⟩]

/-- `memory_get_ptr` has a pointer into the USABLE entries. -/
theorem memoryGetPtr_ne_zero_iff (h : vm.Furnished) : memoryGetPtr vm a ≠ 0 ↔ vm.FindsUsable a := by
  unfold memoryGetPtr
  cases hf : findEntry vm a with
  | none =>
      refine ⟨fun hne => absurd rfl hne, fun ⟨e, he, _⟩ => ?_⟩
      rw [hf] at he
      cases he
  | some e =>
      obtain ⟨hmem, hin⟩ := findEntry_some h.fit hf
      by_cases ht : e.type = memoryUsable
      · refine iff_of_true ?_ ⟨e, hf, ht⟩
        rcases h.kinds e hmem with hmmio | ⟨-, hb⟩
        · rw [ht] at hmmio
          exact absurd hmmio (by decide)
        · simp only [if_neg (not_not.mpr ht)]
          exact pointer_ne_zero hb hin
      · refine iff_of_false (fun hne => hne (if_pos ht)) fun ⟨f, hf', ht'⟩ => ?_
        rw [hf] at hf'
        cases hf'
        exact ht ht'

/-- The loop of `memory_write` stays in the mapping, and stores no more than the buffer
has. -/
theorem memoryWriteLoop_le (hb : vm.HasMapping e) (hin : e.span.Contains a.toNat)
    (host : HostMemory) (written : UInt64) (buffer : List UInt8) :
    ∃ host' written', memoryWriteLoop vm e.memoryPtr (a - e.guestPhys)
        (e.size - (a - e.guestPhys)) host written buffer = .ok (host', written') ∧
      written'.toNat ≤ written.toNat + buffer.length := by
  induction buffer generalizing host written with
  | nil => exact ⟨host, written, rfl, Nat.le_refl _⟩
  | cons b rest ih =>
      by_cases hw : written < e.size - (a - e.guestPhys)
      · have hstore : storeByte vm host (e.memoryPtr + ((a - e.guestPhys) + written)) b = .ok _ :=
          if_pos (mapped_inside hb hin hw)
        obtain ⟨host', written', hloop, hle⟩ := ih _ (written + 1)
        refine ⟨host', written', by rw [memoryWriteLoop, if_pos hw, hstore, ok_bind, hloop], ?_⟩
        rw [index_succ hw] at hle
        rw [List.length_cons]
        omega
      · exact ⟨host, written, by rw [memoryWriteLoop, if_neg hw], Nat.le_add_right ..⟩

/-- A count below 2^64 - 1 is not -1 as an `s64`. -/
theorem toInt64_ne {w : UInt64} (h : w.toNat < 2 ^ 64 - 1) : w.toInt64 ≠ -1 := by
  intro he
  have hw := congrArg (fun i : Int64 => i.toUInt64.toNat) he
  simp only [UInt64.toInt64] at hw
  rw [hw] at h
  exact absurd h (by decide)

/-- `memory_write` fails outside the USABLE entries, and nowhere else. -/
theorem memoryWrite_result (h : vm.Furnished) (host : HostMemory) {buffer : List UInt8}
    (hlen : buffer.length < 2 ^ 64 - 1) :
    ∃ host' result, memoryWrite vm host a buffer = .ok (host', result) ∧
      (vm.FindsUsable a ↔ result ≠ -1) := by
  by_cases hu : vm.FindsUsable a
  · obtain ⟨e, hf, ht⟩ := hu
    obtain ⟨hmem, hin⟩ := findEntry_some h.fit hf
    rcases h.kinds e hmem with hmmio | ⟨-, hb⟩
    · rw [ht] at hmmio
      exact absurd hmmio (by decide)
    · obtain ⟨host', written, hloop, hle⟩ := memoryWriteLoop_le hb hin host 0 buffer
      refine ⟨host', written.toInt64, ?_, iff_of_true ⟨e, hf, ht⟩ (toInt64_ne ?_)⟩
      · simp only [memoryWrite, hf, if_neg (not_not.mpr ht), hloop]
        rfl
      · rw [show (0 : UInt64).toNat = 0 from rfl, Nat.zero_add] at hle
        omega
  · refine ⟨host, -1, ?_, iff_of_false hu fun hne => hne rfl⟩
    unfold memoryWrite
    cases hf : findEntry vm a with
    | none => rfl
    | some e => exact if_pos fun ht => hu ⟨e, hf, ht⟩

/-- The table of a map whose RAM has mappings agrees with the access functions. -/
theorem e820Agrees (h : vm.Furnished) :
    E820Agrees vm (vm.memoryEntries.map fun e => some (e820Entry e)) where
  pointer := fun a => (liesIn_usable_iff h).trans (memoryGetPtr_ne_zero_iff h).symm
  write := by
    intro a host buffer hlen
    obtain ⟨host', result, he, hiff⟩ := @memoryWrite_result vm a h host buffer hlen
    refine ⟨host', result, he, (liesIn_usable_iff h).trans hiff, (liesIn_reserved_iff h).trans ?_⟩
    rw [hiff, not_not]
  absent := by
    intro a
    constructor
    · intro hnone
      cases hf : findEntry vm a with
      | none => rfl
      | some e =>
          obtain ⟨he, hin⟩ := (findEntry_iff h).mp hf
          exact absurd hin (hnone (e820Entry e) (List.mem_map_of_mem he))
    · intro hf entry hmem hin
      obtain ⟨e, he, heq⟩ := List.mem_map.mp hmem
      cases heq
      rw [(findEntry_iff h).mpr ⟨he, hin⟩] at hf
      cases hf
  disjoint := by
    refine List.pairwise_map.mpr (h.ranges.imp fun hd entry entry' he he' => ?_)
    cases he
    cases he'
    exact hd

end Vm

/-! ## Every history of allocations -/

/-- The map, with the calls of `memory_alloc` that have returned 1. -/
structure AllocHistory where
  vm : Vm
  accepted : List AllocCall

/-- What the table should say of an accepted call. -/
def AllocCall.e820Entry (c : AllocCall) : E820Entry :=
  { baseAddress := c.physAddr
    size := c.size
    type := if c.IsRam then e820Usable else e820Reserved }

namespace AllocHistory

def start : AllocHistory := { vm := Vm.new, accepted := [] }

/-- One call of `memory_alloc`. -/
def step (h : AllocHistory) (c : AllocCall) : Except Fault AllocHistory :=
  let (vm, accepted) := memoryAlloc h.vm c.physAddr c.size c.type c.host
  .ok { vm, accepted := if accepted then h.accepted ++ [c] else h.accepted }

/-- Nothing fails on the host, and a range that is accepted fits in 64 bits. -/
def Allowed (h : AllocHistory) (c : AllocCall) : Prop :=
  h.vm.HostAllocates c ∧ ((memoryAlloc h.vm c.physAddr c.size c.type c.host).2 = true → c.Fits)

/-- RAM has mappings, and the entries are those of the accepted calls, in order. -/
structure Inv (h : AllocHistory) : Prop where
  furnished : h.vm.Furnished
  entries : h.vm.memoryEntries.map BlackHV.e820Entry = h.accepted.map AllocCall.e820Entry

/-- A call of `memory_alloc` returns 1 exactly when it adds an entry, if there is memory
for the node. -/
theorem accepted_iff {vm : Vm} {c : AllocCall} (hn : c.host.node = true) :
    (memoryAlloc vm c.physAddr c.size c.type c.host).2 = (vm.entryAdded c).isSome := by
  unfold Vm.entryAdded
  by_cases hcheck : checkAddrAvailable vm c.physAddr c.size = true
  · rw [if_pos ⟨hcheck, hn⟩]
    cases hmade : vm.entryMade c with
    | none => rw [Vm.memoryAlloc_none hcheck hmade, Option.isSome_none]
    | some e => rw [Vm.memoryAlloc_some hcheck hmade, Option.isSome_some]
  · rw [Vm.memoryAlloc_taken hcheck, if_neg fun h => hcheck h.1, Option.isSome_none]

/-- The entry that a call adds says in the table what the call asked for. -/
theorem e820Entry_added {vm : Vm} {c : AllocCall} {e : MemoryEntry}
    (he : vm.entryAdded c = some e) : BlackHV.e820Entry e = c.e820Entry := by
  obtain ⟨-, -, hphys, hsize, ⟨hram, -, -, -, ht⟩ | ⟨hmmio, -, ht⟩⟩ := Vm.entryAdded_some he
  · simp only [BlackHV.e820Entry, AllocCall.e820Entry, hphys, hsize, ht, if_pos hram, if_true]
  · have hram : ¬ c.IsRam := by
      rw [AllocCall.IsRam, hmmio]
      decide
    have hne : ¬ memoryMmio = memoryUsable := by decide
    simp only [BlackHV.e820Entry, AllocCall.e820Entry, hphys, hsize, ht, if_neg hram, if_neg hne]

theorem inv_start : start.Inv := ⟨Vm.furnished_new, rfl⟩

theorem step_inv {h : AllocHistory} {c : AllocCall} (hi : h.Inv) (ha : h.Allowed c) :
    ∃ h', h.step c = .ok h' ∧ h'.Inv := by
  obtain ⟨hs, hfit⟩ := ha
  have haccepted := @accepted_iff h.vm c hs.node
  refine ⟨_, rfl, Vm.alloc_furnished hi.furnished hs fun hsome => hfit (haccepted.trans hsome), ?_⟩
  show (memoryAlloc h.vm c.physAddr c.size c.type c.host).1.memoryEntries.map _ = List.map _
    (if (memoryAlloc h.vm c.physAddr c.size c.type c.host).2 then h.accepted ++ [c] else h.accepted)
  rw [Vm.memoryEntries_alloc, List.map_append, hi.entries, haccepted]
  cases he : h.vm.entryAdded c with
  | none => rw [Option.toList_none, List.map_nil, List.append_nil]; rfl
  | some e =>
      rw [Option.toList_some, List.map_singleton, e820Entry_added he, Option.isSome_some,
        if_pos rfl, List.map_append, List.map_singleton]

theorem step_length_le {h h' : AllocHistory} {c : AllocCall} (he : h.step c = .ok h') :
    h'.vm.memoryEntries.length ≤ h.vm.memoryEntries.length + 1 := by
  cases he
  show (memoryAlloc h.vm c.physAddr c.size c.type c.host).1.memoryEntries.length ≤ _
  rw [Vm.memoryEntries_alloc, List.length_append]
  exact Nat.add_le_add_left Option.length_toList_le _

end AllocHistory

/-- **The guest is told what the access functions do.**  After fewer than 2^32 calls of
`memory_alloc`, with nothing failing on the host and accepted ranges that fit, the table
made from the list of the entries has one initialised entry for each accepted call, in
order, and agrees with `find_entry`, `memory_get_ptr` and `memory_write` at every
address. -/
theorem e820_table_agrees {calls : List AllocCall} (hlen : calls.length < 2 ^ 32)
    (hcalls : Runs.EachStep AllocHistory.step AllocHistory.Allowed AllocHistory.start calls) :
    ∃ h, Runs.run AllocHistory.step AllocHistory.start calls = .ok h ∧
      ∀ nodes : List Nat, nodes.Nodup → nodes.length = h.vm.memoryEntries.length →
        ∃ new list table, linkedListNew MemoryEntry true true = some new ∧
          linkedListAddAll new (h.vm.memoryEntries.zip nodes) = .ok list ∧
          e820TableGet list true true = .ok (some table) ∧
          table = h.accepted.map (fun c => some c.e820Entry) ∧ E820Agrees h.vm table := by
  obtain ⟨h, hrun, hinv⟩ :=
    Runs.run_of_eachStep (fun _ _ => AllocHistory.step_inv) AllocHistory.inv_start hcalls
  refine ⟨h, hrun, fun nodes hnodup hnodes => ?_⟩
  have hcount : h.vm.memoryEntries.length < 2 ^ 32 := by
    have hle := Runs.run_measure_le (m := fun h : AllocHistory => h.vm.memoryEntries.length)
      (fun _ _ _ => AllocHistory.step_length_le) hrun
    rw [show AllocHistory.start.vm.memoryEntries.length = 0 from rfl] at hle
    omega
  obtain ⟨new, hnew⟩ : ∃ new, linkedListNew MemoryEntry true true = some new := ⟨_, rfl⟩
  obtain ⟨list, hadd, htable⟩ := e820TableGet_addAll hnodup hnodes hnew
  refine ⟨new, list, _, hnew, hadd, htable, ?_, ?_⟩
  · rw [Nat.mod_eq_of_lt hcount, List.take_length]
    have := congrArg (List.map some) hinv.entries
    rwa [List.map_map, List.map_map] at this
  · rw [Nat.mod_eq_of_lt hcount, List.take_length]
    exact Vm.e820Agrees hinv.furnished

/-- RAM, MMIO and a framebuffer, and a call for a range that is taken. -/
theorem e820_table_agrees_three :
    ∃ h, Runs.run AllocHistory.step AllocHistory.start
        [⟨0, 0x100000, memoryUsable, ⟨true, 0x7F0000001000, true, true⟩⟩,
          ⟨0xC0000000, 0x1000, memoryMmio, ⟨true, 0, true, true⟩⟩,
          ⟨0x8000, 0x1000, memoryMmio, ⟨true, 0, true, true⟩⟩,
          ⟨0xC2000000, 0x1000, memoryFramebuffer, ⟨true, 0x7F0000000000, true, true⟩⟩] = .ok h ∧
      ∀ nodes : List Nat, nodes.Nodup → nodes.length = h.vm.memoryEntries.length →
        ∃ new list table, linkedListNew MemoryEntry true true = some new ∧
          linkedListAddAll new (h.vm.memoryEntries.zip nodes) = .ok list ∧
          e820TableGet list true true = .ok (some table) ∧
          table = h.accepted.map (fun c => some c.e820Entry) ∧ E820Agrees h.vm table := by
  refine e820_table_agrees (by decide) ?_
  refine .cons ⟨⟨rfl, rfl, fun _ _ => by decide⟩, fun _ => by unfold AllocCall.Fits; decide⟩ rfl ?_
  refine .cons ⟨⟨rfl, rfl, fun _ hc => absurd hc (by decide)⟩,
    fun _ => by unfold AllocCall.Fits; decide⟩ rfl ?_
  refine .cons ⟨⟨rfl, rfl, fun _ hc => absurd hc (by decide)⟩,
    fun _ => by unfold AllocCall.Fits; decide⟩ rfl ?_
  exact .cons ⟨⟨rfl, rfl, fun _ _ => by decide⟩, fun _ => by unfold AllocCall.Fits; decide⟩ rfl
    trivial

end BlackHV
