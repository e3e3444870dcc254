import BlackHV.Bytes
import BlackHV.HostCopies

/-! # Reading the memory of the guest

Numbers and strings in the memory that a loader leaves, as the guest reads them, and as the
loader reads them back through a pointer.
-/
namespace BlackHV

open FlatMemory

/-- A number of some bytes. -/
def numberAt (cells : Nat → Option UInt8) (a count : Nat) : Option Nat :=
  (values? cells a count).map Bytes.ofLe

/-- The bytes before the first NUL, which is looked for in some bytes. -/
def stringAt (cells : Nat → Option UInt8) (a : Nat) : Nat → Option (List UInt8)
  | 0 => none
  | limit + 1 => do
      let b ← cells a
      if b = 0 then
        some []
      else do
        let rest ← stringAt cells (a + 1) limit
        some (b :: rest)

/-- A number of some bytes, loaded by the process. -/
def loadField (vm : Vm) (host : HostMemory) (ptr : UInt64) : Nat → Except Fault Nat
  | 0 => .ok 0
  | count + 1 => do
      let b ← loadByte vm host ptr
      let rest ← loadField vm host (ptr + 1) count
      .ok (b.toNat + 256 * rest)

section Reading
variable {cells : Nat → Option UInt8}

theorem numberAt_bytes {a count : Nat} {bytes : List UInt8}
    (h : slice cells a count = bytes.map some) :
    numberAt cells a count = some (Bytes.ofLe bytes) := by
  rw [numberAt, values?_eq h, Option.map_some]

theorem numberAt_eq {a count n : Nat} (h : slice cells a count = (Bytes.le count n).map some)
    (hn : n < 256 ^ count) : numberAt cells a count = some n := by
  rw [numberAt_bytes h, Bytes.ofLe_le hn]

/-- A number that has been copied, if no later copy goes there. -/
theorem numberAt_copied {before after : List (Nat × List UInt8)} {a count n : Nat}
    (hafter : Misses after a count) (hn : n < 256 ^ count) :
    numberAt (overwriteAll cells (before ++ (a, Bytes.le count n) :: after)) a count = some n :=
  numberAt_eq (slice_overwriteAll_whole hafter (Bytes.length_le count n)) hn

theorem slice_succ (a n : Nat) : slice cells a (n + 1) = cells a :: slice cells (a + 1) n := by
  rw [Nat.add_comm n 1, slice_add]
  rfl

/-- Bytes that are there are read as a string exactly if a NUL follows. -/
theorem stringAt_iff {a limit : Nat} {s : List UInt8}
    (h : slice cells a s.length = s.map some) (hnul : (0 : UInt8) ∉ s) (hlimit : s.length < limit) :
    stringAt cells a limit = some s ↔ cells (a + s.length) = some 0 := by
  obtain ⟨limit, rfl⟩ := Nat.exists_eq_succ_of_ne_zero (Nat.ne_of_gt (Nat.zero_lt_of_lt hlimit))
  induction s generalizing a limit with
  | nil =>
      rw [List.length_nil, Nat.add_zero, stringAt]
      rcases hb : cells a with _ | b
      · exact iff_of_false (fun h => nomatch h) fun h => nomatch h
      · show (if b = 0 then _ else _) = _ ↔ _
        split
        · rename_i hz
          exact iff_of_true rfl (congrArg some hz)
        · rename_i hz
          refine iff_of_false (fun hread => ?_) fun hsome => hz (Option.some.inj hsome)
          obtain ⟨rest, -, hcons⟩ := Option.bind_eq_some_iff.mp hread
          cases hcons
  | cons b s ih =>
      rw [List.length_cons, slice_succ] at h
      obtain ⟨hb, hrest⟩ := List.cons.inj h
      obtain ⟨hne, hnot⟩ := not_or.mp (mt List.mem_cons.mpr hnul)
      obtain ⟨limit, rfl⟩ := Nat.exists_eq_succ_of_ne_zero
        (Nat.ne_of_gt (Nat.zero_lt_of_lt (Nat.lt_of_succ_lt_succ hlimit)))
      have hs := ih hrest hnot limit (Nat.lt_of_succ_lt_succ hlimit)
      rw [List.length_cons, ← Nat.add_assoc, Nat.add_right_comm, ← hs, stringAt, hb]
      show (if b = 0 then _ else _) = _ ↔ _
      rw [if_neg (Ne.symm hne)]
      constructor
      · intro hread
        obtain ⟨rest, hsome, hcons⟩ := Option.bind_eq_some_iff.mp hread
        cases hcons
        exact hsome
      · intro hsome
        rw [hsome]
        rfl

/-- A string that is there is read. -/
theorem stringAt_eq {a limit : Nat} {s : List UInt8}
    (h : slice cells a (s.length + 1) = (s ++ [0]).map some) (hnul : (0 : UInt8) ∉ s)
    (hlimit : s.length < limit) : stringAt cells a limit = some s := by
  rw [slice_add, List.map_append] at h
  obtain ⟨htext, hzero⟩ := List.append_inj' h rfl
  exact (stringAt_iff htext hnul hlimit).mpr (List.cons.inj hzero).1

end Reading

namespace Vm
variable {vm : Vm} {e : MemoryEntry}

/-- A byte that the process loads is the one the guest sees. -/
theorem LowRam.loadByte_eq (h : vm.LowRam e) (host : HostMemory) {a : Nat}
    (ha : a < e.size.toNat) :
    loadByte vm host (hostOf e a) = .ok (host (hostOf e a)) ∧
      view vm.translate host a = some (host (hostOf e a)) := by
  have htrans : vm.translate a = some (hostOf e a) := by
    have hoffset := translate_offset h.backed h.mem h.readable ha
    rwa [h.low, show (0 : UInt64).toNat = 0 from rfl, Nat.zero_add] at hoffset
  exact ⟨if_pos (mapped_of_translate h.backed htrans), by rw [view, htrans, Option.map_some]⟩

/-- So is a number. -/
theorem LowRam.loadField_eq (h : vm.LowRam e) {host : HostMemory} {a count n : Nat}
    (hroom : a + count ≤ e.size.toNat) (hn : numberAt (view vm.translate host) a count = some n) :
    loadField vm host (hostOf e a) count = .ok n := by
  have hload : ∃ bytes : List UInt8, loadField vm host (hostOf e a) count = .ok (Bytes.ofLe bytes) ∧
      slice (view vm.translate host) a count = bytes.map some := by
    clear hn
    induction count generalizing a with
    | zero => exact ⟨[], rfl, rfl⟩
    | succ count ih =>
        obtain ⟨hbyte, hview⟩ := h.loadByte_eq host (show a < e.size.toNat by omega)
        obtain ⟨bytes, hrest, hslice⟩ := ih (a := a + 1) (by omega)
        refine ⟨host (hostOf e a) :: bytes, ?_, ?_⟩
        · have hnext : hostOf e a + 1 = hostOf e (a + 1) := hostOf_add a 1
          rw [loadField, hbyte, ok_bind, hnext, hrest]
          rfl
        · rw [slice_succ, hview, hslice, List.map_cons]
  obtain ⟨bytes, hok, hslice⟩ := hload
  rw [numberAt_bytes hslice] at hn
  rw [hok, Option.some.inj hn]

end Vm

end BlackHV
