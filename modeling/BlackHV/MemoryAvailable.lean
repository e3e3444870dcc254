import BlackHV.AllocOutcome
import Mathlib.Data.List.Pairwise

/-! # Which ranges are available

`check_addr_available` compares a range with every entry of the map.  Where the entry is
at or below the range, it compares the end of the entry strictly: a range may start where
an entry ends.  Where the entry is above, it uses `>=`: a range may not end where an entry
starts.  An empty entry is in the way of a range around it for the same reason.
-/
namespace BlackHV

open Spans

/-- The range of a request. -/
def requestSpan (physAddr size : UInt64) : Span := ⟨physAddr.toNat, size.toNat⟩

namespace MemoryEntry
variable {entry : MemoryEntry} {physAddr size : UInt64}

/-- The test against one entry, in natural numbers. -/
theorem conflicts_iff (h : entry.Fits) (hend : physAddr.toNat + size.toNat < 2 ^ 64) :
    entry.conflicts physAddr size = true ↔
      (entry.guestPhys.toNat ≤ physAddr.toNat ∧
        physAddr.toNat < entry.guestPhys.toNat + entry.size.toNat) ∨
      (entry.guestPhys.toNat ≤ physAddr.toNat + size.toNat ∧
        physAddr.toNat < entry.guestPhys.toNat) := by
  have hentry : (entry.guestPhys + entry.size).toNat =
      entry.guestPhys.toNat + entry.size.toNat := by
    rw [UInt64.toNat_add, Nat.mod_eq_of_lt h]
  have hrequest : (physAddr + size).toNat = physAddr.toNat + size.toNat := by
    rw [UInt64.toNat_add, Nat.mod_eq_of_lt hend]
  simp only [conflicts, Bool.or_eq_true, Bool.and_eq_true, decide_eq_true_eq, gt_iff_lt, ge_iff_le,
    UInt64.le_iff_toNat_le, UInt64.lt_iff_toNat_lt, hentry, hrequest]

/-- The entry overlaps the range. -/
def Overlaps (entry : MemoryEntry) (physAddr size : UInt64) : Prop :=
  entry.size ≠ 0 ∧ ¬ entry.span.Disjoint (requestSpan physAddr size)

/-- The entry starts where the range ends, or it is empty and starts inside the range. -/
def Hinders (entry : MemoryEntry) (physAddr size : UInt64) : Prop :=
  entry.guestPhys.toNat = physAddr.toNat + size.toNat ∨
    entry.size = 0 ∧ physAddr.toNat < entry.guestPhys.toNat ∧
      entry.guestPhys.toNat < physAddr.toNat + size.toNat

/-- What the test takes for a conflict: an overlap, or a hindrance that is none. -/
theorem conflicts_iff_overlaps (h : entry.Fits) (hsize : 1 ≤ size.toNat)
    (hend : physAddr.toNat + size.toNat < 2 ^ 64) :
    entry.conflicts physAddr size = true ↔
      entry.Overlaps physAddr size ∨ entry.Hinders physAddr size := by
  have hempty : entry.size = 0 ↔ entry.size.toNat = 0 := by
    rw [← UInt64.toNat_inj]
    rfl
  rw [conflicts_iff h hend, Overlaps, Hinders, Span.disjoint_iff, ne_eq, hempty]
  simp only [span, requestSpan]
  omega

end MemoryEntry

namespace Vm
variable {vm : Vm} {physAddr size : UInt64}

/-- The range shares no address with an entry that has any. -/
def IsFree (vm : Vm) (physAddr size : UInt64) : Prop :=
  ∀ e ∈ vm.memoryEntries, e.size ≠ 0 → e.span.Disjoint (requestSpan physAddr size)

theorem checkAddrAvailable_iff (hfit : vm.AllFit) (hsize : 1 ≤ size.toNat)
    (hend : physAddr.toNat + size.toNat < 2 ^ 64) :
    checkAddrAvailable vm physAddr size = true ↔ vm.IsFree physAddr size ∧
      ∀ e ∈ vm.memoryEntries, ¬ e.Hinders physAddr size := by
  have hentry : ∀ e ∈ vm.memoryEntries, (!e.conflicts physAddr size) = true ↔
      (e.size ≠ 0 → e.span.Disjoint (requestSpan physAddr size)) ∧
        ¬ e.Hinders physAddr size := by
    intro e he
    rw [Bool.not_eq_true', ← Bool.not_eq_true,
      MemoryEntry.conflicts_iff_overlaps (hfit e he) hsize hend, not_or, MemoryEntry.Overlaps]
    refine and_congr_left fun _ => ?_
    rw [not_and, Classical.not_not]
  rw [checkAddrAvailable, List.all_eq_true, IsFree]
  constructor
  · intro h
    exact ⟨fun e he => ((hentry e he).mp (h e he)).1, fun e he => ((hentry e he).mp (h e he)).2⟩
  · rintro ⟨hfree, hhinders⟩ e he
    exact (hentry e he).mpr ⟨hfree e he, hhinders e he⟩

/-- The test is right where it finds an overlap, or no hindrance. -/
theorem checkAddrAvailable_right_iff (hfit : vm.AllFit) (hsize : 1 ≤ size.toNat)
    (hend : physAddr.toNat + size.toNat < 2 ^ 64) :
    (checkAddrAvailable vm physAddr size = true ↔ vm.IsFree physAddr size) ↔
      (∃ e ∈ vm.memoryEntries, e.Overlaps physAddr size) ∨
        ∀ e ∈ vm.memoryEntries, ¬ e.Hinders physAddr size := by
  have hfree : vm.IsFree physAddr size ↔
      ¬ ∃ e ∈ vm.memoryEntries, e.Overlaps physAddr size := by
    simp only [IsFree, MemoryEntry.Overlaps, not_exists, not_and, Classical.not_not]
  rw [checkAddrAvailable_iff hfit hsize hend]
  constructor
  · intro h
    by_cases hf : vm.IsFree physAddr size
    · exact Or.inr (h.mpr hf).2
    · exact Or.inl (Classical.not_not.mp (mt hfree.mpr hf))
  · rintro (hover | hhinders)
    · have hf : ¬ vm.IsFree physAddr size := fun hf => hfree.mp hf hover
      exact ⟨fun h => absurd h.1 hf, fun h => absurd h hf⟩
    · exact ⟨fun h => h.1, fun h => ⟨h, hhinders⟩⟩

end Vm

/-! ## Sequences of calls -/

namespace AllocCall

/-- The range of a call. -/
def span (c : AllocCall) : Span := requestSpan c.physAddr c.size

/-- The host has everything the call needs. -/
structure Granted (c : AllocCall) : Prop where
  entry : c.host.entry = true
  node : c.host.node = true
  kind : (c.IsRam ∧ c.host.mmap ≠ 0 ∧ c.host.ioctl = true) ∨ c.type = memoryMmio

/-- A range of a byte at least, whose end fits in 64 bits, that the host grants. -/
structure Plain (c : AllocCall) : Prop where
  granted : c.Granted
  size_pos : 1 ≤ c.size.toNat
  fits : c.Fits

end AllocCall

namespace Vm
variable {vm : Vm} {c : AllocCall}

/-- The call returns 1. -/
def Accepts (vm : Vm) (c : AllocCall) : Prop :=
  (memoryAlloc vm c.physAddr c.size c.type c.host).2 = true

/-- All calls return 1. -/
def AcceptsAll (vm : Vm) (calls : List AllocCall) : Prop :=
  Runs.EachStep Vm.alloc Accepts vm calls

theorem accepts_iff (hg : c.Granted) :
    vm.Accepts c ↔ checkAddrAvailable vm c.physAddr c.size = true := by
  constructor
  · intro h
    refine Classical.byContradiction fun hno => ?_
    obtain ⟨vm', halloc, -⟩ := memoryAlloc_refused (fun hr : vm.Reaches c => hno hr.1)
    rw [Accepts, halloc] at h
    cases h
  · intro hcheck
    obtain ⟨e, he⟩ := Option.isSome_iff_exists.mp (entryMade_isSome_iff.mpr ⟨hg.entry, hg.kind⟩)
    obtain ⟨vm', halloc, -⟩ := memoryAlloc_reaches hcheck he
    rw [Accepts, halloc]

/-- An accepted call puts its range behind the entries. -/
theorem entries_of_accepts (hg : c.Granted) (h : vm.Accepts c) :
    ∃ e, (memoryAlloc vm c.physAddr c.size c.type c.host).1.memoryEntries =
      vm.memoryEntries ++ [e] ∧ e.guestPhys = c.physAddr ∧ e.size = c.size := by
  obtain ⟨e, he⟩ : ∃ e, vm.entryMade c = some e :=
    Option.isSome_iff_exists.mp (entryMade_isSome_iff.mpr ⟨hg.entry, hg.kind⟩)
  obtain ⟨hphys, hsize, -⟩ := entryMade_some he
  refine ⟨e, ?_, hphys, hsize⟩
  rw [memoryEntries_alloc, entryAdded, if_pos ⟨(accepts_iff hg).mp h, hg.node⟩, he]
  rfl

/-- The entry of an earlier call is in the way of a disjoint range exactly if that ends
where the entry starts. -/
theorem conflicts_of_disjoint {e : MemoryEntry} {c d : AllocCall} (hc : c.Plain) (hd : d.Plain)
    (hphys : e.guestPhys = c.physAddr) (hsize : e.size = c.size) (hdisj : c.span.Disjoint d.span) :
    e.conflicts d.physAddr d.size = true ↔ c.span.base = d.span.base + d.span.size := by
  have hfits : e.Fits := by
    unfold MemoryEntry.Fits
    rw [hphys, hsize]
    exact hc.fits
  have hspan : e.span = c.span := by rw [MemoryEntry.span, hphys, hsize]; rfl
  have hpos : e.size ≠ 0 := by
    rw [hsize]
    intro hzero
    have := hc.size_pos
    rw [hzero] at this
    exact absurd this (by decide)
  have hover : ¬ e.Overlaps d.physAddr d.size := fun ho => ho.2 (hspan ▸ hdisj)
  rw [MemoryEntry.conflicts_iff_overlaps hfits hd.size_pos hd.fits, MemoryEntry.Hinders]
  constructor
  · rintro (ho | he | ⟨hzero, -⟩)
    · exact absurd ho hover
    · rw [← hspan]
      exact he
    · exact absurd hzero hpos
  · intro he
    rw [← hspan] at he
    exact Or.inr (Or.inl he)

/-- **Which sequences are accepted.**  Plain calls for disjoint ranges are all accepted if
and only if each of them is available at the start, and none is for a range that ends
where the range of an earlier call starts. -/
theorem acceptsAll_iff (hfit : vm.AllFit) {calls : List AllocCall} (hplain : ∀ c ∈ calls, c.Plain)
    (hdisj : calls.Pairwise fun c d => c.span.Disjoint d.span) :
    vm.AcceptsAll calls ↔
      (∀ c ∈ calls, checkAddrAvailable vm c.physAddr c.size = true) ∧
        calls.Pairwise fun c d => c.span.base ≠ d.span.base + d.span.size := by
  induction calls generalizing vm with
  | nil => exact iff_of_true trivial ⟨fun _ h => absurd h List.not_mem_nil, List.Pairwise.nil⟩
  | cons c calls ih =>
      obtain ⟨hc, hrest⟩ := List.forall_mem_cons.mp hplain
      obtain ⟨hcd, hdisj⟩ := List.pairwise_cons.mp hdisj
      have hstep : vm.AcceptsAll (c :: calls) ↔ vm.Accepts c ∧
          (memoryAlloc vm c.physAddr c.size c.type c.host).1.AcceptsAll calls := by
        refine and_congr_right fun _ => ⟨fun h => h _ rfl, ?_⟩
        rintro h _ ⟨⟩
        exact h
      rw [hstep, List.forall_mem_cons, List.pairwise_cons]
      by_cases hacc : vm.Accepts c
      · obtain ⟨e, hentries, hphys, hsize⟩ := entries_of_accepts hc.granted hacc
        generalize (memoryAlloc vm c.physAddr c.size c.type c.host).1 = vm₁ at hentries
        have hfit₁ : vm₁.AllFit := by
          intro f hf
          rw [hentries] at hf
          rcases List.mem_append.mp hf with hold | hnew
          · exact hfit f hold
          · rw [List.mem_singleton.mp hnew, MemoryEntry.Fits, hphys, hsize]
            exact hc.fits
        -- the rest of the calls find one entry more, which the first one made
        have hcheck : ∀ d ∈ calls, checkAddrAvailable vm₁ d.physAddr d.size = true ↔
            checkAddrAvailable vm d.physAddr d.size = true ∧
              c.span.base ≠ d.span.base + d.span.size := by
          intro d hd
          rw [checkAddrAvailable, hentries, List.all_append, Bool.and_eq_true, List.all_cons,
            List.all_nil, Bool.and_true, Bool.not_eq_true', ← Bool.not_eq_true,
            conflicts_of_disjoint hc (hrest d hd) hphys hsize (hcd d hd)]
          rfl
        rw [ih hfit₁ hrest hdisj]
        constructor
        · rintro ⟨-, hall, htouch⟩
          exact ⟨⟨(accepts_iff hc.granted).mp hacc, fun d hd => ((hcheck d hd).mp (hall d hd)).1⟩,
            fun d hd => ((hcheck d hd).mp (hall d hd)).2, htouch⟩
        · rintro ⟨⟨-, hall⟩, htouch, hrest⟩
          exact ⟨hacc, fun d hd => (hcheck d hd).mpr ⟨hall d hd, htouch d hd⟩, hrest⟩
      · refine iff_of_false (fun h => hacc h.1) fun h => hacc ?_
        exact (accepts_iff hc.granted).mpr h.1.1

/-- The range of the call meets an entry: it overlaps it, or is kept out by it all the same. -/
def Blocks (vm : Vm) (c : AllocCall) : Prop :=
  ∃ e ∈ vm.memoryEntries, e.Overlaps c.physAddr c.size ∨ e.Hinders c.physAddr c.size

theorem checkAddrAvailable_iff_not_blocks (hfit : vm.AllFit) (hc : c.Plain) :
    checkAddrAvailable vm c.physAddr c.size = true ↔ ¬ vm.Blocks c := by
  rw [checkAddrAvailable_iff hfit hc.size_pos hc.fits]
  constructor
  · rintro ⟨hfree, hhinders⟩ ⟨e, he, ho | hh⟩
    · exact ho.2 (hfree e he ho.1)
    · exact hhinders e he hh
  · intro h
    refine ⟨fun e he hne => ?_, fun e he hh => h ⟨e, he, Or.inr hh⟩⟩
    exact Classical.byContradiction fun hd => h ⟨e, he, Or.inl ⟨hne, hd⟩⟩

section Orders
variable {calls : List AllocCall}

/-- Ranges in the order of their addresses are all accepted, if none is blocked at the
start. -/
theorem acceptsAll_of_ascending (hfit : vm.AllFit) (hplain : ∀ c ∈ calls, c.Plain)
    (hdisj : calls.Pairwise fun c d => c.span.Disjoint d.span)
    (hfree : ∀ c ∈ calls, ¬ vm.Blocks c)
    (hsorted : calls.Pairwise fun c d => c.span.base ≤ d.span.base) : vm.AcceptsAll calls := by
  refine (acceptsAll_iff hfit hplain hdisj).mpr ⟨fun c hc => ?_, ?_⟩
  · exact (checkAddrAvailable_iff_not_blocks hfit (hplain c hc)).mpr (hfree c hc)
  · refine hsorted.imp_of_mem fun {c d} _ hd hle he => ?_
    have hpos : 1 ≤ d.span.size := (hplain d hd).size_pos
    omega

/-- Some order of the calls is one of their addresses. -/
theorem exists_ascending (calls : List AllocCall) :
    ∃ l : List AllocCall, l.Perm calls ∧ l.Pairwise fun c d => c.span.base ≤ d.span.base := by
  refine ⟨_, List.mergeSort_perm calls fun c d => decide (c.span.base ≤ d.span.base), ?_⟩
  refine (List.pairwise_mergeSort ?_ ?_ calls).imp fun hle => of_decide_eq_true hle
  · intro c d e hcd hde
    simp only [decide_eq_true_eq] at hcd hde ⊢
    omega
  · intro c d
    simp only [Bool.or_eq_true, decide_eq_true_eq]
    omega

/-- **When the order does not matter.**  Disjoint ranges are accepted in every order or in
none, exactly if one of them is blocked by an entry of the map, and then there is none, or no
two of them touch. -/
theorem order_irrelevant_iff (hfit : vm.AllFit) (hplain : ∀ c ∈ calls, c.Plain)
    (hdisj : calls.Pairwise fun c d => c.span.Disjoint d.span) :
    (∀ l l' : List AllocCall, l.Perm calls → l'.Perm calls →
        (vm.AcceptsAll l ↔ vm.AcceptsAll l')) ↔
      (∃ c ∈ calls, vm.Blocks c) ∨
        ∀ c ∈ calls, ∀ d ∈ calls, c.span.base ≠ d.span.base + d.span.size := by
  have hplains : ∀ l : List AllocCall, l.Perm calls → ∀ c ∈ l, c.Plain :=
    fun l hl c hc => hplain c (hl.mem_iff.mp hc)
  have hdisjs : ∀ l : List AllocCall, l.Perm calls →
      l.Pairwise fun c d => c.span.Disjoint d.span :=
    fun l hl => (hl.pairwise_iff fun h => h.symm).mpr hdisj
  have hiff : ∀ l : List AllocCall, l.Perm calls → (vm.AcceptsAll l ↔
      (∀ c ∈ l, checkAddrAvailable vm c.physAddr c.size = true) ∧
        l.Pairwise fun c d => c.span.base ≠ d.span.base + d.span.size) :=
    fun l hl => acceptsAll_iff hfit (hplains l hl) (hdisjs l hl)
  constructor
  · intro h
    by_cases hblocked : ∃ c ∈ calls, vm.Blocks c
    · exact Or.inl hblocked
    refine Or.inr fun c hc d hd he => ?_
    have hfree : ∀ c ∈ calls, ¬ vm.Blocks c := fun c hc hb => hblocked ⟨c, hc, hb⟩
    obtain ⟨l, hl, hsorted⟩ := exists_ascending calls
    have hsort : vm.AcceptsAll l := acceptsAll_of_ascending hfit (hplains l hl) (hdisjs l hl)
      (fun c hc => hfree c (hl.mem_iff.mp hc)) hsorted
    -- the same calls with `c` before `d`
    have hne : d ≠ c := by
      rintro rfl
      have hpos : 1 ≤ d.span.size := (hplain d hd).size_pos
      omega
    have hperm := (List.perm_cons_erase hc).symm
    have hall := (h l _ hl hperm).mp hsort
    rw [hiff _ hperm, List.pairwise_cons] at hall
    exact hall.2.1 d ((List.mem_erase_of_ne hne).mpr hd) he
  · rintro (⟨c, hc, hb⟩ | htouch) l l' hl hl'
    · have hnone : ∀ m : List AllocCall, m.Perm calls → ¬ vm.AcceptsAll m := by
        intro m hm hall
        have hcheck := ((hiff m hm).mp hall).1 c (hm.mem_iff.mpr hc)
        exact (checkAddrAvailable_iff_not_blocks hfit (hplain c hc)).mp hcheck hb
      exact iff_of_false (hnone l hl) (hnone l' hl')
    · have hpairs : ∀ m : List AllocCall, m.Perm calls →
          m.Pairwise fun c d => c.span.base ≠ d.span.base + d.span.size :=
        fun m hm => List.pairwise_of_forall_mem_list fun c hc d hd =>
          htouch c (hm.mem_iff.mp hc) d (hm.mem_iff.mp hd)
      rw [hiff l hl, hiff l' hl']
      refine and_congr (forall_congr' fun c => ?_) (iff_of_true (hpairs l hl) (hpairs l' hl'))
      rw [hl.mem_iff, hl'.mem_iff]

end Orders

end Vm

/-- **When `check_addr_available` is right, and when the order of allocations matters.**  For
every map whose entries fit and every range of a byte at least whose end fits: the range
is found available exactly if it is disjoint from every entry that is not empty, if and
only if it overlaps such an entry, or no entry starts where the range ends and no empty
one starts inside it.  And for every set of disjoint ranges that nothing but the map and each
other keeps from being allocated on it: whether all of them are is independent of the order of
the calls, if and only if an entry of the map is in the way of one of them, so that they never
all are, or no range ends where another one starts. -/
theorem check_addr_available_exact {vm : Vm} (hfit : vm.AllFit) {physAddr size : UInt64}
    (hsize : 1 ≤ size.toNat) (hend : physAddr.toNat + size.toNat < 2 ^ 64)
    {calls : List AllocCall} (hplain : ∀ c ∈ calls, c.Plain)
    (hdisj : calls.Pairwise fun c d => c.span.Disjoint d.span) :
    ((checkAddrAvailable vm physAddr size = true ↔ vm.IsFree physAddr size) ↔
      (∃ e ∈ vm.memoryEntries, e.Overlaps physAddr size) ∨
        ∀ e ∈ vm.memoryEntries, ¬ e.Hinders physAddr size) ∧
    ((∀ l l' : List AllocCall, l.Perm calls → l'.Perm calls →
        (vm.AcceptsAll l ↔ vm.AcceptsAll l')) ↔
      (∃ c ∈ calls, vm.Blocks c) ∨
        ∀ c ∈ calls, ∀ d ∈ calls, c.span.base ≠ d.span.base + d.span.size) :=
  ⟨Vm.checkAddrAvailable_right_iff hfit hsize hend, Vm.order_irrelevant_iff hfit hplain hdisj⟩

/-- A request in a map with one entry, and two ranges with a gap. -/
theorem check_addr_available_exact_gap :
    let vm : Vm := { Vm.new with memoryEntries := [⟨0x7F0000000000, 0x1000, 0x1000, 0, 1⟩] }
    let calls : List AllocCall :=
      [⟨0x4000, 0x1000, memoryUsable, ⟨true, 0x7F0000010000, true, true⟩⟩,
        ⟨0x6000, 0x1000, memoryMmio, ⟨true, 0, true, true⟩⟩]
    ((checkAddrAvailable vm 0x2000 0x1000 = true ↔ vm.IsFree 0x2000 0x1000) ↔
      (∃ e ∈ vm.memoryEntries, e.Overlaps 0x2000 0x1000) ∨
        ∀ e ∈ vm.memoryEntries, ¬ e.Hinders 0x2000 0x1000) ∧
    ((∀ l l' : List AllocCall, l.Perm calls → l'.Perm calls →
        (vm.AcceptsAll l ↔ vm.AcceptsAll l')) ↔
      (∃ c ∈ calls, vm.Blocks c) ∨
        ∀ c ∈ calls, ∀ d ∈ calls, c.span.base ≠ d.span.base + d.span.size) := by
  intro vm calls
  refine check_addr_available_exact ?_ (by decide) (by decide) ?_ ?_
  · intro e he
    rw [List.mem_singleton.mp he]
    exact (by decide : 0x1000 + 0x1000 < 2 ^ 64)
  · intro c hc
    simp only [calls, List.mem_cons, List.not_mem_nil, or_false] at hc
    rcases hc with rfl | rfl
    · exact ⟨⟨rfl, rfl, Or.inl ⟨by decide, by decide, rfl⟩⟩, by decide,
        (by decide : 0x4000 + 0x1000 < 2 ^ 64)⟩
    · exact ⟨⟨rfl, rfl, Or.inr rfl⟩, by decide, (by decide : 0x6000 + 0x1000 < 2 ^ 64)⟩
  · exact List.pairwise_pair.mpr (Span.disjoint_of_le (by decide))

/-- RAM at 0x1000, and a range of the 0x1000 bytes below it: they are disjoint, the second
one is refused after the first, and both are accepted in the other order. -/
theorem check_addr_available_touching :
    let low : AllocCall := ⟨0, 0x1000, memoryUsable, ⟨true, 0x7F0000000000, true, true⟩⟩
    let high : AllocCall := ⟨0x1000, 0x1000, memoryUsable, ⟨true, 0x7F0000010000, true, true⟩⟩
    let vm := (memoryAlloc Vm.new high.physAddr high.size high.type high.host).1
    checkAddrAvailable vm low.physAddr low.size = false ∧ vm.IsFree low.physAddr low.size ∧
      Vm.new.AcceptsAll [low, high] ∧ ¬ Vm.new.AcceptsAll [high, low] := by
  refine ⟨by decide, ?_, ?_, ?_⟩
  · intro e he
    rw [List.mem_singleton.mp he]
    exact fun _ => (Span.disjoint_of_le (by decide)).symm
  · refine Runs.EachStep.cons rfl rfl (Runs.EachStep.cons rfl rfl trivial)
  · rintro ⟨-, h⟩
    have hlow := (h _ rfl).1
    rw [Vm.Accepts] at hlow
    exact absurd hlow (by decide)

end BlackHV
