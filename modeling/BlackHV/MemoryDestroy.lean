import BlackHV.MemoryHeap

/-! # What is left of a destroyed map

`memory_destroy` reaches the entries through the list: `linked_list_free` hands each of
them to `free_memory_entry`, which unmaps RAM and frees the block.  So it gives back what
the list has, all of it, once.  An entry that `memory_alloc` has made and could not put
into the list is out of its reach.
-/
namespace BlackHV

/-- `free_memory_entry`. -/
def freeMemoryEntry (host : MapHost) : Option Nat → Except Fault MapHost
  | none => .ok host
  | some ptr => do
      let entry ← host.deref (some ptr)
      let host :=
        if entry.type = memoryUsable then host.munmap entry.memoryPtr entry.size else host
      host.free ptr

/-- `memory_destroy` on a map that is not `NULL`: the list nodes that are left, and what is
left on the host.  The list and the map itself are freed at the end. -/
def memoryDestroy (mem : MemoryHeap) (fuel : Nat) :
    Except Fault (LinkedListHeap (Option Nat) × MapHost) :=
  linkedListFree freeMemoryEntry mem.memoryEntries mem.host fuel

/-- Nothing survives: no list node, no entry, no mapping, and each mapping that was ever
made has been unmapped once, with its own address and size. -/
structure Released (left : LinkedListHeap (Option Nat) × MapHost) : Prop where
  nodes : ∀ a, left.1 a = none
  entries : ∀ a, left.2.entries a = none
  mappings : left.2.mappings = []
  unmapped : (left.2.unmapped.filter (·.1 ≠ mapFailed)).Perm left.2.mapped

/-- The call keeps track of what it takes: an entry it makes gets a list node, and `mmap`
does not give it a mapping at address 0, which it takes for a failure. -/
def Vm.KeepsTrack (vm : Vm) (c : AllocCall) : Prop :=
  (vm.Reaches c → c.host.node = true) ∧
    (checkAddrAvailable vm c.physAddr c.size = true → c.IsRam → c.host.entry = true →
      c.host.mmap ≠ 0)

/-! ## What is owed -/

/-- The blocks at `addrs` hold `items`, the blocks at `lost` are out of reach, and there
are no others.  The mappings are those of `items` and `lostMappings`. -/
structure MapHost.Owes (lost : List Nat) (lostMappings : List (UInt64 × UInt64)) (host : MapHost)
    (addrs : List Nat) (items : List MemoryEntry) : Prop where
  entries : addrs.map host.entries = items.map some
  blocks : ∀ a, (host.entries a).isSome = true ↔ a ∈ addrs ++ lost
  nodup : (addrs ++ lost).Nodup
  held : host.mappings.Perm (items.flatMap MemoryEntry.mapping ++ lostMappings)
  accounted : host.Accounted

/-- The same of the pointers `values`, which are still to be handed over. -/
def MapHost.OwesValues (lost : List Nat) (lostMappings : List (UInt64 × UInt64))
    (values : List (Option Nat)) (host : MapHost) : Prop :=
  ∃ addrs items, values = addrs.map some ∧ host.Owes lost lostMappings addrs items

variable {lost : List Nat} {lostMappings : List (UInt64 × UInt64)} {host : MapHost}
  {addrs nodes : List Nat} {items : List MemoryEntry}

/-- `free_memory_entry` gives back the block and the mapping of an entry. -/
theorem freeMemoryEntry_spec {a : Nat} {e : MemoryEntry}
    (h : host.Owes lost lostMappings (a :: addrs) (e :: items)) :
    ∃ host', freeMemoryEntry host (some a) = .ok host' ∧
      host'.Owes lost lostMappings addrs items := by
  obtain ⟨he, hitems⟩ := List.cons.inj h.entries
  obtain ⟨hnot, hnodup⟩ := List.nodup_cons.mp h.nodup
  -- what the block was is gone, whether or not there was a mapping to undo
  have hblocks : ∀ host' : MapHost, host'.entries = host.entries →
      (addrs.map (host'.put a none).entries = items.map some) ∧
      ∀ b, ((host'.put a none).entries b).isSome = true ↔ b ∈ addrs ++ lost := by
    intro host' hsame
    have hne : ∀ b ∈ addrs ++ lost, b ≠ a := fun b hb hba => hnot (hba ▸ hb)
    refine ⟨?_, fun b => ?_⟩
    · rw [← hitems]
      refine List.map_congr_left fun b hb => ?_
      rw [MapHost.put_ne (hne b (List.mem_append_left _ hb)), hsame]
    · by_cases hb : b = a
      · rw [hb, MapHost.put_self]
        exact iff_of_false (fun hc => by cases hc) hnot
      · rw [MapHost.put_ne hb, hsame, h.blocks b, List.cons_append, List.mem_cons]
        exact ⟨fun hc => hc.resolve_left hb, Or.inr⟩
  rw [freeMemoryEntry, MapHost.deref_ok he, ok_bind]
  by_cases htype : e.type = memoryUsable
  · dsimp only
    rw [if_pos htype]
    obtain ⟨hentries, hlive⟩ := hblocks (host.munmap e.memoryPtr e.size) rfl
    refine ⟨_, MapHost.free_ok he, hentries, hlive, hnodup, ?_, ?_⟩
    · show (host.mappings.erase (e.memoryPtr, e.size)).Perm _
      have hheld := h.held
      rw [List.flatMap_cons, MemoryEntry.mapping] at hheld
      by_cases hreal : e.memoryPtr = mapFailed
      · rw [if_neg fun hc => hc.2 hreal] at hheld
        rw [hreal, List.erase_of_not_mem (h.accounted.not_mem_mappings _)]
        exact hheld
      · rw [if_pos ⟨htype, hreal⟩] at hheld
        have := hheld.erase (e.memoryPtr, e.size)
        rwa [List.singleton_append, List.cons_append, List.erase_cons_head] at this
    · have hmapped : e.memoryPtr ≠ mapFailed → (e.memoryPtr, e.size) ∈ host.mappings := by
        intro hreal
        refine h.held.mem_iff.mpr (List.mem_append_left _ ?_)
        rw [List.flatMap_cons, MemoryEntry.mapping, if_pos ⟨htype, hreal⟩]
        exact List.mem_cons_self
      have := h.accounted.munmap hmapped
      exact ⟨this.log, this.real⟩
  · dsimp only
    rw [if_neg htype]
    obtain ⟨hentries, hlive⟩ := hblocks host rfl
    refine ⟨_, MapHost.free_ok he, hentries, hlive, hnodup, ?_,
      ⟨h.accounted.log, h.accounted.real⟩⟩
    have hheld := h.held
    rwa [List.flatMap_cons, MemoryEntry.mapping, if_neg fun hc => htype hc.1] at hheld

namespace MemoryHeap

/-- The map of the level of lists, its blocks, and what it has lost. -/
structure Owns (mem : MemoryHeap) (vm : Vm) (nodes addrs lost : List Nat)
    (lostMappings : List (UInt64 × UInt64)) : Prop where
  models : mem.Models vm nodes addrs
  only : ∀ a, a ∉ nodes → mem.memoryEntries.heap a = none
  freeFunc : mem.memoryEntries.freeFunc = true
  owes : mem.host.Owes lost lostMappings addrs vm.memoryEntries

variable {mem : MemoryHeap} {vm : Vm} {c : BlockCall}

theorem owns_new {block list : Bool} (h : memoryNew block list = some mem) :
    mem.Owns Vm.new [] [] [] [] := by
  unfold memoryNew at h
  split at h
  · obtain ⟨l, hl, rfl⟩ := Option.map_eq_some_iff.mp h
    cases list with
    | false => cases hl
    | true =>
        cases hl
        refine ⟨⟨LinkedList.holds_new rfl, rfl, rfl, rfl, rfl⟩, fun _ _ => rfl, rfl, rfl, ?_,
          List.nodup_nil, List.Perm.refl _, List.Perm.refl _,
          fun _ hm => absurd hm List.not_mem_nil⟩
        exact fun a => iff_of_false (fun hc => by cases hc) List.not_mem_nil
  · cases h

/-- **`memory_destroy` gives back everything but what is lost.** -/
theorem Owns.destroy (h : mem.Owns vm nodes addrs lost lostMappings) {fuel : Nat}
    (hfuel : nodes.length ≤ fuel) :
    ∃ left, memoryDestroy mem fuel = .ok left ∧ (∀ a, left.1 a = none) ∧
      left.2.Owes lost lostMappings [] [] := by
  have hcall : ∀ value rest host, MapHost.OwesValues lost lostMappings (value :: rest) host →
      ∃ host', freeMemoryEntry host value = .ok host' ∧
        MapHost.OwesValues lost lostMappings rest host' := by
    rintro value rest host ⟨addrs, items, hvalues, howes⟩
    cases addrs with
    | nil => cases hvalues
    | cons a addrs =>
        cases hvalues
        cases items with
        | nil => cases howes.entries
        | cons e items =>
            obtain ⟨host', hstep, howes'⟩ := freeMemoryEntry_spec howes
            exact ⟨host', hstep, addrs, items, rfl, howes'⟩
  obtain ⟨heap, host, hfree, ⟨addrs', items', hnil, howes⟩, hnodes⟩ :=
    h.models.list.free hcall h.freeFunc h.only ⟨addrs, vm.memoryEntries, rfl, h.owes⟩ hfuel
  cases List.map_eq_nil_iff.mp hnil.symm
  cases List.map_eq_nil_iff.mp howes.entries.symm
  exact ⟨⟨heap, host⟩, hfree, hnodes, howes⟩

/-- Nothing survives exactly if nothing was lost. -/
theorem released_iff {left : LinkedListHeap (Option Nat) × MapHost} (hnodes : ∀ a, left.1 a = none)
    (h : left.2.Owes lost lostMappings [] []) : Released left ↔ lost = [] ∧ lostMappings = [] := by
  have hheld := h.held
  rw [List.flatMap_nil, List.nil_append] at hheld
  constructor
  · intro hr
    refine ⟨List.eq_nil_iff_forall_not_mem.mpr fun a ha => ?_, ?_⟩
    · have := (h.blocks a).mpr ha
      rw [hr.entries a] at this
      cases this
    · rw [hr.mappings] at hheld
      exact (List.Perm.nil_eq hheld).symm
  · rintro ⟨rfl, rfl⟩
    have hmappings := List.perm_nil.mp hheld
    refine ⟨hnodes, fun a => ?_, hmappings, ?_⟩
    · exact Option.not_isSome_iff_eq_none.mp fun hs => absurd ((h.blocks a).mp hs) List.not_mem_nil
    · have hlog := h.accounted.log
      rw [hmappings, List.nil_append] at hlog
      exact hlog.symm

theorem lostMapping_eq_nil_iff : c.lostMapping = [] ↔
    (c.alloc.IsRam → c.alloc.host.entry = true → c.alloc.host.mmap ≠ 0) := by
  unfold BlockCall.lostMapping
  split
  · rename_i h
    exact iff_of_false (by simp) fun hne => hne h.1 h.2.1 h.2.2
  · rename_i h
    exact iff_of_true rfl fun hram hentry hnull => h ⟨hram, hentry, hnull⟩

/-- A call that makes an entry has its mapping. -/
theorem lostMapping_of_reaches (h : vm.Reaches c.alloc) : c.lostMapping = [] := by
  refine lostMapping_eq_nil_iff.mpr fun hram _ => ?_
  obtain ⟨-, -, ⟨-, hne, -⟩ | hmmio⟩ := h
  · exact hne
  · rcases hram with hfb | husable
    · exact absurd (hfb.symm.trans hmmio) (by decide)
    · exact absurd (husable.symm.trans hmmio) (by decide)

/-- A call that makes an entry has the mapping of the entry, and no other. -/
theorem Steps.held_of_made {mem' : MemoryHeap} {e : MemoryEntry}
    (h : mem.Steps vm nodes addrs c mem') (hreach : vm.Reaches c.alloc)
    (hmade : vm.entryMade c.alloc = some e) :
    mem'.host.mappings.Perm (e.mapping ++ mem.host.mappings) := by
  have hheld := h.held
  rwa [if_pos (show BlackHV.checkAddrAvailable vm c.physAddr c.size = true from hreach.1), hmade,
    lostMapping_of_reaches hreach, List.append_nil, Option.toList_some,
    List.flatMap_singleton] at hheld

/-- A call that makes no entry loses its mapping at most. -/
theorem Owns.alloc_refused {mem' : MemoryHeap} (h : mem.Owns vm nodes addrs lost lostMappings)
    (hreach : ¬ vm.Reaches c.alloc) (hentries : mem'.host.entries = mem.host.entries)
    (hlist : mem'.memoryEntries = mem.memoryEntries)
    (hmodels : mem'.Models
      (BlackHV.memoryAlloc vm c.physAddr c.size c.type c.alloc.host).1 nodes addrs)
    (hheld : mem'.host.mappings.Perm
      ((if BlackHV.checkAddrAvailable vm c.physAddr c.size = true then
        (vm.entryMade c.alloc).toList.flatMap MemoryEntry.mapping ++ c.lostMapping
      else []) ++ mem.host.mappings)) (hacc : mem'.host.Accounted) :
    ∃ lostMappings', mem'.Owns (BlackHV.memoryAlloc vm c.physAddr c.size c.type c.alloc.host).1
        nodes addrs lost lostMappings' ∧
      (lost = [] ∧ lostMappings' = [] ↔
        (lost = [] ∧ lostMappings = []) ∧ vm.KeepsTrack c.alloc) := by
  obtain ⟨vm', hvm, hunchanged⟩ := Vm.memoryAlloc_refused hreach
  have hitems : (BlackHV.memoryAlloc vm c.physAddr c.size c.type c.alloc.host).1.memoryEntries =
      vm.memoryEntries :=
    (congrArg (·.1.memoryEntries) hvm).trans hunchanged.entries
  have hnow : (if BlackHV.checkAddrAvailable vm c.physAddr c.size = true then
      (vm.entryMade c.alloc).toList.flatMap MemoryEntry.mapping ++ c.lostMapping else []) =
      if BlackHV.checkAddrAvailable vm c.physAddr c.size = true then c.lostMapping else [] := by
    split
    · rename_i havail
      rw [Vm.entryMade_of_not_reaches havail hreach]
      rfl
    · rfl
  rw [hnow] at hheld
  refine ⟨(if BlackHV.checkAddrAvailable vm c.physAddr c.size = true then c.lostMapping else []) ++
    lostMappings, ⟨hmodels, by rw [hlist]; exact h.only, by rw [hlist]; exact h.freeFunc,
      hmodels.entries, by rw [hentries]; exact h.owes.blocks, h.owes.nodup, ?_, hacc⟩, ?_⟩
  · rw [hitems]
    refine hheld.trans ((h.owes.held.append_left _).trans ?_)
    rw [← List.append_assoc, ← List.append_assoc]
    exact List.perm_append_comm.append_right _
  · rw [List.append_eq_nil_iff]
    by_cases havail : BlackHV.checkAddrAvailable vm c.physAddr c.size = true
    · rw [if_pos havail, lostMapping_eq_nil_iff]
      constructor
      · rintro ⟨hl, hm, hls⟩
        exact ⟨⟨hl, hls⟩, fun hr => absurd hr hreach, fun _ => hm⟩
      · rintro ⟨⟨hl, hls⟩, -, hm⟩
        exact ⟨hl, hm havail, hls⟩
    · rw [if_neg havail]
      constructor
      · rintro ⟨hl, -, hls⟩
        exact ⟨⟨hl, hls⟩, fun hr => absurd hr hreach, fun hc => absurd hc havail⟩
      · rintro ⟨⟨hl, hls⟩, -⟩
        exact ⟨hl, rfl, hls⟩

/-- A block that was not in use is none of those that are. -/
theorem Owns.new_not_mem (h : mem.Owns vm nodes addrs lost lostMappings) {a : Nat}
    (hnew : mem.host.entries a = none) : a ∉ addrs ++ lost := by
  intro hmem
  have hsome := (h.owes.blocks a).mpr hmem
  rw [hnew] at hsome
  cases hsome

/-- The blocks in use after one more is taken. -/
theorem Owns.blocks_put (h : mem.Owns vm nodes addrs lost lostMappings) {mem' : MemoryHeap}
    {a : Nat} {e : MemoryEntry}
    (hentries : mem'.host.entries = fun b => if b = a then some e else mem.host.entries b)
    (b : Nat) : (mem'.host.entries b).isSome = true ↔ b ∈ a :: (addrs ++ lost) := by
  rw [hentries, List.mem_cons]
  by_cases hb : b = a
  · exact iff_of_true (by simp [hb]) (Or.inl hb)
  · simp only [if_neg hb]
    rw [h.owes.blocks b]
    exact ⟨Or.inr, fun hc => hc.resolve_left hb⟩

/-- A call whose entry gets no list node loses the block, and the mapping with it. -/
theorem Owns.alloc_lost {mem' : MemoryHeap} {a : Nat} {e : MemoryEntry}
    (h : mem.Owns vm nodes addrs lost lostMappings) (hnew : mem.host.entries a = none)
    (hentries : mem'.host.entries = fun b => if b = a then some e else mem.host.entries b)
    (hlist : mem'.memoryEntries = mem.memoryEntries) {vm' : Vm}
    (hmodels : mem'.Models vm' nodes addrs)
    (hheld : mem'.host.mappings.Perm (e.mapping ++ mem.host.mappings))
    (hacc : mem'.host.Accounted) :
    mem'.Owns vm' nodes addrs (a :: lost) (e.mapping ++ lostMappings) := by
  have hnot := h.new_not_mem hnew
  have hitems : vm'.memoryEntries = vm.memoryEntries := by
    refine (List.map_inj_right fun _ _ => Option.some.inj).mp ?_
    rw [← hmodels.entries, ← h.models.entries, hentries]
    refine List.map_congr_left fun b hb => if_neg ?_
    rintro rfl
    exact hnot (List.mem_append_left _ hb)
  refine ⟨hmodels, by rw [hlist]; exact h.only, by rw [hlist]; exact h.freeFunc, hmodels.entries,
    fun b => ?_, ?_, ?_, hacc⟩
  · rw [List.perm_middle.mem_iff]
    exact h.blocks_put hentries b
  · exact List.perm_middle.nodup_iff.mpr (List.nodup_cons.mpr ⟨hnot, h.owes.nodup⟩)
  · rw [hitems]
    refine hheld.trans ((h.owes.held.append_left _).trans ?_)
    rw [← List.append_assoc, ← List.append_assoc]
    exact List.perm_append_comm.append_right _

/-- A call whose entry gets a list node owes one entry more. -/
theorem Owns.alloc_added {mem' : MemoryHeap} {a node : Nat} {e : MemoryEntry}
    (h : mem.Owns vm nodes addrs lost lostMappings) (hnew : mem.host.entries a = none)
    (hentries : mem'.host.entries = fun b => if b = a then some e else mem.host.entries b)
    (hadd : linkedListAdd mem.memoryEntries (some a) (some node) = .ok (mem'.memoryEntries, 1))
    {vm' : Vm} (hmodels : mem'.Models vm' (nodes ++ [node]) (addrs ++ [a]))
    (hitems : vm'.memoryEntries = vm.memoryEntries ++ [e])
    (hheld : mem'.host.mappings.Perm (e.mapping ++ mem.host.mappings))
    (hacc : mem'.host.Accounted) :
    mem'.Owns vm' (nodes ++ [node]) (addrs ++ [a]) lost lostMappings := by
  have hnot := h.new_not_mem hnew
  have hnode : node ∉ nodes := fun hmem => (List.nodup_append.mp hmodels.list.forward.nodup).2.2
    node hmem node List.mem_cons_self rfl
  have happ := h.models.list.forward.appended hnode hadd
  refine ⟨hmodels, fun b => happ.only h.only, happ.freeFunc.trans h.freeFunc, hmodels.entries,
    fun b => ?_, ?_, ?_, hacc⟩
  · rw [List.append_assoc, List.singleton_append, List.perm_middle.mem_iff]
    exact h.blocks_put hentries b
  · rw [List.append_assoc, List.singleton_append]
    exact List.perm_middle.nodup_iff.mpr (List.nodup_cons.mpr ⟨hnot, h.owes.nodup⟩)
  · rw [hitems, List.flatMap_append, List.flatMap_singleton]
    refine hheld.trans ((h.owes.held.append_left _).trans ?_)
    rw [← List.append_assoc]
    exact List.perm_append_comm.append_right _

/-- What one call of `memory_alloc` owns and loses. -/
theorem Owns.alloc (h : mem.Owns vm nodes addrs lost lostMappings) (hfresh : mem.Fresh c)
    {fuel : Nat} (hfuel : nodes.length ≤ fuel) :
    ∃ mem' nodes' addrs' lost' lostMappings', mem.alloc fuel c = .ok mem' ∧
      mem'.Owns (BlackHV.memoryAlloc vm c.physAddr c.size c.type c.alloc.host).1
        nodes' addrs' lost' lostMappings' ∧ nodes'.length ≤ nodes.length + 1 ∧
      (lost' = [] ∧ lostMappings' = [] ↔
        (lost = [] ∧ lostMappings = []) ∧ vm.KeepsTrack c.alloc) := by
  obtain ⟨mem', halloc, hsteps⟩ := memoryAlloc_steps h.models h.owes.accounted hfresh hfuel
  have hrun : mem.alloc fuel c = .ok mem' := by
    rw [MemoryHeap.alloc, halloc, ok_bind]
  rcases hsteps.block with ⟨hreach, hentries, hlist, hmodels⟩ |
    ⟨a, block, e, hreach, hentry, hmade, hentries, ⟨hnode, hlist, hmodels⟩ |
      ⟨node, hnode, hadd, hmodels⟩⟩
  · obtain ⟨lostMappings', howns, hiff⟩ := h.alloc_refused hreach hentries hlist hmodels
      hsteps.held hsteps.accounted
    exact ⟨mem', nodes, addrs, lost, lostMappings', hrun, howns, Nat.le_succ _, hiff⟩
  · have hheld := hsteps.held_of_made hreach hmade
    refine ⟨mem', nodes, addrs, _, _, hrun,
      h.alloc_lost (hfresh.entry a block hentry) hentries hlist hmodels hheld hsteps.accounted,
      Nat.le_succ _, ?_⟩
    refine iff_of_false (fun hl => by cases hl.1) fun hk => ?_
    have hyes := hk.2.1 hreach
    rw [BlockCall.alloc, hnode] at hyes
    cases hyes
  · have hheld := hsteps.held_of_made hreach hmade
    have hyes : c.alloc.host.node = true := by rw [BlockCall.alloc, hnode]; rfl
    have hitems : (BlackHV.memoryAlloc vm c.physAddr c.size c.type c.alloc.host).1.memoryEntries =
        vm.memoryEntries ++ [e] := by
      rw [show BlackHV.memoryAlloc vm c.physAddr c.size c.type c.alloc.host =
        BlackHV.memoryAlloc vm c.alloc.physAddr c.alloc.size c.alloc.type c.alloc.host from rfl,
        Vm.memoryEntries_alloc, Vm.entryAdded, if_pos ⟨hreach.1, hyes⟩, hmade]
      rfl
    refine ⟨mem', _, _, lost, lostMappings, hrun, h.alloc_added (hfresh.entry a block hentry)
      hentries hadd hmodels hitems hheld hsteps.accounted, ?_, ?_⟩
    · exact Nat.le_of_eq (by rw [List.length_append, List.length_singleton])
    · have hkeeps : vm.KeepsTrack c.alloc :=
        ⟨fun _ => hyes, fun _ => lostMapping_eq_nil_iff.mp (lostMapping_of_reaches hreach)⟩
      exact ⟨fun hl => ⟨hl, hkeeps⟩, fun hl => hl.1⟩

/-- A run of calls on a map that has lost nothing: it has lost something at the end
exactly if one of the calls did not keep track. -/
theorem Owns.run (h : mem.Owns vm nodes addrs lost lostMappings) {calls : List BlockCall}
    {fuel : Nat} (hfuel : nodes.length + calls.length ≤ fuel)
    (hfresh : Runs.EachStep (MemoryHeap.alloc fuel) Fresh mem calls) :
    ∃ mem' vm' nodes' addrs' lost' lostMappings',
      Runs.run (MemoryHeap.alloc fuel) mem calls = .ok mem' ∧
      mem'.Owns vm' nodes' addrs' lost' lostMappings' ∧ nodes'.length ≤ fuel ∧
      (lost' = [] ∧ lostMappings' = [] ↔ (lost = [] ∧ lostMappings = []) ∧
        Runs.EachStep Vm.alloc Vm.KeepsTrack vm (calls.map BlockCall.alloc)) := by
  induction calls generalizing mem vm nodes addrs lost lostMappings with
  | nil =>
      refine ⟨mem, vm, nodes, addrs, lost, lostMappings, rfl, h, hfuel, ?_⟩
      exact ⟨fun hl => ⟨hl, trivial⟩, fun hl => hl.1⟩
  | cons c calls ih =>
      rw [List.length_cons] at hfuel
      obtain ⟨mem₁, nodes₁, addrs₁, lost₁, lostMappings₁, hstep, howns, hlen, hiff⟩ :=
        h.alloc hfresh.1 (by omega : nodes.length ≤ fuel)
      obtain ⟨mem', vm', nodes', addrs', lost', lostMappings', hrun, howns', hlen', hiff'⟩ :=
        ih howns (by omega : nodes₁.length + calls.length ≤ fuel) (hfresh.2 mem₁ hstep)
      refine ⟨mem', vm', nodes', addrs', lost', lostMappings', ?_, howns', hlen', ?_⟩
      · exact (Runs.run_cons_ok hstep).trans hrun
      · rw [hiff', hiff, List.map_cons]
        constructor
        · rintro ⟨⟨hl, hkeeps⟩, hrest⟩
          refine ⟨hl, hkeeps, fun vm₁ hvm₁ => ?_⟩
          cases hvm₁
          exact hrest
        · rintro ⟨hl, hkeeps, hrest⟩
          exact ⟨⟨hl, hkeeps⟩, hrest _ rfl⟩

end MemoryHeap

/-- **When nothing survives `memory_destroy`.**  For every sequence of calls of
`memory_alloc` on a new map, whatever types and outcomes they have: the calls and
`memory_destroy` run without a fault, so no block is freed twice, and afterwards no list
node, no entry and no mapping is left, each mapping having been unmapped once, if and
only if every entry that was made got its list node, and no mapping was made at
address 0. -/
theorem memory_destroy_releases_iff {block list : Bool} {mem : MemoryHeap}
    (hnew : memoryNew block list = some mem) {calls : List BlockCall} {fuel : Nat}
    (hfuel : calls.length ≤ fuel)
    (hfresh : Runs.EachStep (MemoryHeap.alloc fuel) MemoryHeap.Fresh mem calls) :
    ∃ mem' left, Runs.run (MemoryHeap.alloc fuel) mem calls = .ok mem' ∧
      memoryDestroy mem' fuel = .ok left ∧
      (Released left ↔
        Runs.EachStep Vm.alloc Vm.KeepsTrack Vm.new (calls.map BlockCall.alloc)) := by
  obtain ⟨mem', vm', nodes, addrs, lost, lostMappings, hrun, howns, hlen, hiff⟩ :=
    (MemoryHeap.owns_new hnew).run (by rw [List.length_nil]; omega) hfresh
  obtain ⟨left, hdestroy, hnodes, howes⟩ := howns.destroy hlen
  refine ⟨mem', left, hrun, hdestroy, ?_⟩
  rw [MemoryHeap.released_iff hnodes howes, hiff]
  exact ⟨fun hl => hl.2, fun hk => ⟨⟨rfl, rfl⟩, hk⟩⟩

/-- RAM, RAM that KVM refuses, MMIO, and RAM whose entry gets no list node. -/
theorem memory_destroy_releases_iff_four :
    let block : MemoryEntry := ⟨0, 0, 0, 0, 0⟩
    let calls : List BlockCall :=
      [⟨0, 0x1000, memoryUsable, ⟨some (1, block), 0x7F0000000000, true, some 2⟩⟩,
        ⟨0x4000, 0x1000, memoryUsable, ⟨some (3, block), 0x7F0000010000, false, some 4⟩⟩,
        ⟨0xC0000000, 0x1000, memoryMmio, ⟨some (3, block), 0, true, some 4⟩⟩,
        ⟨0x8000, 0x1000, memoryUsable, ⟨some (5, block), 0x7F0000010000, true, none⟩⟩]
    ∃ mem, memoryNew true true = some mem ∧
      ∃ mem' left, Runs.run (MemoryHeap.alloc 4) mem calls = .ok mem' ∧
        memoryDestroy mem' 4 = .ok left ∧
        (Released left ↔
          Runs.EachStep Vm.alloc Vm.KeepsTrack Vm.new (calls.map BlockCall.alloc)) := by
  intro block calls
  refine ⟨_, rfl, memory_destroy_releases_iff (show memoryNew true true = _ from rfl)
    (Nat.le_refl 4) ?_⟩
  decide +kernel

/-- RAM whose entry gets no list node: `memory_alloc` returns 1, and after
`memory_destroy` the mapping and the entry are still there. -/
theorem memory_destroy_leaks :
    ∃ mem mem' left, memoryNew true true = some mem ∧
      mem.memoryAlloc ⟨0, 0x1000, memoryUsable,
        ⟨some (1, ⟨0, 0, 0, 0, 0⟩), 0x7F0000000000, true, none⟩⟩ 1 = .ok (mem', true) ∧
      memoryDestroy mem' 1 = .ok left ∧ left.2.mappings = [(0x7F0000000000, 0x1000)] ∧
      left.2.unmapped = [] ∧
      left.2.entries 1 = some ⟨0x7F0000000000, 0, 0x1000, 0, memoryUsable⟩ ∧ ¬ Released left := by
  refine ⟨_, _, _, rfl, rfl, rfl, rfl, rfl, rfl, fun hr => ?_⟩
  cases hr.mappings

end BlackHV
