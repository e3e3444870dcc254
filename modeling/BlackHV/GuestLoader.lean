import BlackHV.HostCopies

/-! # The loader of the test guests

`examples/guests/main.c` reads a binary into a buffer, and puts what it has read into the RAM
of a new VM with `memory_write`.  `memory_write` stores as much as there is room for; the loop
looks at the sign of its result only.  So what does not fit of the last part is dropped without
a word, and nothing else is.
-/
namespace BlackHV

open FlatMemory

/-- `START_ADDRESS`. -/
def startAddress : Nat := 0x7C00
/-- `BUFFER_SIZE`. -/
def bufferSize : Nat := 1024

/-- The body of the loop of `main`: `readed` is the sum of what the calls of `read` before have
returned. -/
def writePart (vm : Vm) (host : HostMemory) (readed : Nat) (buffer : List UInt8) :
    Except Fault HostMemory := do
  let (host, result) ← memoryWrite vm host (UInt64.ofNat (startAddress + readed)) buffer
  if result < 0 then .error .exit else .ok host

/-- The loop, over the calls of `read`, each with the bytes it has read or, where it returns
-1, `none`. -/
def loadBinary (vm : Vm) (host : HostMemory) (readed : Nat) :
    List (Option (List UInt8)) → Except Fault HostMemory
  | [] => .ok host
  | none :: _ => .ok host
  | some [] :: _ => .ok host
  | some (b :: buffer) :: rest => do
      let host ← writePart vm host readed (b :: buffer)
      loadBinary vm host (readed + (b :: buffer).length) rest

/-- The parts of the binary that are read before a call has nothing, or fails. -/
def partsRead : List (Option (List UInt8)) → List (List UInt8)
  | some (b :: buffer) :: rest => (b :: buffer) :: partsRead rest
  | _ => []

theorem ne_nil_of_mem_partsRead {reads : List (Option (List UInt8))} :
    ∀ part ∈ partsRead reads, part ≠ [] := by
  induction reads with
  | nil => exact fun _ hp => absurd hp List.not_mem_nil
  | cons read rest ih =>
      rcases read with _ | _ | ⟨b, buffer⟩
      · exact fun _ hp => absurd hp List.not_mem_nil
      · exact fun _ hp => absurd hp List.not_mem_nil
      · intro part hp
        rcases List.mem_cons.mp hp with rfl | hp
        · exact List.cons_ne_nil b buffer
        · exact ih part hp

/-- The parts are put one behind the other from `a` on, and each starts below `limit`. -/
def StartsBelow (limit a : Nat) (parts : List (List UInt8)) : Prop :=
  ∀ before part after, parts = before ++ part :: after → a + before.flatten.length < limit

theorem startsBelow_nil {limit a : Nat} : StartsBelow limit a [] :=
  fun before _ _ h => absurd h.symm (List.append_ne_nil_of_right_ne_nil before nofun)

theorem startsBelow_cons {limit a : Nat} {part : List UInt8} {parts : List (List UInt8)} :
    StartsBelow limit a (part :: parts) ↔
      a < limit ∧ StartsBelow limit (a + part.length) parts := by
  constructor
  · intro h
    refine ⟨h [] part parts rfl, fun before p after heq => ?_⟩
    have hlt := h (part :: before) p after (congrArg (part :: ·) heq)
    rwa [List.flatten_cons, List.length_append, ← Nat.add_assoc] at hlt
  · rintro ⟨hfirst, hrest⟩ before p after heq
    rcases before with _ | ⟨q, before⟩
    · exact hfirst
    · obtain ⟨rfl, htail⟩ := List.cons.inj heq
      have hlt := hrest before p after htail
      rwa [List.flatten_cons, List.length_append, ← Nat.add_assoc]

/-- Where all parts but the last are as long as the buffer, and a whole number of them fits,
they all start below the end exactly if they all fit. -/
theorem startsBelow_full {parts : List (List UInt8)} (hne : ∀ part ∈ parts, part ≠ [])
    (hle : ∀ part ∈ parts, part.length ≤ bufferSize)
    (hfull : ∀ part ∈ parts.dropLast, part.length = bufferSize) (a buffers : Nat) :
    StartsBelow (a + bufferSize * buffers) a parts ↔
      parts.flatten.length ≤ bufferSize * buffers := by
  induction parts generalizing a buffers with
  | nil => exact iff_of_true startsBelow_nil (Nat.zero_le _)
  | cons part rest ih =>
      have hpos : 0 < part.length := List.length_pos_iff.mpr (hne part List.mem_cons_self)
      have hmost := hle part List.mem_cons_self
      have hsize : bufferSize = 1024 := rfl
      rw [startsBelow_cons, List.flatten_cons, List.length_append]
      rcases rest with _ | ⟨next, rest⟩
      · rw [and_iff_left startsBelow_nil, List.flatten_nil, List.length_nil]
        rcases buffers with _ | buffers
        · omega
        · rw [Nat.mul_succ]
          omega
      · have hlen : part.length = bufferSize := hfull part List.mem_cons_self
        rcases buffers with _ | buffers
        · omega
        · have hrest := ih (fun p hp => hne p (List.mem_cons_of_mem _ hp))
            (fun p hp => hle p (List.mem_cons_of_mem _ hp))
            (fun p hp => hfull p (List.mem_cons_of_mem _ hp)) (a + part.length) buffers
          rw [hlen] at hrest ⊢
          rw [Nat.mul_succ, Nat.add_comm _ bufferSize, ← Nat.add_assoc, hrest]
          omega

section Load
variable {vm : Vm} {e : MemoryEntry}

theorem puts_writePart (h : vm.LowRam e) {readed : Nat} (hlt : startAddress + readed < 2 ^ 64)
    (buffer : List UInt8) :
    Puts (view vm.translate) (fun host => writePart vm host readed buffer)
      (startAddress + readed < e.size.toNat)
      [(startAddress + readed, buffer.take (e.size.toNat - (startAddress + readed)))] := by
  have hdest : (UInt64.ofNat (startAddress + readed)).toNat = startAddress + readed := by
    rw [UInt64.toNat_ofNat', Nat.mod_eq_of_lt hlt]
  intro host
  show PutsAt _ host (writePart vm host readed buffer) _ _
  refine PutsAt.of_cases (fun hbelow => ?_) fun habove => ⟨.exit, ?_⟩
  · obtain ⟨host', result, hwrite, ⟨-, hpos, hview⟩ | ⟨hle, -⟩⟩ :=
      h.memoryWrite_cases host (UInt64.ofNat (startAddress + readed)) buffer
    · have hnot : ¬ result < 0 := fun hr => Int.not_lt.mpr hpos (Int64.lt_iff_toInt_lt.mp hr)
      rw [hdest] at hview
      refine ⟨host', ?_, hview⟩
      rw [writePart, hwrite, ok_bind]
      exact if_neg hnot
    · rw [hdest] at hle
      omega
  · obtain ⟨host', result, hwrite, ⟨hlt', -⟩ | ⟨-, hneg⟩⟩ :=
      h.memoryWrite_cases host (UInt64.ofNat (startAddress + readed)) buffer
    · rw [hdest] at hlt'
      exact absurd hlt' habove
    · rw [writePart, hwrite, ok_bind]
      exact if_pos (Int64.lt_iff_toInt_lt.mpr hneg)

theorem puts_nothing (limit a : Nat) :
    Puts (view vm.translate) (fun host : HostMemory => (.ok host : Except Fault HostMemory))
      (StartsBelow limit a []) [(a, ([] : List UInt8).take (limit - a))] := by
  refine (Puts.skip.congr (iff_of_true trivial startsBelow_nil)).congr_copies fun cells => ?_
  rw [List.take_nil]
  exact overwrite_nil.symm

/-- **The loop is one copy**, of everything it reads, cut off where the RAM ends. -/
theorem puts_loadBinary (h : vm.LowRam e) {reads : List (Option (List UInt8))}
    (hreads : ∀ part ∈ partsRead reads, part.length ≤ bufferSize) {readed : Nat}
    (hlt : startAddress + readed < 2 ^ 64) :
    Puts (view vm.translate) (fun host => loadBinary vm host readed reads)
      (StartsBelow e.size.toNat (startAddress + readed) (partsRead reads))
      [(startAddress + readed,
        (partsRead reads).flatten.take (e.size.toNat - (startAddress + readed)))] := by
  induction reads generalizing readed with
  | nil => exact puts_nothing _ _
  | cons read rest ih =>
      rcases read with _ | _ | ⟨b, buffer⟩
      · exact puts_nothing _ _
      · exact puts_nothing _ _
      · have hpart := puts_writePart h hlt (b :: buffer)
        by_cases hbelow : startAddress + readed < e.size.toNat
        · have hlen : (b :: buffer).length ≤ 1024 := hreads _ List.mem_cons_self
          have hsize := (Vm.isBacked_of_readable h.backed h.mem h.readable).2.size_lt
          have hrest := ih (fun part hp => hreads part (List.mem_cons_of_mem _ hp))
            (show startAddress + (readed + (b :: buffer).length) < 2 ^ 64 by omega)
          refine ((hpart.andThen hrest).congr ?_).congr_copies fun cells => ?_
          · rw [← Nat.add_assoc]
            exact startsBelow_cons.symm
          · rw [← Nat.add_assoc, Nat.sub_add_eq _ (startAddress + readed) (b :: buffer).length]
            exact overwrite_take_append ..
        · exact hpart.andThen_fail hbelow fun hp => hbelow (startsBelow_cons.mp hp).1

/-- **Nothing but the end is lost.**  The loader returns exactly if every part of the binary
starts in the RAM, and then the RAM has the binary, cut off where it ends. -/
theorem guest_binary_loaded_iff (h : vm.LowRam e) (host : HostMemory)
    {reads : List (Option (List UInt8))}
    (hreads : ∀ part ∈ partsRead reads, part.length ≤ bufferSize) :
    ((∃ host', loadBinary vm host 0 reads = .ok host') ↔
      StartsBelow e.size.toNat startAddress (partsRead reads)) ∧
    ∀ host', loadBinary vm host 0 reads = .ok host' → view vm.translate host' =
      overwrite (view vm.translate host) startAddress
        ((partsRead reads).flatten.take (e.size.toNat - startAddress)) := by
  have hputs := puts_loadBinary h hreads (show startAddress + 0 < 2 ^ 64 by decide)
  rw [Nat.add_zero] at hputs
  refine ⟨(hputs host).succeeds_iff, fun host' hload => ?_⟩
  rw [(hputs host).seen host' hload, overwriteAll_singleton]

theorem guest_binary_loaded_iff_cut : ∃ vm e host', Vm.LowRam vm e ∧ e.size = 0x7C02 ∧
    loadBinary vm (fun _ => 0) 0 [some [1], some [2, 3], none, some [4]] = .ok host' ∧
    view vm.translate host' = overwrite (view vm.translate fun _ => 0) startAddress [1, 2] := by
  obtain ⟨vm, e, hlow, hsize⟩ := Vm.exists_lowRam (show (0x7C02 : UInt64).toNat ≤ 2 ^ 30 by decide)
  have hparts : ∀ part ∈ partsRead [some [1], some [2, 3], none, some [4]],
      part.length ≤ bufferSize := by decide
  obtain ⟨hiff, hseen⟩ := guest_binary_loaded_iff hlow (fun _ => 0) hparts
  rw [hsize] at hiff hseen
  obtain ⟨host', hload⟩ := hiff.mpr
    (startsBelow_cons.mpr ⟨by decide, startsBelow_cons.mpr ⟨by decide, startsBelow_nil⟩⟩)
  exact ⟨vm, e, host', hlow, hsize, hload, hseen host' hload⟩

/-- **All or nothing, of a file.**  Where every call of `read` but the last fills the buffer,
and the RAM ends a whole number of buffers behind the start, the loader returns exactly if the
binary fits, and then all of it is there. -/
theorem guest_binary_whole (h : vm.LowRam e) (host : HostMemory)
    {reads : List (Option (List UInt8))}
    (hreads : ∀ part ∈ partsRead reads, part.length ≤ bufferSize)
    (hfull : ∀ part ∈ (partsRead reads).dropLast, part.length = bufferSize)
    {buffers : Nat} (hsize : e.size.toNat = startAddress + bufferSize * buffers) :
    ((∃ host', loadBinary vm host 0 reads = .ok host') ↔
      (partsRead reads).flatten.length ≤ bufferSize * buffers) ∧
    ∀ host', loadBinary vm host 0 reads = .ok host' → view vm.translate host' =
      overwrite (view vm.translate host) startAddress (partsRead reads).flatten := by
  have hputs := puts_loadBinary h hreads (show startAddress + 0 < 2 ^ 64 by decide)
  rw [Nat.add_zero, hsize] at hputs
  have hfits := hputs.congr
    (startsBelow_full ne_nil_of_mem_partsRead hreads hfull startAddress buffers)
  refine ⟨(hfits host).succeeds_iff, fun host' hload => ?_⟩
  have hroom := (hfits host).succeeds_iff.mp ⟨host', hload⟩
  rw [(hfits host).seen host' hload, overwriteAll_singleton, Nat.add_sub_cancel_left,
    List.take_of_length_le hroom]

theorem guest_binary_whole_small : ∃ vm e host', Vm.LowRam vm e ∧ e.size = 0x100000 ∧
    loadBinary vm (fun _ => 0) 0 [some [0xF4, 7], some []] = .ok host' ∧
    view vm.translate host' = overwrite (view vm.translate fun _ => 0) startAddress [0xF4, 7] := by
  obtain ⟨vm, e, hlow, hsize⟩ :=
    Vm.exists_lowRam (show (0x100000 : UInt64).toNat ≤ 2 ^ 30 by decide)
  have hparts : ∀ part ∈ partsRead [some [0xF4, 7], some []], part.length ≤ bufferSize := by decide
  have hfull : ∀ part ∈ (partsRead [some [0xF4, 7], some []]).dropLast,
      part.length = bufferSize := by decide
  have hend : e.size.toNat = startAddress + bufferSize * 993 := by
    rw [hsize]
    decide
  obtain ⟨hiff, hseen⟩ := guest_binary_whole hlow (fun _ => 0) hparts hfull hend
  obtain ⟨host', hload⟩ := hiff.mpr (by decide)
  exact ⟨vm, e, host', hlow, hsize, hload, hseen host' hload⟩

end Load

end BlackHV
