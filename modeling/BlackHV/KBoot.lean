import BlackHV.KLoader

/-! # What k finds in its memory

`load_k` copies through the pointers of one range of RAM that starts at 0.  No copy looks
where the range ends, so the loader returns exactly if every copy fits; `k_load_iff` says so,
and what it leaves there.  What it has written, the guest reads back, as long as no later copy
goes over it: there is no test for that either.
-/
namespace BlackHV

open Spans FlatMemory

/-! ## The segments -/

section Segments
variable {vm : Vm} {e : MemoryEntry} {image : List UInt8} {P : Prop}
  {copies : List (Nat × List UInt8)} {see : HostMemory → Nat → Option UInt8}

/-- A program that reads bytes of the file. -/
theorem puts_imageBytes {offset count : Nat}
    {prog : List UInt8 → HostMemory → Except Fault HostMemory}
    (h : Puts see (prog ((image.drop offset).take count)) P copies) :
    Puts see (fun host => imageBytes image offset count >>= fun bytes => prog bytes host)
      (offset + count ≤ image.length ∧ P) copies :=
  fun host => .lookup (fun hin => if_pos hin) (fun hout => ⟨_, if_neg hout⟩) fun _ => h host

/-- A program that reads a field of the file. -/
theorem puts_imageField {offset count : Nat} {prog : Nat → HostMemory → Except Fault HostMemory}
    (h : Puts see (prog (fieldAt image offset count)) P copies) :
    Puts see (fun host => imageField image offset count >>= fun field => prog field host)
      (offset + count ≤ image.length ∧ P) copies := by
  refine fun host => .lookup (fun hin => ?_) (fun hout => ⟨.outOfBounds, ?_⟩) fun _ => h host
  · unfold imageField imageBytes
    rw [if_pos hin]
    rfl
  · unfold imageField imageBytes
    rw [if_neg hout]
    rfl

/-- A field is a number of so many bytes. -/
theorem fieldAt_lt (image : List UInt8) (offset count : Nat) :
    fieldAt image offset count < 256 ^ count := by
  have hlen : ((image.drop offset).take count).length ≤ count := List.length_take_le count _
  calc fieldAt image offset count
      < 256 ^ ((image.drop offset).take count).length := Bytes.ofLe_lt _
    _ ≤ 256 ^ count := Nat.pow_le_pow_right (by decide) hlen

/-- The two copies of a segment, to an address in the range. -/
theorem puts_copySegment (h : vm.LowRam e) {phdr : Nat}
    (hlt : fieldAt image (phdr + 12) 4 < e.size.toNat) :
    Puts (view vm.translate)
      (fun host => copySegment vm host image phdr (Vm.hostOf e (fieldAt image (phdr + 12) 4)))
      (CopyFits image e.size.toNat phdr) (segmentAt image phdr).copies := by
  have hzeros := h.puts_storeBytes (Nat.le_of_lt hlt)
    (List.replicate (fieldAt image (phdr + 20) 4) 0)
  have hbytes := h.puts_storeBytes (Nat.le_of_lt hlt)
    ((image.drop (fieldAt image (phdr + 4) 4)).take (fieldAt image (phdr + 16) 4))
  apply Puts.congr
  · unfold copySegment
    exact puts_imageField (hzeros.andThen
      (puts_imageField (puts_imageField (puts_imageBytes hbytes))))
  · rw [List.length_replicate]
    constructor
    · rintro ⟨hhdr, hzero, -, -, hfile, hroom⟩
      rw [List.length_take_of_le (by rw [List.length_drop]; omega)] at hroom
      exact ⟨hhdr, hzero, hroom, hfile⟩
    · rintro ⟨hhdr, hzero, hroom, hfile⟩
      rw [List.length_take_of_le (by rw [List.length_drop]; omega)]
      exact ⟨hhdr, hzero, by omega, by omega, hfile, hroom⟩

/-- What the header at an offset says to copy. -/
def copiesAt (image : List UInt8) (phdr : Nat) : List (Nat × List UInt8) :=
  if LoadsAt image phdr then (segmentAt image phdr).copies else []

/-- **A segment is loaded exactly if it fits.** -/
theorem puts_loadSegment (h : vm.LowRam e) (image : List UInt8) (phdr : Nat) :
    Puts (view vm.translate) (fun host => loadSegment vm host image phdr)
      (SegmentFits image e.size.toNat phdr) (copiesAt image phdr) := by
  have haddr : (UInt64.ofNat (fieldAt image (phdr + 12) 4)).toNat =
      fieldAt image (phdr + 12) 4 := by
    rw [UInt64.toNat_ofNat', Nat.mod_eq_of_lt
      (Nat.lt_of_lt_of_le (fieldAt_lt image _ 4) (by decide))]
  unfold loadSegment copiesAt
  by_cases hloads : LoadsAt image phdr
  · have htype : ¬ fieldAt image phdr 4 % 2 = 0 := by
      rw [show fieldAt image phdr 4 % 2 = 1 from hloads]
      decide
    rw [if_pos hloads]
    have hmem : Puts (view vm.translate)
        (fun host =>
          if memoryGetPtr vm (UInt64.ofNat (fieldAt image (phdr + 12) 4)) = 0 then .error .exit
          else copySegment vm host image phdr
            (memoryGetPtr vm (UInt64.ofNat (fieldAt image (phdr + 12) 4))))
        (fieldAt image (phdr + 12) 4 < e.size.toNat ∧ CopyFits image e.size.toNat phdr)
        (segmentAt image phdr).copies := by
      obtain ⟨hlt, hne, hptr⟩ | ⟨hge, hz⟩ :=
        h.memoryGetPtr_cases (UInt64.ofNat (fieldAt image (phdr + 12) 4))
      · rw [haddr] at hlt hptr
        rw [hptr] at hne ⊢
        simp only [if_neg hne]
        exact (puts_copySegment h hlt).congr (and_iff_right hlt).symm
      · rw [haddr] at hge
        simp only [if_pos hz]
        exact Puts.fail fun hboth => Nat.not_lt_of_le hge hboth.1
    have hpaddr : Puts (view vm.translate)
        (fun host => imageField image (phdr + 12) 4 >>= fun pPaddr =>
          if memoryGetPtr vm (UInt64.ofNat pPaddr) = 0 then .error .exit
          else copySegment vm host image phdr (memoryGetPtr vm (UInt64.ofNat pPaddr)))
        (phdr + 12 + 4 ≤ image.length ∧
          fieldAt image (phdr + 12) 4 < e.size.toNat ∧ CopyFits image e.size.toNat phdr)
        (segmentAt image phdr).copies := puts_imageField hmem
    refine (puts_imageField (P := phdr + 12 + 4 ≤ image.length ∧
      fieldAt image (phdr + 12) 4 < e.size.toNat ∧ CopyFits image e.size.toNat phdr) ?_).congr ?_
    · simp only [if_neg htype]
      exact hpaddr
    · constructor
      · rintro ⟨htype, -, hlt, hfits⟩
        exact ⟨htype, fun _ => ⟨hlt, hfits⟩⟩
      · rintro ⟨htype, hall⟩
        obtain ⟨hlt, hfits⟩ := hall hloads
        have hhdr := hfits.header
        exact ⟨htype, by omega, hlt, hfits⟩
  · have htype : fieldAt image phdr 4 % 2 = 0 :=
      (Nat.mod_two_eq_zero_or_one _).resolve_right hloads
    rw [if_neg hloads]
    refine (puts_imageField (P := True) ?_).congr ?_
    · simp only [if_pos htype]
      exact Puts.skip
    · exact ⟨fun hin => ⟨hin.1, fun hl => absurd hl hloads⟩, fun hfits => ⟨hfits.type, trivial⟩⟩

theorem segmentsFit_succ {limit phdr left : Nat} :
    SegmentFits image limit phdr ∧ SegmentsFit image limit (phdr + phdrSize) left ↔
      SegmentsFit image limit phdr (left + 1) := by
  constructor
  · rintro ⟨hfirst, hrest⟩ i hi
    rcases i with _ | i
    · exact hfirst
    · have hi' := hrest i (Nat.lt_of_succ_lt_succ hi)
      rwa [Nat.add_assoc, Nat.add_comm phdrSize, ← Nat.mul_succ] at hi'
  · intro hall
    refine ⟨hall 0 (Nat.succ_pos left), fun i hi => ?_⟩
    have hi' := hall (i + 1) (Nat.succ_lt_succ hi)
    rwa [Nat.mul_succ, Nat.add_comm (phdrSize * i), ← Nat.add_assoc] at hi'

/-- The loop loads the segments one after the other. -/
theorem puts_loadSegments (h : vm.LowRam e) (image : List UInt8) (phdr left : Nat) :
    Puts (view vm.translate) (fun host => loadSegments vm host image phdr left)
      (SegmentsFit image e.size.toNat phdr left)
      ((segmentsFrom image phdr left).flatMap Segment.copies) := by
  induction left generalizing phdr with
  | zero => exact Puts.skip.congr ⟨fun _ i hi => absurd hi (Nat.not_lt_zero i), fun _ => trivial⟩
  | succ left ih =>
      have hboth := (puts_loadSegment h image phdr).andThen (ih (phdr + phdrSize))
      have hcopies : copiesAt image phdr ++
          (segmentsFrom image (phdr + phdrSize) left).flatMap Segment.copies =
          (segmentsFrom image phdr (left + 1)).flatMap Segment.copies := by
        unfold copiesAt
        rw [segmentsFrom]
        split
        · rfl
        · rfl
      rw [hcopies] at hboth
      exact hboth.congr segmentsFit_succ

/-- The segments of a file are loaded exactly if they fit. -/
theorem puts_loadImage (h : vm.LowRam e) (image : List UInt8) :
    Puts (view vm.translate) (fun host => loadImage vm host image)
      (46 ≤ image.length ∧
        SegmentsFit image e.size.toNat (fieldAt image 28 4) (fieldAt image 44 2))
      ((segments image).flatMap Segment.copies) := by
  apply Puts.congr
  · unfold loadImage
    exact puts_imageField (puts_imageField (puts_loadSegments h image _ _))
  · constructor
    · rintro ⟨-, hlen, hfit⟩
      exact ⟨hlen, hfit⟩
    · rintro ⟨hlen, hfit⟩
      exact ⟨by omega, hlen, hfit⟩

end Segments

/-! ## The boot information -/

section Boot
variable {vm : Vm} {e : MemoryEntry} {list : LinkedList MemoryEntry} {nodes : List Nat}

/-- The table has the one entry. -/
theorem e820TableGet_single (hl : list.Holds nodes [e]) (table entries : Bool) :
    e820TableGet list table entries =
      .ok (if table = true ∧ entries = true then some [some (e820Entry e)] else none) := by
  by_cases hboth : table = true ∧ entries = true
  · obtain ⟨rfl, rfl⟩ := hboth
    rw [e820TableGet_spec hl]
    rfl
  · rw [if_neg hboth, e820TableGet, if_neg (by rwa [Bool.and_eq_true])]

/-- A field of the multiboot information. -/
theorem puts_infoField (h : vm.LowRam e)
    (hinfo : multibootGuest.toNat + multibootInfoSize ≤ e.size.toNat) {k : Nat}
    (hk : k + 4 ≤ multibootInfoSize) (n : Nat) :
    Puts (view vm.translate)
      (fun host => storeBytes vm host (Vm.hostOf e multibootGuest.toNat + UInt64.ofNat k)
        (Bytes.le 4 n)) True [(multibootGuest.toNat + k, Bytes.le 4 n)] := by
  rw [Vm.hostOf_add]
  refine (h.puts_storeBytes (by omega) (Bytes.le 4 n)).congr (iff_true_intro ?_)
  rw [Bytes.length_le]
  omega

theorem puts_setupE820 (h : vm.LowRam e) (hl : list.Holds nodes [e]) (table entries : Bool)
    (hinfo : multibootGuest.toNat + multibootInfoSize ≤ e.size.toNat) :
    Puts (view vm.translate)
      (fun host => setupE820 vm host list table entries (Vm.hostOf e multibootGuest.toNat))
      ((table = true ∧ entries = true) ∧ memoryGuest.toNat + memoryMapSize ≤ e.size.toNat)
      [(multibootGuest.toNat + 48, Bytes.le 4 memoryGuest.toNat),
       (memoryGuest.toNat, (e820Entry e).memoryMap),
       (multibootGuest.toNat + 44, Bytes.le 4 memoryMapSize),
       (multibootGuest.toNat + 4, Bytes.le 4 0x1000)] := by
  have hmap : memoryGuest.toNat ≤ e.size.toNat → Puts (view vm.translate)
      (fun host => fillMemoryMap vm host (Vm.hostOf e memoryGuest.toNat) [some (e820Entry e)] >>=
        fun host => storeBytes vm host (Vm.hostOf e multibootGuest.toNat + 44)
          (Bytes.le 4 (1 * memoryMapSize)) >>=
        fun host => storeBytes vm host (Vm.hostOf e multibootGuest.toNat + 4)
          (Bytes.le 4 0x1000))
      (memoryGuest.toNat + memoryMapSize ≤ e.size.toNat)
      [(memoryGuest.toNat, (e820Entry e).memoryMap),
       (multibootGuest.toNat + 44, Bytes.le 4 memoryMapSize),
       (multibootGuest.toNat + 4, Bytes.le 4 0x1000)] := by
    intro hle
    have hentry := h.puts_storeBytes (a := memoryGuest.toNat) hle (e820Entry e).memoryMap
    have hlen : (e820Entry e).memoryMap.length = memoryMapSize := rfl
    rw [hlen] at hentry
    have hlength := puts_infoField h hinfo (k := 44) (by decide) (1 * memoryMapSize)
    have hlower := puts_infoField h hinfo (k := 4) (by decide) 0x1000
    exact ((hentry.andThen Puts.skip).andThen (hlength.andThen hlower)).congr
        ⟨fun hp => hp.1.1, fun hp => ⟨⟨hp, trivial⟩, trivial, trivial⟩⟩
  have haddr := puts_infoField h hinfo (k := 48) (by decide) memoryGuest.toNat
  unfold setupE820
  simp only [e820TableGet_single hl, ok_bind]
  obtain ⟨hlt, hne, hptr⟩ | ⟨hge, hz⟩ := h.memoryGetPtr_cases memoryGuest
  · rw [hptr] at hne ⊢
    have hmap := hmap (Nat.le_of_lt hlt)
    by_cases hboth : table = true ∧ entries = true
    · simp only [if_neg hne, if_pos hboth]
      exact (haddr.andThen hmap).congr
        ⟨fun hp => ⟨hboth, hp.2⟩, fun hp => ⟨trivial, hp.2⟩⟩
    · simp only [if_neg hne, if_neg hboth]
      exact (haddr.andThen (Puts.fail (P := False) id)).congr
        ⟨fun hp => hp.2.elim, fun hp => (hboth hp.1).elim⟩
  · simp only [if_pos hz]
    refine (haddr.andThen (Puts.fail (P := False) id)).congr
        ⟨fun hp => hp.2.elim, fun hp => ?_⟩
    have hsize : memoryMapSize = 24 := rfl
    omega

theorem puts_writeBootInfo (h : vm.LowRam e) (hl : list.Holds nodes [e]) (cmdline : List UInt8)
    (answers : LoadAnswers) :
    Puts (view vm.translate)
      (fun host => writeBootInfo vm host list cmdline answers)
      ((answers.table = true ∧ answers.entries = true) ∧
        memoryGuest.toNat + memoryMapSize ≤ e.size.toNat ∧
        cmdlineGuest.toNat + cmdline.length + 1 ≤ e.size.toNat)
      (bootCopies e cmdline) := by
  unfold writeBootInfo
  have hinfo : multibootGuest.toNat = 0xc10000 ∧ multibootInfoSize = 120 := ⟨rfl, rfl⟩
  have hline : cmdlineGuest.toNat = 0xc20000 := rfl
  have hmap : memoryGuest.toNat = 0xc30000 ∧ memoryMapSize = 24 := ⟨rfl, rfl⟩
  obtain ⟨hlt, hne, hptr⟩ | ⟨hge, hz⟩ := h.memoryGetPtr_cases multibootGuest
  · rw [hptr] at hne ⊢
    simp only [if_neg hne]
    have hzeros := h.puts_storeBytes (Nat.le_of_lt hlt) (List.replicate multibootInfoSize 0)
    rw [List.length_replicate] at hzeros
    by_cases hroom : multibootGuest.toNat + multibootInfoSize ≤ e.size.toNat
    · have hsetup := puts_setupE820 h hl answers.table answers.entries hroom
      have hfield : Puts (view vm.translate) (fun host => storeBytes vm host
          (Vm.hostOf e multibootGuest.toNat + UInt64.ofNat 16) (Bytes.le 4 cmdlineGuest.toNat))
          True [(multibootGuest.toNat + 16, Bytes.le 4 cmdlineGuest.toNat)] :=
        puts_infoField h hroom (by decide) _
      obtain ⟨hlt, hne, hptr⟩ | ⟨hge, hz⟩ := h.memoryGetPtr_cases cmdlineGuest
      · rw [hptr] at hne ⊢
        simp only [if_neg hne]
        have hcopy := h.puts_storeBytes (Nat.le_of_lt hlt) (cmdline ++ [0])
        rw [List.length_append, List.length_singleton, ← Nat.add_assoc] at hcopy
        exact (hzeros.andThen (hsetup.andThen (hcopy.andThen hfield))).congr
          ⟨fun hp => ⟨hp.2.1.1, hp.2.1.2, hp.2.2.1⟩,
            fun hp => ⟨hroom, ⟨hp.1, hp.2.1⟩, hp.2.2, trivial⟩⟩
      · simp only [if_pos hz]
        refine (hzeros.andThen (hsetup.andThen (Puts.fail (P := False) id))).congr
          ⟨fun hp => hp.2.2.elim, fun hp => ?_⟩
        omega
    · exact hzeros.andThen_fail hroom fun hp => by omega
  · simp only [if_pos hz]
    exact Puts.fail fun hp => by omega

/-- The registers with which the guest starts. -/
def startRegs (image : List UInt8) (regs : KvmRegs) : KvmRegs :=
  { regs with rbx := multibootGuest, rax := multibootHeaderMagic,
              rip := UInt64.ofNat (fieldAt image 24 4) }

theorem entryRegs_eq_ok {image : List UInt8} {answers : LoadAnswers} {regs : KvmRegs}
    (hlen : 28 ≤ image.length) : entryRegs image answers = .ok regs ↔
      (answers.getRegs = 0 ∧ answers.setRegs = 0) ∧ startRegs image answers.regs = regs := by
  have hentry : imageField image 24 4 = .ok (fieldAt image 24 4) := by
    unfold imageField imageBytes
    rw [if_pos hlen]
    rfl
  unfold entryRegs vmGetRegs vmSetRegs
  by_cases hget : answers.getRegs = 0
  · by_cases hset : answers.setRegs = 0
    · simp only [if_pos hget, if_pos hset, hentry, ok_bind, Except.ok.injEq]
      exact (and_iff_right ⟨hget, hset⟩).symm
    · simp only [if_pos hget, if_neg hset, hentry, ok_bind]
      exact iff_of_false (fun h => nomatch h) fun h => hset h.1.2
  · simp only [if_neg hget]
    exact iff_of_false (fun h => nomatch h) fun h => hget h.1.1

theorem loadK_eq_ok {host host' : HostMemory} {image : Option (List UInt8)} {cmdline : List UInt8}
    {answers : LoadAnswers} {regs' : KvmRegs} :
    loadK vm host list image cmdline answers = .ok (host', regs') ↔
      ∃ file host₁, image = some file ∧ writeBootInfo vm host list cmdline answers = .ok host₁ ∧
        loadImage vm host₁ file = .ok host' ∧ entryRegs file answers = .ok regs' := by
  unfold loadK
  rw [bind_eq_ok]
  constructor
  · rintro ⟨host₁, hboot, hrest⟩
    rcases image with _ | file
    · cases hrest
    · obtain ⟨host₂, hload, hrest⟩ := bind_eq_ok.mp hrest
      obtain ⟨regs, hregs, hrest⟩ := bind_eq_ok.mp hrest
      cases hrest
      exact ⟨file, host₁, rfl, hboot, hload, hregs⟩
  · rintro ⟨file, host₁, rfl, hboot, hload, hregs⟩
    refine ⟨host₁, hboot, ?_⟩
    dsimp only
    rw [hload, ok_bind, hregs, ok_bind]

/-- `load_k` returns exactly if everything it copies fits. -/
theorem loadK_ok_iff (h : vm.LowRam e) (hl : list.Holds nodes [e]) (host : HostMemory)
    (image : Option (List UInt8)) (cmdline : List UInt8) (answers : LoadAnswers) :
    (∃ result, loadK vm host list image cmdline answers = .ok result) ↔
      ∃ file, image = some file ∧ LoadFits e.size.toNat file cmdline answers := by
  have hboot := puts_writeBootInfo h hl cmdline answers
  constructor
  · rintro ⟨⟨host', regs'⟩, hload⟩
    obtain ⟨file, host₁, rfl, hfirst, hseg, hregs⟩ := loadK_eq_ok.mp hload
    obtain ⟨htable, hmap, hline⟩ := (hboot host).succeeds_iff.mp ⟨host₁, hfirst⟩
    obtain ⟨hlen, hfit⟩ := (puts_loadImage h file host₁).succeeds_iff.mp ⟨host', hseg⟩
    exact ⟨file, rfl, htable, hmap, hline, hlen, hfit, ((entryRegs_eq_ok (by omega)).mp hregs).1⟩
  · rintro ⟨file, rfl, hfit⟩
    obtain ⟨host₁, hfirst⟩ :=
      (hboot host).succeeds_iff.mpr ⟨hfit.table, hfit.memoryMap, hfit.cmdline⟩
    obtain ⟨host', hseg⟩ :=
      (puts_loadImage h file host₁).succeeds_iff.mpr ⟨hfit.header, hfit.segments⟩
    have hlen := hfit.header
    exact ⟨_, loadK_eq_ok.mpr ⟨file, host₁, rfl, hfirst, hseg,
      (entryRegs_eq_ok (by omega)).mpr ⟨hfit.regs, rfl⟩⟩⟩

/-- What it leaves: the copies of the boot information, those of the segments after them, and
three registers. -/
theorem loadK_seen (h : vm.LowRam e) (hl : list.Holds nodes [e]) {host host' : HostMemory}
    {file cmdline : List UInt8} {answers : LoadAnswers} {regs' : KvmRegs}
    (hload : loadK vm host list (some file) cmdline answers = .ok (host', regs')) :
    view vm.translate host' = overwriteAll (view vm.translate host)
        (bootCopies e cmdline ++ (segments file).flatMap Segment.copies) ∧
      regs' = startRegs file answers.regs := by
  obtain ⟨_, host₁, ⟨⟩, hfirst, hseg, hregs⟩ := loadK_eq_ok.mp hload
  obtain ⟨hlen, -⟩ := (puts_loadImage h file host₁).succeeds_iff.mp ⟨host', hseg⟩
  refine ⟨?_, ((entryRegs_eq_ok (by omega)).mp hregs).2.symm⟩
  calc view vm.translate host'
      = overwriteAll (view vm.translate host₁) ((segments file).flatMap Segment.copies) :=
        (puts_loadImage h file host₁).seen host' hseg
    _ = _ := by
        rw [(puts_writeBootInfo h hl cmdline answers host).seen host₁ hfirst,
          ← overwriteAll_append]

/-- **The loader copies blindly.**  `load_k` returns exactly if everything it copies fits; it
has then made the copies of the boot information, those of the segments after them, and set
three registers. -/
theorem k_load_iff (h : vm.LowRam e) (hl : list.Holds nodes [e]) (host : HostMemory)
    (image : Option (List UInt8)) (cmdline : List UInt8) (answers : LoadAnswers) :
    ((∃ result, loadK vm host list image cmdline answers = .ok result) ↔
      ∃ file, image = some file ∧ LoadFits e.size.toNat file cmdline answers) ∧
    ∀ file host' regs', image = some file →
      loadK vm host list image cmdline answers = .ok (host', regs') →
      view vm.translate host' = overwriteAll (view vm.translate host)
        (bootCopies e cmdline ++ (segments file).flatMap Segment.copies) ∧
      regs' = startRegs file answers.regs := by
  refine ⟨loadK_ok_iff h hl host image cmdline answers, ?_⟩
  rintro file host' regs' rfl hload
  exact loadK_seen h hl hload

end Boot

/-- A gigabyte of RAM, as `main` allocates it, with the list of its entry. -/
theorem exists_gigabyte : ∃ (vm : Vm) (e : MemoryEntry) (list : LinkedList MemoryEntry)
    (nodes : List Nat), vm.LowRam e ∧ e.size = 0x40000000 ∧ list.Holds nodes [e] := by
  obtain ⟨vm, e, hlow, hsize⟩ :=
    Vm.exists_lowRam (show (0x40000000 : UInt64).toNat ≤ 2 ^ 30 by decide)
  obtain ⟨new, hnew⟩ : ∃ new, linkedListNew MemoryEntry true true = some new := ⟨_, rfl⟩
  have hfresh : ([] ++ [(e, 0)].map Prod.snd).Nodup := List.nodup_singleton 0
  obtain ⟨list, -, hlist⟩ := (LinkedList.holds_new hnew).addAll hfresh
  exact ⟨vm, e, list, _, hlow, hsize, hlist⟩

/-- A file with one segment: four bytes and four zeros at 0x100000, where it is entered. -/
def smallKernel : List UInt8 :=
  List.replicate 24 0 ++ Bytes.le 4 0x100000 ++ Bytes.le 4 52 ++ List.replicate 12 0 ++
    Bytes.le 2 1 ++ List.replicate 6 0 ++
    Bytes.le 4 1 ++ Bytes.le 4 84 ++ Bytes.le 4 0 ++ Bytes.le 4 0x100000 ++ Bytes.le 4 4 ++
    Bytes.le 4 8 ++ List.replicate 8 0 ++ [0xF4, 0xEB, 0xFD, 7]

/-- The operating system refuses nothing. -/
def grants : LoadAnswers :=
  { table := true, entries := true, getRegs := 0, setRegs := 0,
    regs := ⟨0, 0, 0, 0, 0, 0, 0, 0, 0, 0, 0, 0, 0, 0, 0, 0, 0xFFF0, 2⟩ }

theorem smallKernel_fits : LoadFits 0x40000000 smallKernel [0x6B] grants where
  table := ⟨rfl, rfl⟩
  memoryMap := by decide
  cmdline := by decide
  header := by decide
  segments := by
    have hphdr : fieldAt smallKernel 28 4 = 52 ∧ fieldAt smallKernel 44 2 = 1 := by decide
    rw [hphdr.1, hphdr.2]
    intro i hi
    obtain rfl : i = 0 := by omega
    exact ⟨by decide, fun _ => ⟨by decide, by decide, by decide, by decide, by decide⟩⟩
  regs := ⟨rfl, rfl⟩

theorem k_load_iff_small : ∃ (vm : Vm) (e : MemoryEntry) (list : LinkedList MemoryEntry)
    (nodes : List Nat), vm.LowRam e ∧ list.Holds nodes [e] ∧
    (∃ result, loadK vm (fun _ => 0) list (some smallKernel) [0x6B] grants = .ok result) ∧
    ¬ ∃ result, loadK vm (fun _ => 0) list none [0x6B] grants = .ok result := by
  obtain ⟨vm, e, list, nodes, hlow, hsize, hlist⟩ := exists_gigabyte
  refine ⟨vm, e, list, nodes, hlow, hlist, ?_, ?_⟩
  · apply (k_load_iff hlow hlist (fun _ => 0) (some smallKernel) [0x6B] grants).1.mpr
    exact ⟨smallKernel, rfl, by rw [hsize]; exact smallKernel_fits⟩
  · intro hload
    obtain ⟨file, hfile, -⟩ :=
      (k_load_iff hlow hlist (fun _ => 0) none [0x6B] grants).1.mp hload
    cases hfile

end BlackHV
