import BlackHV.LinuxBoot

/-! # What Linux reads

The kernel starts with the address of the `boot_params` in `rsi`, and finds the rest from
there.  What the loader has set, it reads as it has been set, and everything else of the first
page as the image has it.  The command line is terminated by what was there before it: the
`memset` counts the bytes that the image says, and not those of `CMD_LINE`.
-/
namespace BlackHV

open FlatMemory

section Boot
variable {vm : Vm} {e : MemoryEntry} {list : LinkedList MemoryEntry} {nodes : List Nat}
  {image : List UInt8} {cells : Nat → Option UInt8} {imageSize : UInt64}

/-! ## The fields -/

/-- No two of the fields overlap. -/
theorem paramsFields_apart (image : List UInt8) (entry : E820Entry) :
    (paramsFields image entry).Pairwise fun f g => ParamsField.Spare [g] f.offset f.size := by
  have hplaces : ((paramsFields image entry).map fun f => (f.offset, f.size)) =
      [(0x1fa, 2), (0x210, 1), (0x218, 4), (0x21c, 4), (0x226, 1), (0x227, 1), (0x211, 1),
       (0x224, 2), (0x228, 4), (0x2d0, 8), (0x2d8, 8), (0x2e0, 4), (0x1e8, 1)] := rfl
  have hapart : ((paramsFields image entry).map fun f => (f.offset, f.size)).Pairwise
      fun p q => p.1 + p.2 ≤ q.1 ∨ q.1 + q.2 ≤ p.1 := by
    rw [hplaces]
    decide
  exact (List.pairwise_map.mp hapart).imp fun hor => List.forall_mem_singleton.mpr hor

/-- Each is in the `boot_params`, and its value has so many bytes. -/
theorem paramsFields_fit (image : List UInt8) (entry : E820Entry) :
    ∀ f ∈ paramsFields image entry,
      f.offset + f.size ≤ bootParamsSize ∧ f.value < 256 ^ f.size := by
  have hflags : fieldAt image 0x211 1 ||| loaderFlags < 2 ^ 8 :=
    Nat.or_lt_two_pow (fieldAt_lt image 0x211 1) (by decide)
  have hheap : heapEndPtr = 0xde00 ∧ realModeAddr = 0x90000 ∧ bootParamsSize = 0x1000 :=
    ⟨rfl, rfl, rfl⟩
  have hbase := entry.baseAddress.toNat_lt
  have hsize := entry.size.toNat_lt
  have htype := entry.type.toNat_lt
  intro f hf
  simp only [paramsFields, headerFields, e820Fields, List.cons_append, List.nil_append,
    List.mem_cons, List.not_mem_nil, or_false] at hf
  rcases hf with rfl | rfl | rfl | rfl | rfl | rfl | rfl | rfl | rfl | rfl | rfl | rfl | rfl
  all_goals
    dsimp only
    omega

/-- What the loader sets of the `boot_params` is there. -/
theorem numberAt_field {f : ParamsField} (hf : f ∈ paramsFields image (e820Entry e)) :
    numberAt (overwriteAll cells (linuxCopies e image imageSize)) (bootParamsAddr.toNat + f.offset)
      f.size = some f.value := by
  obtain ⟨hroom, hvalue⟩ := paramsFields_fit image (e820Entry e) f hf
  have hapart : (paramsCopies image (e820Entry e)).Pairwise
      fun c d => Misses [d] c.1 c.2.length := by
    refine List.pairwise_map.mpr ((paramsFields_apart image (e820Entry e)).imp ?_)
    intro f g hspare
    have hmiss := ParamsField.misses hspare
    rw [List.map_singleton] at hmiss
    have hlen : f.copy.2.length = f.size := Bytes.length_le ..
    rw [hlen]
    exact hmiss
  have hmem : f.copy ∈ paramsCopies image (e820Entry e) := List.mem_map_of_mem hf
  have hslice : slice (overwriteAll cells (linuxCopies e image imageSize))
      (bootParamsAddr.toNat + f.offset) (Bytes.le f.size f.value).length =
      (Bytes.le f.size f.value).map some := by
    rw [linuxCopies_eq]
    refine slice_overwriteAll_of_mem hapart hmem ?_
    rw [ParamsField.copy, Bytes.length_le]
    exact misses_behind hroom _
  rw [Bytes.length_le] at hslice
  exact numberAt_eq hslice hvalue

/-! ## The command line -/

/-- No copy after the command line goes there. -/
theorem slice_cmdLine :
    slice (overwriteAll cells (linuxCopies e image imageSize)) (realModeAddr + heapEndPtr)
      cmdLine.length = cmdLine.map some := by
  have hsplit : linuxCopies e image imageSize =
      (imageCopies image ++ (headerCopies image ++ (e820Copies (e820Entry e) ++
        [(realModeAddr + heapEndPtr, List.replicate (fieldAt image 0x238 4) 0)]))) ++
        (realModeAddr + heapEndPtr, cmdLine) ::
          [(kernelAddr.toNat, kernelBytes image imageSize)] := by
    simp only [linuxCopies, cmdLineCopies, List.append_assoc, List.cons_append, List.nil_append]
  rw [hsplit]
  have hkernel : realModeAddr + heapEndPtr + cmdLine.length ≤ kernelAddr.toNat := by decide
  exact slice_overwriteAll_whole (misses_cons.mpr ⟨.inr (.inr (.inl hkernel)), misses_nil⟩) rfl

/-- The `boot_params` end before the command line. -/
theorem misses_params {b n : Nat} (hb : bootParamsAddr.toNat + bootParamsSize ≤ b) :
    Misses (imageCopies image ++ paramsCopies image (e820Entry e)) b n := by
  have hspare : ParamsField.Spare (paramsFields image (e820Entry e))
      (b - bootParamsAddr.toNat) n := by
    intro f hf
    have hfit := (paramsFields_fit image (e820Entry e) f hf).1
    omega
  have hparams := ParamsField.misses hspare
  rw [Nat.add_sub_cancel' (by omega)] at hparams
  refine misses_append.mpr ⟨?_, hparams⟩
  rw [imageCopies, misses_cons, misses_cons]
  have htake := List.length_take_le bootParamsSize image
  dsimp only
  rw [List.length_replicate]
  exact ⟨by omega, by omega, misses_nil⟩

/-- The byte behind the command line: the `memset` has cleared it, or it is as it was. -/
theorem behind_cmdLine :
    overwriteAll cells (linuxCopies e image imageSize)
        (realModeAddr + heapEndPtr + cmdLine.length) = some 0 ↔
      cmdLine.length < fieldAt image 0x238 4 ∨
        cells (realModeAddr + heapEndPtr + cmdLine.length) = some 0 := by
  have haddr : bootParamsAddr.toNat = 0x10000 ∧ bootParamsSize = 0x1000 ∧
      realModeAddr + heapEndPtr = 0x9de00 ∧ kernelAddr.toNat = 0x100000 ∧ cmdLine.length = 13 :=
    ⟨rfl, rfl, rfl, rfl, rfl⟩
  have hbehind : Misses [(realModeAddr + heapEndPtr, cmdLine),
      (kernelAddr.toNat, kernelBytes image imageSize)]
      (realModeAddr + heapEndPtr + cmdLine.length) 1 := by
    rw [misses_cons, misses_cons]
    dsimp only
    exact ⟨by omega, by omega, misses_nil⟩
  have hsplit : linuxCopies e image imageSize =
      (imageCopies image ++ paramsCopies image (e820Entry e)) ++
        (realModeAddr + heapEndPtr, List.replicate (fieldAt image 0x238 4) 0) ::
          [(realModeAddr + heapEndPtr, cmdLine),
           (kernelAddr.toNat, kernelBytes image imageSize)] := by
    rw [linuxCopies_eq, List.append_assoc]
    rfl
  rw [hsplit]
  by_cases hlong : cmdLine.length < fieldAt image 0x238 4
  · refine iff_of_true ?_ (.inl hlong)
    have hroom : cmdLine.length + 1 ≤
        (List.replicate (fieldAt image 0x238 4) (0 : UInt8)).length := by
      rw [List.length_replicate]
      exact hlong
    have hzero : ∀ before, slice (overwriteAll cells (before ++
        (realModeAddr + heapEndPtr, List.replicate (fieldAt image 0x238 4) 0) ::
          [(realModeAddr + heapEndPtr, cmdLine),
           (kernelAddr.toNat, kernelBytes image imageSize)]))
        (realModeAddr + heapEndPtr + cmdLine.length) 1 = (List.replicate 1 0).map some := by
      intro before
      refine (slice_overwriteAll_last hbehind hroom).trans ?_
      rw [List.drop_replicate, List.take_replicate, Nat.min_eq_left (by omega)]
    exact (List.cons.inj (hzero _)).1
  · rw [or_iff_right hlong]
    have hmiss : Misses ((imageCopies image ++ paramsCopies image (e820Entry e)) ++
        (realModeAddr + heapEndPtr, List.replicate (fieldAt image 0x238 4) 0) ::
          [(realModeAddr + heapEndPtr, cmdLine),
           (kernelAddr.toNat, kernelBytes image imageSize)])
        (realModeAddr + heapEndPtr + cmdLine.length) 1 := by
      refine misses_append.mpr ⟨misses_params (by omega), misses_cons.mpr ⟨?_, hbehind⟩⟩
      rw [List.length_replicate]
      omega
    exact iff_of_eq (congrArg (· = some 0) (List.cons.inj (slice_overwriteAll hmiss)).1)

/-- **Linux finds what the boot protocol leaves to the loader.**  From `rsi` it reads the fields
as they have been set, everything else of the first page as the image has it, and the kernel
behind.  The command line ends where it should exactly if the `memset` goes behind it, or the
byte there was 0 before. -/
theorem linux_kernel_finds_boot_params (h : vm.LowRam e) (hl : list.Holds nodes [e])
    {host host' : HostMemory} {file : List UInt8}
    (hfile : imageSize.toNat ≤ file.length ∧ file.length < 2 ^ 64) {answers : LoadAnswers}
    {regs' : KvmRegs}
    (hload : loadLinux vm host list (some file) imageSize answers = .ok (host', regs')) :
    (∀ f ∈ paramsFields file (e820Entry e),
      numberAt (view vm.translate host') (regs'.rsi.toNat + f.offset) f.size = some f.value) ∧
    (∀ k n, k + n ≤ bootParamsSize → ParamsField.Spare (paramsFields file (e820Entry e)) k n →
      numberAt (view vm.translate host') (regs'.rsi.toNat + k) n = some (fieldAt file k n)) ∧
    slice (view vm.translate host') kernelAddr.toNat (kernelBytes file imageSize).length =
      (kernelBytes file imageSize).map some ∧
    ∃ cmdLinePtr, numberAt (view vm.translate host') (regs'.rsi.toNat + 0x228) 4 =
        some cmdLinePtr ∧
      ∀ limit, cmdLine.length < limit →
        (stringAt (view vm.translate host') cmdLinePtr limit = some cmdLine ↔
          cmdLine.length < fieldAt file 0x238 4 ∨
            view vm.translate host (cmdLinePtr + cmdLine.length) = some 0) := by
  obtain ⟨hseen, rfl⟩ := loadLinux_seen h hl hfile hload
  have hlen := ((loadLinux_ok_iff h hl hfile answers host).mp ⟨_, hload⟩).params
  rw [hseen, show (linuxStart file answers.regs).rsi = bootParamsAddr from rfl]
  refine ⟨fun f hf => numberAt_field hf, fun k n hk hspare => numberAt_spare hlen hk hspare, ?_, ?_⟩
  · rw [linuxCopies_eq, ← List.append_assoc, ← List.append_assoc]
    exact slice_overwriteAll_whole misses_nil rfl
  · have hptr : (⟨0x228, 4, realModeAddr + heapEndPtr⟩ : ParamsField) ∈
        paramsFields file (e820Entry e) := by
      simp [paramsFields, headerFields]
    refine ⟨realModeAddr + heapEndPtr, numberAt_field hptr, fun limit hlimit => ?_⟩
    exact (stringAt_iff slice_cmdLine (by decide) hlimit).trans behind_cmdLine

/-- The image of zeros says that its command line has no bytes, and the RAM was 0. -/
theorem linux_kernel_finds_boot_params_zeros : ∃ (vm : Vm) (e : MemoryEntry)
    (list : LinkedList MemoryEntry) (nodes : List Nat) (host' : HostMemory) (regs' : KvmRegs),
    vm.LowRam e ∧ list.Holds nodes [e] ∧
    loadLinux vm (fun _ => 0) list (some (List.replicate 0x1000 0)) 0x1000 grants =
      .ok (host', regs') ∧
    (∀ f ∈ paramsFields (List.replicate 0x1000 0) (e820Entry e),
      numberAt (view vm.translate host') (regs'.rsi.toNat + f.offset) f.size = some f.value) ∧
    ∃ cmdLinePtr, numberAt (view vm.translate host') (regs'.rsi.toNat + 0x228) 4 =
        some cmdLinePtr ∧
      (stringAt (view vm.translate host') cmdLinePtr 14 = some cmdLine ↔
        cmdLine.length < fieldAt (List.replicate 0x1000 0) 0x238 4 ∨
          view vm.translate (fun _ => (0 : UInt8)) (cmdLinePtr + cmdLine.length) = some 0) := by
  obtain ⟨vm, e, list, nodes, hlow, hsize, hlist⟩ := exists_gigabyte
  have hfile : (0x1000 : UInt64).toNat ≤ (List.replicate 0x1000 (0 : UInt8)).length ∧
      (List.replicate 0x1000 (0 : UInt8)).length < 2 ^ 64 := by
    rw [List.length_replicate]
    decide
  obtain ⟨⟨host', regs'⟩, hload⟩ := (loadLinux_ok_iff hlow hlist hfile grants (fun _ => 0)).mpr
    (by rw [hsize]; exact zeros_fit)
  obtain ⟨hfields, -, -, cmdLinePtr, hptr, hread⟩ :=
    linux_kernel_finds_boot_params hlow hlist hfile hload
  exact ⟨vm, e, list, nodes, host', regs', hlow, hlist, hload, hfields, cmdLinePtr, hptr,
    hread 14 (by decide)⟩

end Boot

end BlackHV
