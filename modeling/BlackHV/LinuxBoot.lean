import BlackHV.KBoot
import BlackHV.LinuxLoader

/-! # What Linux finds in its memory

`load_linux` reads back what it has copied: the size of the command line and of the setup
sectors, the flags and the entry point come from the image, through the RAM of the guest.  So
each part of it starts with what the parts before have left.  `linux_load_iff` says when it
returns, and with which copies; `linux_kernel_finds_boot_params` what the kernel reads then.
-/
namespace BlackHV

open Spans FlatMemory

/-! ## What it puts where -/

/-- The first part of the image, over zeros. -/
def imageCopies (image : List UInt8) : List (Nat × List UInt8) :=
  [(bootParamsAddr.toNat, List.replicate bootParamsSize 0),
   (bootParamsAddr.toNat, image.take bootParamsSize)]

/-- A field of the `boot_params` that the loader sets. -/
structure ParamsField where
  offset : Nat
  size : Nat
  value : Nat

/-- Where it is copied to. -/
def ParamsField.copy (f : ParamsField) : Nat × List UInt8 :=
  (bootParamsAddr.toNat + f.offset, Bytes.le f.size f.value)

/-- The fields that `set_setup_header` sets, in its order. -/
def headerFields (image : List UInt8) : List ParamsField :=
  [⟨0x1fa, 2, 0xFFFF⟩, ⟨0x210, 1, 0xFF⟩, ⟨0x218, 4, 0⟩, ⟨0x21c, 4, 0⟩, ⟨0x226, 1, 0⟩,
   ⟨0x227, 1, 0⟩, ⟨0x211, 1, fieldAt image 0x211 1 ||| loaderFlags⟩, ⟨0x224, 2, heapEndPtr⟩,
   ⟨0x228, 4, realModeAddr + heapEndPtr⟩]

/-- Those that `setup_e820` sets, for one entry. -/
def e820Fields (entry : E820Entry) : List ParamsField :=
  [⟨0x2d0, 8, entry.baseAddress.toNat⟩, ⟨0x2d8, 8, entry.size.toNat⟩,
   ⟨0x2e0, 4, entry.type.toNat⟩, ⟨0x1e8, 1, 1⟩]

/-- None of the fields is among the `n` bytes from offset `k` on. -/
def ParamsField.Spare (fields : List ParamsField) (k n : Nat) : Prop :=
  ∀ f ∈ fields, k + n ≤ f.offset ∨ f.offset + f.size ≤ k

theorem ParamsField.misses {fields : List ParamsField} {k n : Nat}
    (h : ParamsField.Spare fields k n) :
    Misses (fields.map ParamsField.copy) (bootParamsAddr.toNat + k) n := by
  intro c hc
  obtain ⟨f, hf, rfl⟩ := List.mem_map.mp hc
  have hspare := h f hf
  rw [ParamsField.copy, Bytes.length_le]
  omega

def headerCopies (image : List UInt8) : List (Nat × List UInt8) :=
  (headerFields image).map ParamsField.copy

def e820Copies (entry : E820Entry) : List (Nat × List UInt8) :=
  (e820Fields entry).map ParamsField.copy

/-- Those of the command line. -/
def cmdLineCopies (image : List UInt8) : List (Nat × List UInt8) :=
  [(realModeAddr + heapEndPtr, List.replicate (fieldAt image 0x238 4) 0),
   (realModeAddr + heapEndPtr, cmdLine)]

/-- The size of the setup sectors that the image says it has. -/
def imageSetupSize (image : List UInt8) : Nat := setupSize (fieldAt image 0x1f1 1)

/-- The kernel behind the setup sectors. -/
def kernelBytes (image : List UInt8) (imageSize : UInt64) : List UInt8 :=
  (image.drop (imageSetupSize image)).take (imageSize.toNat - imageSetupSize image)

section Boot
variable {vm : Vm} {e : MemoryEntry} {list : LinkedList MemoryEntry} {nodes : List Nat}
  {image : List UInt8} {cells : Nat → Option UInt8}

/-- A field of `boot_params` is stored. -/
theorem puts_storeField (h : vm.LowRam e)
    (hparams : bootParamsAddr.toNat + bootParamsSize ≤ e.size.toNat) {k count : Nat}
    (hk : k + count ≤ bootParamsSize) (n : Nat) :
    Puts (view vm.translate)
      (fun host => storeField vm host (Vm.hostOf e bootParamsAddr.toNat + UInt64.ofNat k) count n)
      True [(bootParamsAddr.toNat + k, Bytes.le count n)] := by
  rw [Vm.hostOf_add]
  refine (h.puts_storeBytes (by omega) (Bytes.le count n)).congr (iff_true_intro ?_)
  rw [Bytes.length_le]
  omega

/-- A field of `boot_params` is loaded. -/
theorem loadField_params (h : vm.LowRam e)
    (hparams : bootParamsAddr.toNat + bootParamsSize ≤ e.size.toNat) {host : HostMemory}
    {k count n : Nat} (hk : k + count ≤ bootParamsSize)
    (hn : numberAt (view vm.translate host) (bootParamsAddr.toNat + k) count = some n) :
    loadField vm host (Vm.hostOf e bootParamsAddr.toNat + UInt64.ofNat k) count = .ok n := by
  rw [Vm.hostOf_add]
  exact h.loadField_eq (by omega) hn

/-- What no later copy touches of the `boot_params` is the image's. -/
theorem numberAt_image {rest : List (Nat × List UInt8)} {k count : Nat}
    (hlen : bootParamsSize ≤ image.length) (hk : k + count ≤ bootParamsSize)
    (hrest : Misses rest (bootParamsAddr.toNat + k) count) :
    numberAt (overwriteAll cells (imageCopies image ++ rest)) (bootParamsAddr.toNat + k) count =
      some (fieldAt image k count) := by
  have hroom : k + count ≤ (image.take bootParamsSize).length := by
    rwa [List.length_take_of_le hlen]
  have hsplit : imageCopies image ++ rest =
      [(bootParamsAddr.toNat, List.replicate bootParamsSize 0)] ++
        (bootParamsAddr.toNat, image.take bootParamsSize) :: rest := rfl
  have hbytes : slice (overwriteAll cells (imageCopies image ++ rest)) (bootParamsAddr.toNat + k)
      count = ((image.drop k).take count).map some := by
    rw [hsplit]
    refine (slice_overwriteAll_last hrest hroom).trans ?_
    rw [List.drop_take, List.take_take, Nat.min_eq_left (by omega)]
  exact numberAt_bytes hbytes

/-- `set_setup_header`, on the image. -/
theorem putsAt_setSetupHeader (h : vm.LowRam e)
    (hparams : bootParamsAddr.toNat + bootParamsSize ≤ e.size.toNat)
    (hlen : bootParamsSize ≤ image.length) {host : HostMemory}
    (hview : view vm.translate host = overwriteAll cells (imageCopies image)) :
    PutsAt (view vm.translate) host (setSetupHeader vm host (Vm.hostOf e bootParamsAddr.toNat))
      True (headerCopies image) := by
  have hsize : bootParamsSize = 0x1000 := rfl
  have hstore : ∀ k count n, k + count ≤ 0x1000 → ∀ host, PutsAt (view vm.translate) host
      (storeField vm host (Vm.hostOf e bootParamsAddr.toNat + UInt64.ofNat k) count n) True
      [(bootParamsAddr.toNat + k, Bytes.le count n)] :=
    fun k count n hk => puts_storeField h hparams hk n
  unfold setSetupHeader
  refine (hstore 0x1fa 2 _ (by decide) _).first fun h₁ e₁ => ?_
  refine (hstore 0x210 1 _ (by decide) _).first fun h₂ e₂ => ?_
  refine (hstore 0x218 4 _ (by decide) _).first fun h₃ e₃ => ?_
  refine (hstore 0x21c 4 _ (by decide) _).first fun h₄ e₄ => ?_
  refine (hstore 0x226 1 _ (by decide) _).first fun h₅ e₅ => ?_
  refine (hstore 0x227 1 _ (by decide) _).first fun h₆ e₆ => ?_
  have hflags : loadField vm h₆ (Vm.hostOf e bootParamsAddr.toNat + 0x211) 1 =
      .ok (fieldAt image 0x211 1) := by
    have hseen : view vm.translate h₆ = overwriteAll cells
        (imageCopies image ++ ((headerFields image).take 6).map ParamsField.copy) := by
      rw [e₆, e₅, e₄, e₃, e₂, e₁, hview]
      simp only [← overwriteAll_append, List.append_assoc, List.cons_append, List.nil_append,
        headerFields, List.take_succ_cons, List.take_zero, List.map_cons, List.map_nil,
        ParamsField.copy]
    refine loadField_params h hparams (show 0x211 + 1 ≤ bootParamsSize by decide) ?_
    rw [hseen]
    exact numberAt_image hlen (by decide)
      (ParamsField.misses (by simp [ParamsField.Spare, headerFields]))
  rw [hflags, ok_bind]
  refine (hstore 0x211 1 _ (by decide) _).first fun h₇ e₇ => ?_
  refine (hstore 0x224 2 _ (by decide) _).first fun h₈ e₈ => ?_
  have hheap : loadField vm h₈ (Vm.hostOf e bootParamsAddr.toNat + 0x224) 2 = .ok heapEndPtr := by
    refine loadField_params h hparams (show 0x224 + 2 ≤ bootParamsSize by decide) ?_
    have hlast : numberAt (overwriteAll (view vm.translate h₇)
        ([] ++ (bootParamsAddr.toNat + 0x224, Bytes.le 2 heapEndPtr) :: []))
        (bootParamsAddr.toNat + 0x224) 2 = some heapEndPtr :=
      numberAt_copied misses_nil (by decide)
    rw [e₈]
    exact hlast
  rw [hheap, ok_bind]
  exact hstore 0x228 4 _ (by decide) _

/-- `setup_e820`: the table has the one entry. -/
theorem putsAt_setupE820Linux (h : vm.LowRam e) (hl : list.Holds nodes [e])
    (hparams : bootParamsAddr.toNat + bootParamsSize ≤ e.size.toNat) (table entries : Bool)
    (host : HostMemory) :
    PutsAt (view vm.translate) host (setupE820Linux vm host list table entries
        (Vm.hostOf e bootParamsAddr.toNat))
      (table = true ∧ entries = true) (e820Copies (e820Entry e)) := by
  have hstore : ∀ k count n, k + count ≤ 0x1000 → ∀ host, PutsAt (view vm.translate) host
      (storeField vm host (Vm.hostOf e bootParamsAddr.toNat + UInt64.ofNat k) count n) True
      [(bootParamsAddr.toNat + k, Bytes.le count n)] :=
    fun k count n hk => puts_storeField h hparams hk n
  have hfirst : Vm.hostOf e bootParamsAddr.toNat + 0x2d0 + UInt64.ofNat (20 * 0) =
      Vm.hostOf e bootParamsAddr.toNat + UInt64.ofNat 0x2d0 := UInt64.add_zero _
  have hsize : Vm.hostOf e bootParamsAddr.toNat + UInt64.ofNat 0x2d0 + 8 =
      Vm.hostOf e bootParamsAddr.toNat + UInt64.ofNat 0x2d8 := UInt64.add_assoc ..
  have htype : Vm.hostOf e bootParamsAddr.toNat + UInt64.ofNat 0x2d0 + 16 =
      Vm.hostOf e bootParamsAddr.toNat + UInt64.ofNat 0x2e0 := UInt64.add_assoc ..
  unfold setupE820Linux
  rw [e820TableGet_single hl, ok_bind]
  by_cases hboth : table = true ∧ entries = true
  · rw [if_pos hboth]
    refine PutsAt.congr (P := True) ?_ (iff_of_true trivial hboth)
    have hfill : PutsAt (view vm.translate) host
        (fillE820 vm host (Vm.hostOf e bootParamsAddr.toNat) 0 [some (e820Entry e)]) True
        ((e820Copies (e820Entry e)).take 3) := by
      unfold fillE820
      dsimp only
      rw [hfirst, hsize, htype]
      refine (hstore 0x2d0 8 _ (by decide) _).first fun h₁ _ => ?_
      refine (hstore 0x2d8 8 _ (by decide) _).first fun h₂ _ => ?_
      exact (hstore 0x2e0 4 _ (by decide) _).first fun h₃ _ => .skip
    exact hfill.first fun h₁ _ => hstore 0x1e8 1 1 (by decide) h₁
  · rw [if_neg hboth]
    exact .fail hboth

/-- The fields that are set before the command line. -/
def paramsFields (image : List UInt8) (entry : E820Entry) : List ParamsField :=
  headerFields image ++ e820Fields entry

def paramsCopies (image : List UInt8) (entry : E820Entry) : List (Nat × List UInt8) :=
  (paramsFields image entry).map ParamsField.copy

theorem paramsCopies_eq (image : List UInt8) (entry : E820Entry) :
    paramsCopies image entry = headerCopies image ++ e820Copies entry := List.map_append

/-- The command line is behind the `boot_params`. -/
theorem misses_cmdLine {k n : Nat} (hk : k + n ≤ bootParamsSize) :
    Misses (cmdLineCopies image) (bootParamsAddr.toNat + k) n := by
  have haddr : bootParamsAddr.toNat = 0x10000 ∧ bootParamsSize = 0x1000 ∧
      realModeAddr + heapEndPtr = 0x9de00 := ⟨rfl, rfl, rfl⟩
  rw [cmdLineCopies, misses_cons, misses_cons]
  dsimp only
  exact ⟨by omega, by omega, misses_nil⟩

/-- The command line fits. -/
def CmdLineFits (limit : Nat) (image : List UInt8) : Prop :=
  realModeAddr + heapEndPtr < limit ∧
    realModeAddr + heapEndPtr + fieldAt image 0x238 4 ≤ limit ∧
    realModeAddr + heapEndPtr + cmdLine.length ≤ limit

theorem putsAt_writeCmdLine (h : vm.LowRam e)
    (hparams : bootParamsAddr.toNat + bootParamsSize ≤ e.size.toNat)
    (hlen : bootParamsSize ≤ image.length) {host : HostMemory} {entry : E820Entry}
    (hview : view vm.translate host =
      overwriteAll cells (imageCopies image ++ paramsCopies image entry)) :
    PutsAt (view vm.translate) host (writeCmdLine vm host (Vm.hostOf e bootParamsAddr.toNat))
      (CmdLineFits e.size.toNat image) (cmdLineCopies image) := by
  have hptr : loadField vm host (Vm.hostOf e bootParamsAddr.toNat + 0x228) 4 =
      .ok (realModeAddr + heapEndPtr) := by
    refine loadField_params h hparams (show 0x228 + 4 ≤ bootParamsSize by decide) ?_
    have hsplit : imageCopies image ++ paramsCopies image entry =
        (imageCopies image ++ (headerCopies image).take 8) ++
          (bootParamsAddr.toNat + 0x228, Bytes.le 4 (realModeAddr + heapEndPtr)) ::
            e820Copies entry := rfl
    rw [hview, hsplit]
    exact numberAt_copied (ParamsField.misses (by simp [ParamsField.Spare, e820Fields])) (by decide)
  have hcount : loadField vm host (Vm.hostOf e bootParamsAddr.toNat + 0x238) 4 =
      .ok (fieldAt image 0x238 4) := by
    refine loadField_params h hparams (show 0x238 + 4 ≤ bootParamsSize by decide) ?_
    rw [hview]
    exact numberAt_image hlen (by decide)
      (ParamsField.misses (by simp [ParamsField.Spare, paramsFields, headerFields, e820Fields]))
  have haddr' : (UInt64.ofNat (realModeAddr + heapEndPtr)).toNat = realModeAddr + heapEndPtr := rfl
  unfold writeCmdLine
  rw [hptr, ok_bind]
  dsimp only
  obtain ⟨hlt, hne, haddr⟩ | ⟨hge, hz⟩ :=
    h.memoryGetPtr_cases (UInt64.ofNat (realModeAddr + heapEndPtr))
  · rw [haddr'] at hlt haddr
    rw [if_neg hne, hcount, ok_bind, haddr]
    have hzeros := h.puts_storeBytes (Nat.le_of_lt hlt)
      (List.replicate (fieldAt image 0x238 4) 0) host
    rw [List.length_replicate] at hzeros
    have htext := h.puts_storeBytes (Nat.le_of_lt hlt) cmdLine
    exact (hzeros.andThen fun _ host' _ => htext host').congr
      ⟨fun hp => ⟨hlt, hp.1, hp.2⟩, fun hp => ⟨hp.2.1, hp.2.2⟩⟩
  · rw [if_pos hz]
    exact .fail fun hfits => Nat.not_lt_of_le hge hfits.1

/-- The kernel fits. -/
def KernelFits (limit : Nat) (image : List UInt8) (imageSize : UInt64) : Prop :=
  kernelAddr.toNat < limit ∧ imageSetupSize image ≤ imageSize.toNat ∧
    kernelAddr.toNat + (imageSize.toNat - imageSetupSize image) ≤ limit

/-- The size of the kernel, which wraps around if the file has not all of the setup sectors. -/
theorem kernelSize_cases (image : List UInt8) (imageSize : UInt64) :
    imageSetupSize image ≤ imageSize.toNat ∧
        (imageSize - UInt64.ofNat (imageSetupSize image)).toNat =
          imageSize.toNat - imageSetupSize image ∨
      ¬ imageSetupSize image ≤ imageSize.toNat ∧
        (imageSize - UInt64.ofNat (imageSetupSize image)).toNat =
          2 ^ 64 + imageSize.toNat - imageSetupSize image := by
  have hsetup : imageSetupSize image < 2 ^ 18 := by
    have hlt : fieldAt image 0x1f1 1 < 256 := fieldAt_lt image _ 1
    unfold imageSetupSize setupSize
    split <;> omega
  have hsetup' : (UInt64.ofNat (imageSetupSize image)).toNat = imageSetupSize image := by
    rw [UInt64.toNat_ofNat', Nat.mod_eq_of_lt (by omega)]
  have hsize := imageSize.toNat_lt
  rw [UInt64.toNat_sub, hsetup']
  omega

theorem putsAt_loadImageIntoMemory (h : vm.LowRam e)
    (hparams : bootParamsAddr.toNat + bootParamsSize ≤ e.size.toNat)
    (hlen : bootParamsSize ≤ image.length) {imageSize : UInt64}
    (hfile : imageSize.toNat ≤ image.length ∧ image.length < 2 ^ 64)
    {host : HostMemory} {entry : E820Entry}
    (hview : view vm.translate host = overwriteAll cells
      (imageCopies image ++ (paramsCopies image entry ++ cmdLineCopies image))) :
    PutsAt (view vm.translate) host (loadImageIntoMemory vm host
        (Vm.hostOf e bootParamsAddr.toNat) image imageSize)
      (KernelFits e.size.toNat image imageSize)
      [(kernelAddr.toNat, kernelBytes image imageSize)] := by
  have hsects : loadField vm host (Vm.hostOf e bootParamsAddr.toNat + 0x1f1) 1 =
      .ok (fieldAt image 0x1f1 1) := by
    refine loadField_params h hparams (show 0x1f1 + 1 ≤ bootParamsSize by decide) ?_
    rw [hview]
    exact numberAt_image hlen (by decide) (misses_append.mpr
      ⟨ParamsField.misses (by simp [ParamsField.Spare, paramsFields, headerFields, e820Fields]),
        misses_cmdLine (by decide)⟩)
  have hsetup : setupSize (fieldAt image 0x1f1 1) = imageSetupSize image := rfl
  unfold loadImageIntoMemory
  rw [hsects]
  dsimp only
  obtain ⟨hlt, hne, hptr⟩ | ⟨hge, hz⟩ := h.memoryGetPtr_cases kernelAddr
  · rw [if_neg hne, hptr, ok_bind, hsetup]
    have hcopy := h.puts_storeBytes (Nat.le_of_lt hlt) (kernelBytes image imageSize) host
    unfold imageBytes
    obtain ⟨hle, hsize⟩ | ⟨hgt, hsize⟩ := kernelSize_cases image imageSize
    · -- the sectors are there: the rest of the file is copied
      rw [hsize, if_pos (by omega)]
      refine hcopy.congr ?_
      unfold KernelFits kernelBytes
      rw [List.length_take_of_le (by rw [List.length_drop]; omega), and_iff_right hlt,
        and_iff_right hle]
    · -- the size has wrapped around, and the copy leaves the file
      rw [hsize, if_neg (by omega)]
      exact .fail fun hfits => hgt hfits.2.1
  · rw [if_pos hz]
    exact .fail fun hfits => Nat.not_lt_of_le hge hfits.1

/-! ## The loader -/

/-- All that it puts into the RAM. -/
def linuxCopies (e : MemoryEntry) (image : List UInt8) (imageSize : UInt64) :
    List (Nat × List UInt8) :=
  imageCopies image ++ (headerCopies image ++ (e820Copies (e820Entry e) ++
    (cmdLineCopies image ++ [(kernelAddr.toNat, kernelBytes image imageSize)])))

theorem linuxCopies_eq (e : MemoryEntry) (image : List UInt8) (imageSize : UInt64) :
    linuxCopies e image imageSize = imageCopies image ++ (paramsCopies image (e820Entry e) ++
      (cmdLineCopies image ++ [(kernelAddr.toNat, kernelBytes image imageSize)])) := by
  rw [linuxCopies, paramsCopies_eq, List.append_assoc]

/-- What has to be so for `load_linux` to return, in RAM that ends at `limit`. -/
structure LinuxFits (limit : Nat) (image : List UInt8) (imageSize : UInt64)
    (answers : LoadAnswers) : Prop where
  params : bootParamsSize ≤ image.length
  table : answers.table = true ∧ answers.entries = true
  cmdLine : realModeAddr + heapEndPtr + fieldAt image 0x238 4 ≤ limit
  kernel : KernelFits limit image imageSize
  regs : answers.getRegs = 0 ∧ answers.setRegs = 0

/-- The part of `load_linux` that works on the image it has copied. -/
theorem putsAt_onImage (h : vm.LowRam e) (hl : list.Holds nodes [e])
    (hparams : bootParamsAddr.toNat + bootParamsSize ≤ e.size.toNat)
    (hlen : bootParamsSize ≤ image.length) {imageSize : UInt64}
    (hfile : imageSize.toNat ≤ image.length ∧ image.length < 2 ^ 64) (table entries : Bool)
    {host : HostMemory} (hview : view vm.translate host = overwriteAll cells (imageCopies image)) :
    PutsAt (view vm.translate) host
      (setSetupHeader vm host (Vm.hostOf e bootParamsAddr.toNat) >>= fun host =>
        setupE820Linux vm host list table entries (Vm.hostOf e bootParamsAddr.toNat) >>= fun host =>
        writeCmdLine vm host (Vm.hostOf e bootParamsAddr.toNat) >>= fun host =>
        loadImageIntoMemory vm host (Vm.hostOf e bootParamsAddr.toNat) image imageSize)
      ((table = true ∧ entries = true) ∧
        CmdLineFits e.size.toNat image ∧ KernelFits e.size.toNat image imageSize)
      (headerCopies image ++ (e820Copies (e820Entry e) ++
        (cmdLineCopies image ++ [(kernelAddr.toNat, kernelBytes image imageSize)]))) := by
  refine (putsAt_setSetupHeader h hparams hlen hview).first fun h₁ e₁ => ?_
  refine (putsAt_setupE820Linux h hl hparams table entries h₁).andThen fun _ h₂ e₂ => ?_
  have hset : view vm.translate h₂ =
      overwriteAll cells (imageCopies image ++ paramsCopies image (e820Entry e)) := by
    rw [e₂, e₁, hview, paramsCopies_eq, ← overwriteAll_append, ← overwriteAll_append]
  refine (putsAt_writeCmdLine h hparams hlen hset).andThen fun _ h₃ e₃ => ?_
  have hline : view vm.translate h₃ = overwriteAll cells
      (imageCopies image ++ (paramsCopies image (e820Entry e) ++ cmdLineCopies image)) := by
    rw [e₃, hset, ← overwriteAll_append, List.append_assoc]
  exact putsAt_loadImageIntoMemory h hparams hlen hfile hline

/-- The copies are made exactly if they fit. -/
theorem puts_copyLinux (h : vm.LowRam e) (hl : list.Holds nodes [e]) {imageSize : UInt64}
    (hfile : imageSize.toNat ≤ image.length ∧ image.length < 2 ^ 64) (answers : LoadAnswers) :
    Puts (view vm.translate)
      (fun host => copyLinux vm host list (some image) imageSize answers)
      (bootParamsSize ≤ image.length ∧ (answers.table = true ∧ answers.entries = true) ∧
        realModeAddr + heapEndPtr + fieldAt image 0x238 4 ≤ e.size.toNat ∧
        KernelFits e.size.toNat image imageSize)
      (linuxCopies e image imageSize) := by
  have haddr : bootParamsAddr.toNat = 0x10000 ∧ bootParamsSize = 0x1000 ∧
      kernelAddr.toNat = 0x100000 := ⟨rfl, rfl, rfl⟩
  have hheap : realModeAddr + heapEndPtr = 0x9de00 ∧ cmdLine.length = 13 := ⟨rfl, rfl⟩
  intro host
  unfold copyLinux
  dsimp only
  obtain ⟨hlt, hne, hptr⟩ | ⟨hge, hz⟩ := h.memoryGetPtr_cases bootParamsAddr
  · rw [if_neg hne, hptr]
    have hzeros := h.puts_storeBytes (Nat.le_of_lt hlt) (List.replicate bootParamsSize 0) host
    rw [List.length_replicate] at hzeros
    by_cases hparams : bootParamsAddr.toNat + bootParamsSize ≤ e.size.toNat
    · refine (hzeros.congr (iff_true_intro hparams)).first fun h₁ e₁ => ?_
      refine PutsAt.lookup (v := image.take bootParamsSize) (fun hlen => ?_) (fun hlen => ?_)
        fun hlen => ?_
      · exact if_pos (by rwa [Nat.zero_add])
      · exact ⟨.outOfBounds, if_neg (by rwa [Nat.zero_add])⟩
      · have hbytes : PutsAt (view vm.translate) h₁ (storeBytes vm h₁
            (Vm.hostOf e bootParamsAddr.toNat) (image.take bootParamsSize)) True
            [(bootParamsAddr.toNat, image.take bootParamsSize)] := by
          refine (h.puts_storeBytes (Nat.le_of_lt hlt) _ h₁).congr (iff_true_intro ?_)
          rwa [List.length_take_of_le hlen]
        refine hbytes.first fun h₂ e₂ => ?_
        have himage : view vm.translate h₂ =
            overwriteAll (view vm.translate host) (imageCopies image) := by
          rw [e₂, e₁, ← overwriteAll_append, imageCopies, List.cons_append, List.nil_append]
        refine (putsAt_onImage h hl hparams hlen hfile _ _ himage).congr ⟨?_, ?_⟩
        · rintro ⟨htable, hcmd, hkernel⟩
          exact ⟨htable, hcmd.2.1, hkernel⟩
        · rintro ⟨htable, hcmd, hkernel⟩
          have hroom := hkernel.1
          exact ⟨htable, ⟨by omega, hcmd, by omega⟩, hkernel⟩
    · exact hzeros.andThen_fail hparams fun hfits => by
        have hroom := hfits.2.2.2.1
        omega
  · rw [if_pos hz]
    exact .fail fun hfits => by
      have hroom := hfits.2.2.2.1
      omega

/-- The registers with which the kernel starts. -/
def linuxStart (image : List UInt8) (regs : KvmRegs) : KvmRegs :=
  { regs with rsi := bootParamsAddr, rip := UInt64.ofNat (fieldAt image 0x214 4) }

/-- The kernel and the command line are behind the `boot_params`. -/
theorem misses_behind {k n : Nat} (hk : k + n ≤ bootParamsSize) (kernel : List UInt8) :
    Misses (cmdLineCopies image ++ [(kernelAddr.toNat, kernel)]) (bootParamsAddr.toNat + k) n := by
  have haddr : bootParamsAddr.toNat = 0x10000 ∧ bootParamsSize = 0x1000 ∧
      kernelAddr.toNat = 0x100000 := ⟨rfl, rfl, rfl⟩
  refine misses_append.mpr ⟨misses_cmdLine hk, misses_cons.mpr ⟨?_, misses_nil⟩⟩
  dsimp only
  omega

/-- What the loader does not set of the `boot_params` is the image's. -/
theorem numberAt_spare {imageSize : UInt64} {k n : Nat} (hlen : bootParamsSize ≤ image.length)
    (hk : k + n ≤ bootParamsSize)
    (hspare : ParamsField.Spare (paramsFields image (e820Entry e)) k n) :
    numberAt (overwriteAll cells (linuxCopies e image imageSize)) (bootParamsAddr.toNat + k) n =
      some (fieldAt image k n) := by
  rw [linuxCopies_eq]
  exact numberAt_image hlen hk
    (misses_append.mpr ⟨ParamsField.misses hspare, misses_behind hk _⟩)

theorem linuxRegs_eq_ok {host : HostMemory} {answers : LoadAnswers} {regs : KvmRegs}
    (h : vm.LowRam e) (hparams : bootParamsAddr.toNat + bootParamsSize ≤ e.size.toNat)
    (hentry : numberAt (view vm.translate host) (bootParamsAddr.toNat + 0x214) 4 =
      some (fieldAt image 0x214 4)) :
    linuxRegs vm host (memoryGetPtr vm bootParamsAddr) answers = .ok regs ↔
      (answers.getRegs = 0 ∧ answers.setRegs = 0) ∧ linuxStart image answers.regs = regs := by
  have hptr : memoryGetPtr vm bootParamsAddr = Vm.hostOf e bootParamsAddr.toNat := by
    obtain ⟨-, -, hptr⟩ | ⟨hge, -⟩ := h.memoryGetPtr_cases bootParamsAddr
    · exact hptr
    · have hsize : bootParamsSize = 0x1000 := rfl
      omega
  have hload : loadField vm host (memoryGetPtr vm bootParamsAddr + 0x214) 4 =
      .ok (fieldAt image 0x214 4) := by
    rw [hptr]
    exact loadField_params h hparams (show 0x214 + 4 ≤ bootParamsSize by decide) hentry
  unfold linuxRegs vmGetRegs vmSetRegs
  by_cases hget : answers.getRegs = 0
  · by_cases hset : answers.setRegs = 0
    · simp only [if_pos hget, if_pos hset, hload, ok_bind, Except.ok.injEq]
      exact (and_iff_right ⟨hget, hset⟩).symm
    · simp only [if_pos hget, if_neg hset, hload, ok_bind]
      exact iff_of_false (fun h => nomatch h) fun h => hset h.1.2
  · simp only [if_neg hget]
    exact iff_of_false (fun h => nomatch h) fun h => hget h.1.1

theorem copyLinux_none {imageSize : UInt64} {answers : LoadAnswers} {host host' : HostMemory} :
    copyLinux vm host list none imageSize answers ≠ .ok host' := by
  intro hcopy
  unfold copyLinux at hcopy
  dsimp only at hcopy
  split at hcopy
  · cases hcopy
  · obtain ⟨host₁, -, hnull⟩ := bind_eq_ok.mp hcopy
    cases hnull

/-- A run of `load_linux` on an image. -/
theorem loadLinux_eq_ok (h : vm.LowRam e) (hl : list.Holds nodes [e]) {imageSize : UInt64}
    (hfile : imageSize.toNat ≤ image.length ∧ image.length < 2 ^ 64) {answers : LoadAnswers}
    {host host' : HostMemory} {regs' : KvmRegs} :
    loadLinux vm host list (some image) imageSize answers = .ok (host', regs') ↔
      copyLinux vm host list (some image) imageSize answers = .ok host' ∧
        (answers.getRegs = 0 ∧ answers.setRegs = 0) ∧ linuxStart image answers.regs = regs' := by
  have hputs := puts_copyLinux h hl hfile answers host
  have hregs : copyLinux vm host list (some image) imageSize answers = .ok host' →
      (linuxRegs vm host' (memoryGetPtr vm bootParamsAddr) answers = .ok regs' ↔
        (answers.getRegs = 0 ∧ answers.setRegs = 0) ∧ linuxStart image answers.regs = regs') := by
    intro hcopy
    obtain ⟨hlen, -, -, hkernel, -⟩ := hputs.succeeds_iff.mp ⟨host', hcopy⟩
    have haddr : bootParamsAddr.toNat = 0x10000 ∧ bootParamsSize = 0x1000 ∧
        kernelAddr.toNat = 0x100000 := ⟨rfl, rfl, rfl⟩
    refine linuxRegs_eq_ok h (by omega) ?_
    rw [hputs.seen host' hcopy]
    exact numberAt_spare hlen (by decide)
      (by simp [ParamsField.Spare, paramsFields, headerFields, e820Fields])
  unfold loadLinux
  rw [bind_eq_ok]
  constructor
  · rintro ⟨host₁, hcopy, hrest⟩
    obtain ⟨regs, hstart, hrest⟩ := bind_eq_ok.mp hrest
    cases hrest
    exact ⟨hcopy, (hregs hcopy).mp hstart⟩
  · rintro ⟨hcopy, hstart⟩
    refine ⟨host', hcopy, ?_⟩
    rw [(hregs hcopy).mpr hstart, ok_bind]

/-- It returns exactly if everything fits. -/
theorem loadLinux_ok_iff (h : vm.LowRam e) (hl : list.Holds nodes [e]) {imageSize : UInt64}
    (hfile : imageSize.toNat ≤ image.length ∧ image.length < 2 ^ 64) (answers : LoadAnswers)
    (host : HostMemory) :
    (∃ result, loadLinux vm host list (some image) imageSize answers = .ok result) ↔
      LinuxFits e.size.toNat image imageSize answers := by
  have hputs := puts_copyLinux h hl hfile answers host
  constructor
  · rintro ⟨⟨host', regs'⟩, hload⟩
    obtain ⟨hcopy, hregs, -⟩ := (loadLinux_eq_ok h hl hfile).mp hload
    obtain ⟨hlen, htable, hline, hkernel⟩ := hputs.succeeds_iff.mp ⟨host', hcopy⟩
    exact ⟨hlen, htable, hline, hkernel, hregs⟩
  · rintro ⟨hlen, htable, hline, hkernel, hregs⟩
    obtain ⟨host', hcopy⟩ := hputs.succeeds_iff.mpr ⟨hlen, htable, hline, hkernel⟩
    exact ⟨_, (loadLinux_eq_ok h hl hfile).mpr ⟨hcopy, hregs, rfl⟩⟩

/-- What it leaves: its copies, and two registers. -/
theorem loadLinux_seen (h : vm.LowRam e) (hl : list.Holds nodes [e]) {imageSize : UInt64}
    (hfile : imageSize.toNat ≤ image.length ∧ image.length < 2 ^ 64) {answers : LoadAnswers}
    {host host' : HostMemory} {regs' : KvmRegs}
    (hload : loadLinux vm host list (some image) imageSize answers = .ok (host', regs')) :
    view vm.translate host' =
        overwriteAll (view vm.translate host) (linuxCopies e image imageSize) ∧
      regs' = linuxStart image answers.regs := by
  obtain ⟨hcopy, -, hregs⟩ := (loadLinux_eq_ok h hl hfile).mp hload
  exact ⟨(puts_copyLinux h hl hfile answers host).seen host' hcopy, hregs.symm⟩

/-- **The loader trusts the image.**  `load_linux` returns exactly if the setup sectors that the
image says it has are in the file, and the kernel and a command line of the size that it says
fit; it has then made its copies and set two registers. -/
theorem linux_load_iff (h : vm.LowRam e) (hl : list.Holds nodes [e]) (host : HostMemory)
    (image : Option (List UInt8)) {imageSize : UInt64}
    (hfile : ∀ file, image = some file → imageSize.toNat ≤ file.length ∧ file.length < 2 ^ 64)
    (answers : LoadAnswers) :
    ((∃ result, loadLinux vm host list image imageSize answers = .ok result) ↔
      ∃ file, image = some file ∧ LinuxFits e.size.toNat file imageSize answers) ∧
    ∀ file host' regs', image = some file →
      loadLinux vm host list image imageSize answers = .ok (host', regs') →
      view vm.translate host' =
        overwriteAll (view vm.translate host) (linuxCopies e file imageSize) ∧
      regs' = linuxStart file answers.regs := by
  constructor
  · rcases image with _ | file
    · refine iff_of_false ?_ fun hfits => by
        obtain ⟨file, hnone, -⟩ := hfits
        cases hnone
      rintro ⟨result, hload⟩
      obtain ⟨host', hcopy, -⟩ := bind_eq_ok.mp hload
      exact copyLinux_none hcopy
    · rw [loadLinux_ok_iff h hl (hfile file rfl) answers host]
      refine ⟨fun hfits => ⟨file, rfl, hfits⟩, ?_⟩
      rintro ⟨_, ⟨⟩, hfits⟩
      exact hfits
  · rintro file host' regs' rfl hload
    exact loadLinux_seen h hl (hfile file rfl) hload

end Boot

/-! ## An image of zeros -/

theorem ofLe_replicate_zero (n : Nat) : Bytes.ofLe (List.replicate n 0) = 0 := by
  induction n with
  | zero => rfl
  | succ n ih =>
      rw [List.replicate_succ, Bytes.ofLe, ih]
      rfl

theorem fieldAt_zeros (n k count : Nat) : fieldAt (List.replicate n 0) k count = 0 := by
  rw [fieldAt, List.drop_replicate, List.take_replicate]
  exact ofLe_replicate_zero _

/-- It has no kernel behind its setup sectors but zeros. -/
theorem zeros_fit : LinuxFits 0x40000000 (List.replicate 0x1000 0) 0x1000 grants where
  params := by
    rw [List.length_replicate]
    decide
  table := ⟨rfl, rfl⟩
  cmdLine := by
    rw [fieldAt_zeros]
    decide
  kernel := by
    rw [KernelFits, imageSetupSize, fieldAt_zeros]
    decide
  regs := ⟨rfl, rfl⟩

theorem linux_load_iff_zeros : ∃ (vm : Vm) (e : MemoryEntry) (list : LinkedList MemoryEntry)
    (nodes : List Nat), vm.LowRam e ∧ list.Holds nodes [e] ∧
    (∃ result, loadLinux vm (fun _ => 0) list (some (List.replicate 0x1000 0)) 0x1000 grants =
      .ok result) ∧
    ¬ ∃ result, loadLinux vm (fun _ => 0) list (some (List.replicate 0x1000 0)) 0x200 grants =
      .ok result := by
  obtain ⟨vm, e, list, nodes, hlow, hsize, hlist⟩ := exists_gigabyte
  refine ⟨vm, e, list, nodes, hlow, hlist, ?_, ?_⟩
  · have hfile : ∀ file : List UInt8, some (List.replicate 0x1000 0) = some file →
        (0x1000 : UInt64).toNat ≤ file.length ∧ file.length < 2 ^ 64 := by
      rintro _ ⟨⟩
      rw [List.length_replicate]
      decide
    apply (linux_load_iff hlow hlist (fun _ => 0) _ hfile grants).1.mpr
    exact ⟨_, rfl, by rw [hsize]; exact zeros_fit⟩
  · have hfile : ∀ file : List UInt8, some (List.replicate 0x1000 0) = some file →
        (0x200 : UInt64).toNat ≤ file.length ∧ file.length < 2 ^ 64 := by
      rintro _ ⟨⟩
      rw [List.length_replicate]
      decide
    intro hload
    obtain ⟨file, hfile, hfits⟩ :=
      (linux_load_iff hlow hlist (fun _ => 0) _ hfile grants).1.mp hload
    cases hfile
    have hsetup := hfits.kernel.2.1
    rw [imageSetupSize, fieldAt_zeros] at hsetup
    exact absurd hsetup (by decide)

end BlackHV
