import BlackHV.Copies
import BlackHV.EchoProgram
import BlackHV.ScreenFrames

/-! # What the guest draws

`guest32.c`, between its line and its loop: one store to the range of the region, a background
that is black, though its comment says white, and the splash screen in the middle of it.  Each
pixel is four stores, and those of the splash screen go over the background; `picture` is what
they leave.
-/
namespace BlackHV

open FlatMemory

/-! ## The stores -/

/-- `framebuffer`, in `_start` and in `show_splash_screen`. -/
def framebuffer : UInt64 := 0xC2000000

/-- `ptr`. -/
def mmioPtr : UInt64 := 0xC000000A

/-- `GRAPHIC_WIDTH`. -/
def graphicWidth : Nat := 320
/-- `GRAPHIC_HEIGHT`. -/
def graphicHeight : Nat := 200
/-- `SPLASH_WIDTH`. -/
def splashWidth : Nat := 91
/-- `SPLASH_HEIGHT`. -/
def splashHeight : Nat := 93

/-- `top`. -/
def splashTop : Nat := (graphicHeight - splashHeight) / 2
/-- `left`. -/
def splashLeft : Nat := (graphicWidth - splashWidth) / 2

/-- `splash`. -/
abbrev Splash := Vector UInt8 (splashWidth * splashHeight)

/-- `splash[j * SPLASH_WIDTH + i]`. -/
def Splash.grey (splash : Splash) (j : Fin splashHeight) (i : Fin splashWidth) : UInt8 :=
  splash.get ⟨j * splashWidth + i, by
    have hj := j.isLt
    have hi := i.isLt
    unfold splashHeight at hj
    unfold splashWidth at hi ⊢
    unfold splashHeight
    omega⟩

/-- The four stores of a pixel. -/
def storePixel (index : Nat) (grey : UInt8) : List ByteStore :=
  [(framebuffer + UInt64.ofNat index, grey), (framebuffer + UInt64.ofNat (index + 1), grey),
    (framebuffer + UInt64.ofNat (index + 2), grey), (framebuffer + UInt64.ofNat (index + 3), 255)]

/-- The loop of `_start` over `i`, in steps of 4. -/
def clearScreen : List ByteStore :=
  (List.range (320 * 200)).flatMap fun i => storePixel (4 * i) 0

/-- The index of a pixel of the splash screen. -/
def splashIndex (j : Fin splashHeight) (i : Fin splashWidth) : Nat :=
  ((splashTop + j) * graphicWidth + splashLeft + i) * 4

/-- `show_splash_screen`. -/
def showSplashScreen (splash : Splash) : List ByteStore :=
  (List.finRange splashHeight).flatMap fun j =>
    (List.finRange splashWidth).flatMap fun i => storePixel (splashIndex j i) (splash.grey j i)

/-- All stores of `_start`, in order. -/
def drawing (splash : Splash) : List ByteStore :=
  (mmioPtr, 65) :: (clearScreen ++ showSplashScreen splash)

/-! ## The picture -/

/-- The grey of a pixel. -/
def picture (splash : Splash) (x y : Nat) : UInt8 :=
  if hy : splashTop ≤ y ∧ y - splashTop < splashHeight then
    if hx : splashLeft ≤ x ∧ x - splashLeft < splashWidth then
      splash.grey ⟨y - splashTop, hy.2⟩ ⟨x - splashLeft, hx.2⟩
    else 0
  else 0

/-- The bytes of a pixel. -/
def pixel (grey : UInt8) : List UInt8 := [grey, grey, grey, 255]

/-- A store of a byte as a copy. -/
def copyOf (store : ByteStore) : Nat × List UInt8 := (store.1.toNat, [store.2])

/-- A pixel as a copy. -/
def pixelCopy (index : Nat) (grey : UInt8) : Nat × List UInt8 :=
  (framebuffer.toNat + index, pixel grey)

/-- The pixels of the background, and of the splash screen. -/
def clearCopies : List (Nat × List UInt8) :=
  (List.range (320 * 200)).map fun i => pixelCopy (4 * i) 0

def splashPixels : List (Fin splashHeight × Fin splashWidth) :=
  (List.finRange splashHeight).flatMap fun j => (List.finRange splashWidth).map fun i => (j, i)

def splashCopies (splash : Splash) : List (Nat × List UInt8) :=
  splashPixels.map fun p => pixelCopy (splashIndex p.1 p.2) (splash.grey p.1 p.2)

/-! ## What the stores leave -/

section Pixels
variable {cells : Nat → Option UInt8} {index : Nat}

theorem framebuffer_add (h : index < frameBytes) :
    (framebuffer + UInt64.ofNat index).toNat = framebuffer.toNat + index := by
  unfold frameBytes at h
  have hlt : index < 2 ^ 64 := Nat.lt_trans h (by decide)
  have hsum : framebuffer.toNat + index < 2 ^ 64 := by
    have : framebuffer.toNat = 0xC2000000 := rfl
    omega
  rw [UInt64.toNat_add, UInt64.toNat_ofNat_of_lt' hlt, Nat.mod_eq_of_lt hsum]

/-- The stores of a pixel make one copy. -/
theorem overwriteAll_storePixel (h : index + 4 ≤ frameBytes) (grey : UInt8) :
    overwriteAll cells ((storePixel index grey).map copyOf) =
      overwriteAll cells [pixelCopy index grey] := by
  have hcopies : (storePixel index grey).map copyOf =
      [(framebuffer.toNat + index, [grey]), (framebuffer.toNat + index + 1, [grey]),
        (framebuffer.toNat + index + 1 + 1, [grey]),
        (framebuffer.toNat + index + 1 + 1 + 1, [255])] := by
    simp only [storePixel, List.map_cons, List.map_nil, copyOf,
      framebuffer_add (show index < frameBytes by omega),
      framebuffer_add (show index + 1 < frameBytes by omega),
      framebuffer_add (show index + 2 < frameBytes by omega),
      framebuffer_add (show index + 3 < frameBytes by omega), Nat.add_assoc]
  rw [hcopies, pixelCopy, pixel, overwriteAll_singleton, overwrite_cons,
    overwrite_cons grey [grey, 255], overwrite_cons grey [255]]
  rfl

theorem overwriteAll_clearScreen :
    overwriteAll cells (clearScreen.map copyOf) = overwriteAll cells clearCopies := by
  rw [clearScreen, List.map_flatMap]
  refine overwriteAll_flatMap fun i hi cells => overwriteAll_storePixel ?_ 0
  have hlt := List.mem_range.mp hi
  unfold frameBytes
  omega

theorem splashIndex_le (j : Fin splashHeight) (i : Fin splashWidth) :
    splashIndex j i + 4 ≤ frameBytes := by
  have hj : j.val < 93 := j.isLt
  have hi : i.val < 91 := i.isLt
  show ((53 + j.val) * 320 + 114 + i.val) * 4 + 4 ≤ 256000
  omega

theorem overwriteAll_showSplashScreen (splash : Splash) :
    overwriteAll cells ((showSplashScreen splash).map copyOf) =
      overwriteAll cells (splashCopies splash) := by
  have hrows : (showSplashScreen splash).map copyOf = splashPixels.flatMap fun p =>
      (storePixel (splashIndex p.1 p.2) (splash.grey p.1 p.2)).map copyOf := by
    simp only [showSplashScreen, splashPixels, List.map_flatMap, List.flatMap_assoc,
      List.flatMap_map]
  rw [hrows]
  exact overwriteAll_flatMap fun p _ cells =>
    overwriteAll_storePixel (splashIndex_le p.1 p.2) (splash.grey p.1 p.2)

/-- The pixels of the background do not overlap. -/
theorem clearCopies_apart : clearCopies.Pairwise fun c d => Misses [d] c.1 c.2.length := by
  refine List.pairwise_map.mpr (List.pairwise_lt_range.imp fun {i j} hlt => ?_)
  rw [misses_cons]
  refine ⟨.inr (.inr (.inl ?_)), misses_nil⟩
  show framebuffer.toNat + 4 * i + 4 ≤ framebuffer.toNat + 4 * j
  omega

/-- Those of the splash screen neither: `splashIndex` goes up with every turn of the loops. -/
theorem splashCopies_apart (splash : Splash) :
    (splashCopies splash).Pairwise fun c d => Misses [d] c.1 c.2.length := by
  have hstep : ∀ p q : Fin splashHeight × Fin splashWidth,
      splashIndex p.1 p.2 + 4 ≤ splashIndex q.1 q.2 →
      Misses [pixelCopy (splashIndex q.1 q.2) (splash.grey q.1 q.2)]
        (pixelCopy (splashIndex p.1 p.2) (splash.grey p.1 p.2)).1
        (pixelCopy (splashIndex p.1 p.2) (splash.grey p.1 p.2)).2.length := by
    intro p q hle
    rw [misses_cons]
    refine ⟨.inr (.inr (.inl ?_)), misses_nil⟩
    show framebuffer.toNat + splashIndex p.1 p.2 + 4 ≤ framebuffer.toNat + splashIndex q.1 q.2
    omega
  refine List.pairwise_map.mpr ?_
  refine List.Pairwise.imp (hstep _ _) ?_
  refine List.pairwise_flatMap.mpr ⟨fun j _ => ?_, ?_⟩
  · refine List.pairwise_map.mpr ((List.pairwise_lt_finRange splashWidth).imp fun {i i'} hlt => ?_)
    have hlt' : i.val < i'.val := hlt
    show ((53 + j.val) * 320 + 114 + i.val) * 4 + 4 ≤ ((53 + j.val) * 320 + 114 + i'.val) * 4
    omega
  · refine (List.pairwise_lt_finRange splashHeight).imp fun {j j'} hlt p hp q hq => ?_
    obtain ⟨i, -, rfl⟩ := List.mem_map.mp hp
    obtain ⟨i', -, rfl⟩ := List.mem_map.mp hq
    have hlt' : j.val < j'.val := hlt
    have hi : i.val < 91 := i.isLt
    show ((53 + j.val) * 320 + 114 + i.val) * 4 + 4 ≤ ((53 + j'.val) * 320 + 114 + i'.val) * 4
    omega

/-- A pixel of the splash screen and one beside it do not meet. -/
theorem splashCopies_misses (splash : Splash) {x y : Nat} (hx : x < 320)
    (hbeside : ¬ (splashTop ≤ y ∧ y - splashTop < splashHeight ∧
      splashLeft ≤ x ∧ x - splashLeft < splashWidth)) :
    Misses (splashCopies splash) (framebuffer.toNat + 4 * (320 * y + x)) 4 := by
  intro d hd
  obtain ⟨⟨j, i⟩, -, rfl⟩ := List.mem_map.mp hd
  have hj : j.val < 93 := j.isLt
  have hi : i.val < 91 := i.isLt
  have hne : ¬ (53 ≤ y ∧ y - 53 < 93 ∧ 114 ≤ x ∧ x - 114 < 91) := hbeside
  show 4 = 0 ∨ 4 = 0 ∨ _ ≤ framebuffer.toNat + ((53 + j.val) * 320 + 114 + i.val) * 4 ∨
    framebuffer.toNat + ((53 + j.val) * 320 + 114 + i.val) * 4 + 4 ≤ _
  omega

/-- **Every pixel is the one of the picture.** -/
theorem slice_drawn (splash : Splash) {x y : Nat} (hx : x < 320) (hy : y < 200) :
    slice (overwriteAll cells ((clearScreen ++ showSplashScreen splash).map copyOf))
      (framebuffer.toNat + 4 * (320 * y + x)) 4 = (pixel (picture splash x y)).map some := by
  rw [List.map_append, overwriteAll_append, overwriteAll_showSplashScreen, overwriteAll_clearScreen,
    ← overwriteAll_append]
  by_cases hin : splashTop ≤ y ∧ y - splashTop < splashHeight ∧
      splashLeft ≤ x ∧ x - splashLeft < splashWidth
  · -- the pixel of the splash screen is the last one there
    obtain ⟨htop, hj, hleft, hi⟩ := hin
    have hmem : pixelCopy (splashIndex ⟨y - splashTop, hj⟩ ⟨x - splashLeft, hi⟩)
        (splash.grey ⟨y - splashTop, hj⟩ ⟨x - splashLeft, hi⟩) ∈ splashCopies splash := by
      refine List.mem_map.mpr ⟨(⟨y - splashTop, hj⟩, ⟨x - splashLeft, hi⟩), ?_, rfl⟩
      exact List.mem_flatMap.mpr ⟨_, List.mem_finRange _, List.mem_map.mpr
        ⟨_, List.mem_finRange _, rfl⟩⟩
    have hplace : framebuffer.toNat + 4 * (320 * y + x) =
        framebuffer.toNat + splashIndex ⟨y - splashTop, hj⟩ ⟨x - splashLeft, hi⟩ := by
      have htop' : 53 ≤ y := htop
      have hleft' : 114 ≤ x := hleft
      show _ = framebuffer.toNat + ((53 + (y - 53)) * 320 + 114 + (x - 114)) * 4
      omega
    have hlast : slice (overwriteAll cells (clearCopies ++ (splashCopies splash ++ []))) _ 4 = _ :=
      slice_overwriteAll_of_mem (splashCopies_apart splash) hmem misses_nil
    rw [List.append_nil] at hlast
    rw [hplace, picture, dif_pos ⟨htop, hj⟩, dif_pos ⟨hleft, hi⟩]
    exact hlast
  · have hmem : pixelCopy (4 * (320 * y + x)) 0 ∈ clearCopies :=
      List.mem_map.mpr ⟨320 * y + x, List.mem_range.mpr (by omega), rfl⟩
    have hlast : slice (overwriteAll cells ([] ++ (clearCopies ++ splashCopies splash))) _ 4 = _ :=
      slice_overwriteAll_of_mem clearCopies_apart hmem (splashCopies_misses splash hx hin)
    rw [List.nil_append] at hlast
    have hgrey : picture splash x y = 0 := by
      unfold picture
      split
      · rename_i htop
        exact dif_neg fun hleft => hin ⟨htop.1, htop.2, hleft⟩
      · rfl
    rw [hgrey]
    exact hlast

/-- The stores to the framebuffer stay inside it. -/
theorem framebuffer_stores (splash : Splash) {store : ByteStore}
    (h : store ∈ clearScreen ++ showSplashScreen splash) :
    framebuffer.toNat ≤ store.1.toNat ∧ store.1.toNat < framebuffer.toNat + frameBytes := by
  have hpixel : ∃ index grey, index + 4 ≤ frameBytes ∧ store ∈ storePixel index grey := by
    rcases List.mem_append.mp h with hclear | hsplash
    · obtain ⟨i, hi, hmem⟩ := List.mem_flatMap.mp hclear
      have hlt := List.mem_range.mp hi
      exact ⟨4 * i, 0, by unfold frameBytes; omega, hmem⟩
    · obtain ⟨j, -, hrow⟩ := List.mem_flatMap.mp hsplash
      obtain ⟨i, -, hmem⟩ := List.mem_flatMap.mp hrow
      exact ⟨splashIndex j i, splash.grey j i, splashIndex_le j i, hmem⟩
  obtain ⟨index, grey, hle, hmem⟩ := hpixel
  obtain ⟨k, hk, haddr⟩ : ∃ k < 4, store.1 = framebuffer + UInt64.ofNat (index + k) := by
    simp only [storePixel, List.mem_cons, List.not_mem_nil, or_false] at hmem
    rcases hmem with rfl | rfl | rfl | rfl
    · exact ⟨0, by omega, rfl⟩
    · exact ⟨1, by omega, rfl⟩
    · exact ⟨2, by omega, rfl⟩
    · exact ⟨3, by omega, rfl⟩
  rw [haddr, framebuffer_add (by omega)]
  omega

end Pixels

end BlackHV
