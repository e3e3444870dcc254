import BlackHV.ScreenFrames

/-! # From `screen_init` to `screen_uninit`

A ledger of what `screen_init` acquires: the block of the `struct screen`, and the window,
the renderer and the texture of SDL.  A `screen_init` that fails gives back all it has
acquired, but not the framebuffer's range in the map.  `screen_uninit` destroys the three
objects, and its `SDL_Quit` those that a replaced screen has left behind, as far as it closes
them.  It does not free the block, and it leaves `vm->screen` set: a second one destroys the
objects again.
-/
namespace BlackHV

/-- A call on one VM. -/
inductive ScreenCall where
  | alloc (c : AllocCall)
  | init (framebufferPhys : UInt64) (host : HostAnswers) (sdl : SdlAnswers)
  | uninit (shutdown : SdlShutdown)

/-- The objects of SDL, in the order in which `screen_uninit` destroys them. -/
def Screen.objects (screen : Screen) : List ScreenResource :=
  [.texture screen.texture, .renderer screen.renderer, .window screen.window]

/-- The VM and the ledger, whether the objects of `vm->screen` are alive, and what nothing
refers to any more: the blocks, and the objects of a screen that another `screen_init` has
replaced, as long as no `SDL_Quit` has closed them. -/
structure ScreenWorld where
  state : ScreenVm
  ledger : Ledger ScreenResource
  opened : Bool
  lost : List ScreenResource

namespace ScreenWorld

/-- A VM without a screen. -/
def start (vm : Vm) : ScreenWorld :=
  { state := { vm, screen := none }, ledger := Ledger.empty, opened := false, lost := [] }

/-- The objects of the screen that is open. -/
def openObjects (w : ScreenWorld) : List ScreenResource :=
  match w.opened, w.state.screen with
  | true, some (_, screen) => screen.objects
  | _, _ => []

def step (w : ScreenWorld) : ScreenCall → Except Fault ScreenWorld
  | .alloc c =>
      let vm := (memoryAlloc w.state.vm c.physAddr c.size c.type c.host).1
      .ok { w with state := { w.state with vm } }
  | .init framebufferPhys host sdl => do
      let (state, result, changes) ← screenInit w.state framebufferPhys host sdl
      let ledger := w.ledger.recordAll changes
      if result = 1 then
        .ok { state, ledger, opened := true,
              lost := .block sdl.screen :: (w.openObjects ++ w.lost) }
      else
        .ok { w with state, ledger }
  | .uninit shutdown =>
      let lost :=
        match w.state.screen with
        | none => w.lost
        | some _ => w.lost.filter fun r => !shutdown.closes r
      .ok { w with ledger := screenUninit w.state shutdown w.ledger, opened := false, lost }

/-- What is held is the objects of the open screen and what is lost, and nothing has been
destroyed or freed twice. -/
def Accounted (w : ScreenWorld) : Prop := w.ledger.Balanced (w.openObjects ++ w.lost)

/-- `malloc` has a block, and SDL does not create a texture at the address of a live one. -/
def Fresh (w : ScreenWorld) : ScreenCall → Prop
  | .init _ _ sdl => sdl.screen ≠ 0 ∧ .texture sdl.texture ∉ w.ledger.held
  | _ => True

instance decidableFresh (w : ScreenWorld) : (call : ScreenCall) → Decidable (w.Fresh call)
  | .init _ _ sdl =>
      inferInstanceAs (Decidable (sdl.screen ≠ 0 ∧ .texture sdl.texture ∉ w.ledger.held))
  | .alloc _ | .uninit _ => .isTrue trivial

/-- What is known of `vm->screen`: there is one if one is open, and its texture is not lost. -/
structure Known (w : ScreenWorld) : Prop where
  screen : w.opened = true → w.state.screen ≠ none
  texture : ∀ p, w.state.screen = some p → .texture p.2.texture ∉ w.lost

variable {w w' : ScreenWorld} {fb : UInt64} {host : HostAnswers} {sdl : SdlAnswers}

end ScreenWorld

namespace ScreenWorld

/-- A framebuffer at the address would overlap the one at `fb`, or end where it starts. -/
def Meets (fb fb' : UInt64) : Prop :=
  fb'.toNat < fb.toNat + 258048 ∧ fb.toNat ≤ fb'.toNat + 258048 ∧ fb'.toNat + 258048 < 2 ^ 64

/-- The map has the range of a framebuffer. -/
def Reserved (fb : UInt64) (w : ScreenWorld) : Prop :=
  ∃ e ∈ w.state.vm.memoryEntries, e.Fits ∧ e.guestPhys = fb ∧ e.size.toNat = 258048

/-- An address that meets a framebuffer in the map is refused. -/
theorem screenInit_refused {w : ScreenWorld} {fb fb' : UInt64} (h : w.Reserved fb)
    (hm : Meets fb fb') (host : HostAnswers) (sdl : SdlAnswers) :
    screenInit w.state fb' host sdl = .ok (w.state, 0, []) := by
  obtain ⟨e, he, hfits, hphys, hsize⟩ := h
  obtain ⟨hlt, hle, hfits'⟩ := hm
  have hconflicts : e.conflicts fb' (alignUp (fbWidth * fbHeight * fbBpp)) = true := by
    have hsize' : (alignUp (fbWidth * fbHeight * fbBpp)).toNat = 258048 := rfl
    rw [MemoryEntry.conflicts_iff hfits (by rw [hsize']; exact hfits'), hphys, hsize, hsize']
    omega
  have hcheck : ¬ checkAddrAvailable w.state.vm fb' (alignUp (fbWidth * fbHeight * fbBpp)) =
      true := by
    intro hall
    have hnot := List.all_eq_true.mp hall e he
    rw [hconflicts] at hnot
    cases hnot
  have hrefused := Vm.memoryAlloc_taken (c := framebufferCall fb' host) hcheck
  simp only [framebufferCall] at hrefused
  simp only [screenInit, hrefused]

/-- No call takes a range from the map. -/
theorem reserved_step {w w' : ScreenWorld} {fb : UInt64} {call : ScreenCall} (h : w.Reserved fb)
    (hstep : w.step call = .ok w') : w'.Reserved fb := by
  obtain ⟨e, he, hrest⟩ := h
  have hkept : ∀ c : AllocCall,
      e ∈ (memoryAlloc w.state.vm c.physAddr c.size c.type c.host).1.memoryEntries := by
    intro c
    rw [Vm.memoryEntries_alloc]
    exact List.mem_append_left _ he
  cases call with
  | alloc c =>
      cases hstep
      exact ⟨e, hkept c, hrest⟩
  | uninit shutdown =>
      cases hstep
      exact ⟨e, he, hrest⟩
  | init fb' host sdl =>
      obtain ⟨⟨state, result, changes⟩, hinit, hw'⟩ := bind_eq_ok.mp hstep
      have hvm := (screenInit_cases hinit).1
      have hmem : e ∈ state.vm.memoryEntries := hvm ▸ hkept (framebufferCall fb' host)
      dsimp only at hw'
      split at hw'
      · cases hw'
        exact ⟨e, hmem, hrest⟩
      · cases hw'
        exact ⟨e, hmem, hrest⟩

end ScreenWorld

/-- **A framebuffer is allocated once.**  Let a `screen_init` get its framebuffer, whether or
not SDL then fails.  Along every run of `memory_alloc`, `screen_init` and `screen_uninit` after
it, each `screen_init` at that address, or at one whose framebuffer would meet the first one,
returns 0 and changes nothing: a screen whose window could not be created cannot be tried
again, and one that was closed not opened again. -/
theorem screen_init_once {w w' : ScreenWorld} {fb : UInt64} {host : HostAnswers} {sdl : SdlAnswers}
    (hfits : fb.toNat + 258048 < 2 ^ 64) (hnode : host.node = true)
    (halloc : (memoryAlloc w.state.vm fb (alignUp (fbWidth * fbHeight * fbBpp)) memoryFramebuffer
      host).2 = true)
    (hstep : w.step (.init fb host sdl) = .ok w') {calls : List ScreenCall} {w'' : ScreenWorld}
    (hrun : Runs.run ScreenWorld.step w' calls = .ok w'') :
    ∀ fb', ScreenWorld.Meets fb fb' → ∀ host sdl,
      screenInit w''.state fb' host sdl = .ok (w''.state, 0, []) := by
  obtain ⟨⟨v, result, changes⟩, hinit, hw'⟩ := bind_eq_ok.mp hstep
  have hvm := (screenInit_cases hinit).1
  -- the call has added the entry of its framebuffer
  have hreserved : w'.Reserved fb := by
    have hadded := SharedMemory.memoryAlloc_snd (s := ⟨w.state.vm, fun _ => 0⟩)
      (c := framebufferCall fb host) hnode
    simp only [framebufferCall, halloc] at hadded
    obtain ⟨e, he⟩ := Option.isSome_iff_exists.mp hadded.symm
    obtain ⟨-, -, hphys, hsize, -⟩ := Vm.entryAdded_some he
    have hlist := Vm.memoryEntries_alloc w.state.vm (framebufferCall fb host)
    have hmem : e ∈ v.vm.memoryEntries := by
      rw [hvm]
      refine hlist ▸ List.mem_append_right _ ?_
      exact Option.mem_toList.mpr he
    have hsize' : e.size.toNat = 258048 := congrArg UInt64.toNat hsize
    have hefits : e.Fits := by
      rw [MemoryEntry.Fits, hphys, hsize']
      exact hfits
    dsimp only at hw'
    split at hw'
    · cases hw'
      exact ⟨e, hmem, hefits, hphys, hsize'⟩
    · cases hw'
      exact ⟨e, hmem, hefits, hphys, hsize'⟩
  intro fb' hm host' sdl'
  exact ScreenWorld.screenInit_refused (Runs.run_keeps (I := ScreenWorld.Reserved fb)
    (fun _ _ _ hr hs => ScreenWorld.reserved_step hr hs) hreserved hrun) hm host' sdl'

/-- A window that cannot be created, and then RAM elsewhere and a screen that is refused. -/
theorem screen_init_once_window :
    let host : HostAnswers := ⟨true, 0x7F0000000000, true, true⟩
    let shutdown : SdlShutdown := ⟨fun _ => true, fun _ => false, fun _ => false⟩
    ∃ w'', Runs.run ScreenWorld.step (ScreenWorld.start Vm.new)
        [.init 0xC2000000 host ⟨1, 0, 3, 4⟩,
          .alloc ⟨0, 0x1000, memoryUsable, ⟨true, 0x7F0001000000, true, true⟩⟩,
          .uninit shutdown] = .ok w'' ∧
      ∀ fb', ScreenWorld.Meets 0xC2000000 fb' → ∀ host sdl,
        screenInit w''.state fb' host sdl = .ok (w''.state, 0, []) := by
  intro host shutdown
  obtain ⟨w', hstep⟩ : ∃ w', (ScreenWorld.start Vm.new).step (.init 0xC2000000 host ⟨1, 0, 3, 4⟩) =
      .ok w' := ⟨_, rfl⟩
  obtain ⟨w'', hrun⟩ : ∃ w'', Runs.run ScreenWorld.step w'
      [.alloc ⟨0, 0x1000, memoryUsable, ⟨true, 0x7F0001000000, true, true⟩⟩, .uninit shutdown] =
        .ok w'' := ⟨_, rfl⟩
  refine ⟨w'', (Runs.run_cons_ok hstep).trans hrun, ?_⟩
  exact screen_init_once (by decide) rfl rfl hstep hrun

end BlackHV
