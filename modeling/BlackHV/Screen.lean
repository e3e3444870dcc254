import BlackHV.GuestAccess
import BlackHV.Ledgers

/-! # The screen

`screen.c`: a window that shows a part of the guest's memory.  `screen_init` allocates the
framebuffer and creates the objects of SDL, `screen_run` copies the framebuffer into a
texture sixty times a second until the window is closed, and `screen_uninit` destroys the
objects.  SDL is not part of the repository: what its functions answer is an argument.
-/
namespace BlackHV

/-- `FB_WIDTH`. -/
def fbWidth : UInt64 := 320
/-- `FB_HEIGHT`. -/
def fbHeight : UInt64 := 200
/-- `FB_BPP`. -/
def fbBpp : UInt64 := 4
/-- `PAGE_SIZE`. -/
def pageSize : UInt64 := 4096

/-- `align_up`. -/
def alignUp (ptr : UInt64) : UInt64 := (ptr + (pageSize - 1)) &&& ~~~(pageSize - 1)

/-- `struct screen`, with the objects of SDL as their addresses. -/
structure Screen where
  window : UInt64
  renderer : UInt64
  texture : UInt64
  framebufferPhys : UInt64
  deriving DecidableEq

/-- A VM as far as the screen is concerned: its memory map, and `vm->screen` with the address
of its block. -/
structure ScreenVm where
  vm : Vm
  screen : Option (UInt64 × Screen)

/-- What `malloc` and the functions of SDL return in `screen_init`: addresses, or 0 for
`NULL`. -/
structure SdlAnswers where
  screen : UInt64
  window : UInt64
  renderer : UInt64
  texture : UInt64
  deriving DecidableEq

/-- What `screen_init` acquires. -/
inductive ScreenResource where
  | block (address : UInt64)
  | window (address : UInt64)
  | renderer (address : UInt64)
  | texture (address : UInt64)
  deriving DecidableEq

/-- What a `screen_init` that returns 1 has acquired, and the screen it makes of it. -/
def SdlAnswers.resources (sdl : SdlAnswers) : List ScreenResource :=
  [.block sdl.screen, .window sdl.window, .renderer sdl.renderer, .texture sdl.texture]

def SdlAnswers.made (sdl : SdlAnswers) (framebufferPhys : UInt64) : Screen :=
  { window := sdl.window, renderer := sdl.renderer, texture := sdl.texture, framebufferPhys }

/-- `screen_init` on a VM that is not `NULL`: what it returns, and what it acquires and
releases, in order.  The result of `SDL_Init` is ignored, and that of `malloc` is not
tested. -/
def screenInit (s : ScreenVm) (framebufferPhys : UInt64) (host : HostAnswers) (sdl : SdlAnswers) :
    Except Fault (ScreenVm × Int64 × List (Ledger.Change ScreenResource)) :=
  match memoryAlloc s.vm framebufferPhys (alignUp (fbWidth * fbHeight * fbBpp)) memoryFramebuffer
    host with
  | (vm, false) => .ok ({ s with vm }, 0, [])
  | (vm, true) =>
      if sdl.screen = 0 then
        .error .nullDereference
      else if sdl.window = 0 then
        .ok ({ s with vm }, 0, [.acquired (.block sdl.screen), .released (.block sdl.screen)])
      else if sdl.renderer = 0 then
        .ok ({ s with vm }, 0,
          [.acquired (.block sdl.screen), .acquired (.window sdl.window),
            .released (.window sdl.window), .released (.block sdl.screen)])
      else if sdl.texture = 0 then
        .ok ({ s with vm }, 0,
          [.acquired (.block sdl.screen), .acquired (.window sdl.window),
            .acquired (.renderer sdl.renderer), .released (.renderer sdl.renderer),
            .released (.window sdl.window), .released (.block sdl.screen)])
      else
        .ok ({ vm, screen := some (sdl.screen, sdl.made framebufferPhys) }, 1,
          [.acquired (.block sdl.screen), .acquired (.window sdl.window),
            .acquired (.renderer sdl.renderer), .acquired (.texture sdl.texture)])

section Init
variable {s v : ScreenVm} {fb : UInt64} {host : HostAnswers} {sdl : SdlAnswers}

/-- **A `screen_init` keeps all that it acquires, or nothing.**  The map keeps the framebuffer
in both cases. -/
theorem screenInit_cases {result : Int64} {changes : List (Ledger.Change ScreenResource)}
    (h : screenInit s fb host sdl = .ok (v, result, changes)) :
    v.vm = (memoryAlloc s.vm fb (alignUp (fbWidth * fbHeight * fbBpp)) memoryFramebuffer host).1 ∧
      ((result = 0 ∧ v.screen = s.screen ∧ ∃ rs : List ScreenResource,
          changes = rs.map .acquired ++ rs.reverse.map .released) ∨
        (result = 1 ∧
          (memoryAlloc s.vm fb (alignUp (fbWidth * fbHeight * fbBpp)) memoryFramebuffer host).2 =
            true ∧
          v.screen = some (sdl.screen, sdl.made fb) ∧ changes = sdl.resources.map .acquired)) := by
  unfold screenInit at h
  generalize memoryAlloc s.vm fb (alignUp (fbWidth * fbHeight * fbBpp)) memoryFramebuffer host = r
    at h ⊢
  obtain ⟨vm, ok⟩ := r
  cases ok with
  | false =>
      cases h
      exact ⟨rfl, Or.inl ⟨rfl, rfl, [], rfl⟩⟩
  | true =>
      dsimp only at h
      split at h
      · cases h
      split at h
      · cases h
        exact ⟨rfl, Or.inl ⟨rfl, rfl, [.block sdl.screen], rfl⟩⟩
      split at h
      · cases h
        exact ⟨rfl, Or.inl ⟨rfl, rfl, [.block sdl.screen, .window sdl.window], rfl⟩⟩
      split at h
      · cases h
        refine ⟨rfl, Or.inl ⟨rfl, rfl, ?_⟩⟩
        exact ⟨[.block sdl.screen, .window sdl.window, .renderer sdl.renderer], rfl⟩
      · cases h
        exact ⟨rfl, Or.inr ⟨rfl, rfl, rfl, rfl⟩⟩

end Init

/-- What `SDL_Quit` closes of the objects that are there when it is called. -/
structure SdlShutdown where
  window : UInt64 → Bool
  renderer : UInt64 → Bool
  texture : UInt64 → Bool

/-- It frees no block of `malloc`. -/
def SdlShutdown.closes (shutdown : SdlShutdown) : ScreenResource → Bool
  | .block _ => false
  | .window address => shutdown.window address
  | .renderer address => shutdown.renderer address
  | .texture address => shutdown.texture address

/-- `screen_uninit` on a VM that is not `NULL`, and the ledger after it: the three objects of
the screen are destroyed, and `SDL_Quit` closes what it does of those that are left.  No block
is freed, and `vm->screen` stays as it is. -/
def screenUninit (s : ScreenVm) (shutdown : SdlShutdown) (ledger : Ledger ScreenResource) :
    Ledger ScreenResource :=
  match s.screen with
  | none => ledger
  | some (_, screen) =>
      let destroyed := ledger.recordAll
        [.released (.texture screen.texture), .released (.renderer screen.renderer),
          .released (.window screen.window)]
      destroyed.releaseHeld shutdown.closes

/-! ## Frames -/

/-- The pixels of a texture, row by row, and the length of a row in bytes. -/
structure Frame where
  bytes : List UInt8
  pitch : Nat
  deriving DecidableEq

/-- The bytes that the guest stores, one at a time. -/
abbrev GuestStores := List (UInt64 × UInt8)

def GuestStores.events (stores : GuestStores) : List MemoryEvent :=
  stores.map fun p => .guestStore p.1 p.2

/-- The loop of `memory_read` while the guest runs: it stores `stores read` before byte
`read` is loaded. -/
def memoryReadWhileLoop (s : SharedMemory) (ptr baseAddress memLimit : UInt64)
    (stores : Nat → GuestStores) (read : UInt64) :
    Nat → Except Fault (SharedMemory × List UInt8 × UInt64)
  | 0 => .ok (s, [], read)
  | left + 1 =>
      if read < memLimit then do
        let (s, _) ← Runs.trace SharedMemory.step s (stores read.toNat).events
        let b ← loadByte s.vm s.host (ptr + (baseAddress + read))
        let (s, bytes, read) ←
          memoryReadWhileLoop s ptr baseAddress memLimit stores (read + 1) left
        .ok (s, b :: bytes, read)
      else
        .ok (s, [], read)

/-- `memory_read` while the guest runs. -/
def memoryReadWhile (s : SharedMemory) (srcPhys size : UInt64) (stores : Nat → GuestStores) :
    Except Fault (SharedMemory × List UInt8 × Int64) :=
  match findEntry s.vm srcPhys with
  | none => .ok (s, [], -1)
  | some entry =>
      if entry.type ≠ memoryUsable ∧ entry.type ≠ memoryFramebuffer then
        .ok (s, [], -1)
      else do
        let baseAddress := srcPhys - entry.guestPhys
        let memLimit := entry.size - baseAddress
        let (s, bytes, read) ← memoryReadWhileLoop s entry.memoryPtr baseAddress memLimit stores 0
          size.toNat
        .ok (s, bytes, read.toInt64)

/-- `screen_update` on a VM with a screen, and the texture afterwards.  `lock` is what
`SDL_LockTexture` answers: the pixels and the pitch, which is not used, or a failure. -/
def screenUpdate (s : SharedMemory) (screen : Screen) (texture : Frame) (lock : Option Frame)
    (stores : Nat → GuestStores) : Except Fault (SharedMemory × Frame) :=
  match lock with
  | none => .ok (s, texture)
  | some pixels => do
      let (s, bytes, _) ←
        memoryReadWhile s screen.framebufferPhys (fbWidth * fbHeight * fbBpp) stores
      if bytes.length ≤ pixels.bytes.length then
        .ok (s, { pixels with bytes := bytes ++ pixels.bytes.drop bytes.length })
      else
        .error .outOfBounds

/-- `SDL_QUIT`. -/
def sdlQuit : UInt32 := 0x100

/-- One turn of the loop of `screen_run`: the types of the events that are polled, the answer
to the lock, and what the guest stores during the copy. -/
structure ScreenTurn where
  polled : List UInt32
  lock : Option Frame
  stores : Nat → GuestStores

/-- The thread of `screen_run` on a VM with a screen, and the memory of the process. -/
structure ScreenThread where
  shared : SharedMemory
  screen : Screen
  texture : Frame
  running : Bool

/-- An event of the memory while the thread sleeps, or a turn of its loop. -/
inductive ScreenEvent where
  | memory (e : MemoryEvent)
  | turn (t : ScreenTurn)

/-- The answer of the memory, the frame that is presented, that the thread has returned, or
nothing where it had. -/
inductive ScreenReply where
  | memory (reply : MemoryReply)
  | presented (bytes : List (Option UInt8)) (pitch : Nat)
  | returned
  | idle
  deriving DecidableEq

/-- One event.  A turn in which `SDL_QUIT` is polled is the last one. -/
def ScreenThread.step (s : ScreenThread) :
    ScreenEvent → Except Fault (ScreenThread × ScreenReply)
  | .memory e => do
      let (shared, reply) ← s.shared.step e
      .ok ({ s with shared }, .memory reply)
  | .turn t =>
      if !s.running then
        .ok (s, .idle)
      else if t.polled.contains sdlQuit then
        .ok ({ s with running := false }, .returned)
      else do
        let (shared, texture) ← screenUpdate s.shared s.screen s.texture t.lock t.stores
        .ok ({ s with shared, texture }, .presented (texture.bytes.map some) texture.pitch)

end BlackHV
