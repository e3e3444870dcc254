import BlackHV.Screen

/-! # What the screen shows

`screen_update` copies the framebuffer byte by byte while the guest runs, so a frame need
not be what the memory was at any one time.  Its bytes are: each of them is the byte that
the memory both sides see had at its address when the copy reached it.
-/
namespace BlackHV

open Spans FlatMemory

/-! ## The abstract screen -/

namespace PhysicalMemory

/-- The memory after stores of the guest. -/
def after (m : PhysicalMemory) (stores : GuestStores) : PhysicalMemory :=
  (Runs.traceTotal step m stores.events).1

/-- A copy of `n` bytes, from byte `i` after `a` on: before each of them the guest stores. -/
def copy (m : PhysicalMemory) (a : Nat) (stores : Nat → GuestStores) (i : Nat) :
    Nat → PhysicalMemory × List (Option UInt8)
  | 0 => (m, [])
  | n + 1 =>
      let m := m.after (stores i)
      let (m', bytes) := m.copy a stores (i + 1) n
      (m', m.cells (a + i) :: bytes)

end PhysicalMemory

/-- The bytes of a frame: `FB_WIDTH * FB_HEIGHT * FB_BPP`. -/
def frameBytes : Nat := 256000

/-- The memory, what the texture shows of it, and whether frames are presented. -/
structure FrameSpec where
  memory : PhysicalMemory
  bytes : List (Option UInt8)
  pitch : Nat
  running : Bool

/-- One event, for a framebuffer of `n` bytes at `fb`. -/
def FrameSpec.step (fb n : Nat) (f : FrameSpec) : ScreenEvent → FrameSpec × ScreenReply
  | .memory e =>
      let (memory, reply) := f.memory.step e
      ({ f with memory }, .memory reply)
  | .turn t =>
      if !f.running then
        (f, .idle)
      else if t.polled.contains sdlQuit then
        ({ f with running := false }, .returned)
      else
        match t.lock with
        | none => (f, .presented f.bytes f.pitch)
        | some pixels =>
            let (memory, copied) := f.memory.copy fb t.stores 0 n
            let bytes := copied ++ (pixels.bytes.drop n).map some
            ({ f with memory, bytes, pitch := pixels.pitch }, .presented bytes pixels.pitch)

/-- What is asked of an event: that of the memory is served, and SDL locks a texture of the
size that was asked for, or of longer rows. -/
def ScreenEvent.Served (limit : Nat) (s : ScreenThread) : ScreenEvent → Prop
  | .memory e => e.Served limit s.shared
  | .turn t => ∀ pixels, t.lock = some pixels → frameBytes ≤ pixels.bytes.length

/-! ## The copy -/

namespace PhysicalMemory
variable {m : PhysicalMemory} {a : Nat} {region : Span}

/-- RAM stays where it is. -/
theorem ramAt_step (h : m.ramAt a = some region) (e : MemoryEvent) :
    (m.step e).1.ramAt a = some region := by
  have hranges : ∀ m' : PhysicalMemory, m'.ranges = m.ranges → m'.ramAt a = some region := by
    intro m' hm'
    rw [ramAt, hm']
    exact h
  cases e with
  | alloc c =>
      rw [step]
      split
      · obtain ⟨r, hr, hspan⟩ := Option.map_eq_some_iff.mp h
        rw [ramAt, add, List.find?_append, hr, Option.some_or, Option.map_some, hspan]
      · exact h
  | library access => exact hranges _ rfl
  | guestStore addr b =>
      rw [step]
      split
      · exact h
      · exact hranges _ rfl
  | guestLoad addr =>
      rw [step]
      split
      · exact h
      · exact h

theorem ramAt_after (h : m.ramAt a = some region) (stores : GuestStores) :
    (m.after stores).ramAt a = some region := by
  induction stores generalizing m with
  | nil => exact h
  | cons p stores ih => exact ih (ramAt_step h (.guestStore p.1 p.2))

theorem ramAt_copy (h : m.ramAt a = some region) (fb : Nat) (stores : Nat → GuestStores)
    (i n : Nat) : (m.copy fb stores i n).1.ramAt a = some region := by
  induction n generalizing m i with
  | zero => exact h
  | succ n ih => exact ih (ramAt_after h (stores i)) (i + 1)

/-- The memory when a copy reaches byte `j`. -/
def reached (m : PhysicalMemory) (stores : Nat → GuestStores) (i : Nat) : Nat → PhysicalMemory
  | 0 => m.after (stores i)
  | j + 1 => (m.after (stores i)).reached stores (i + 1) j

theorem length_copy (m : PhysicalMemory) (a : Nat) (stores : Nat → GuestStores) (i n : Nat) :
    (m.copy a stores i n).2.length = n := by
  induction n generalizing m i with
  | zero => rfl
  | succ n ih => exact congrArg (· + 1) (ih _ (i + 1))

/-- **Each byte is the one the memory had when the copy reached it.** -/
theorem getElem?_copy (m : PhysicalMemory) (a : Nat) (stores : Nat → GuestStores) (i : Nat)
    {j n : Nat} (hj : j < n) :
    (m.copy a stores i n).2[j]? = some ((m.reached stores i j).cells (a + i + j)) := by
  induction n generalizing m i j with
  | zero => exact absurd hj (Nat.not_lt_zero j)
  | succ n ih =>
      cases j with
      | zero => rfl
      | succ j =>
          have hrest := ih (m.after (stores i)) (i + 1) (Nat.lt_of_succ_lt_succ hj)
          rw [show a + i + (j + 1) = a + (i + 1) + j by omega]
          exact hrest

/-- Without stores the memory stays as it is. -/
theorem reached_nil (m : PhysicalMemory) (i j : Nat) : m.reached (fun _ => []) i j = m := by
  induction j generalizing i with
  | zero => rfl
  | succ j ih => exact ih (i + 1)

end PhysicalMemory

/-! ## The loop of `memory_read` -/

namespace SharedMemory
variable {s : SharedMemory}

open Vm

theorem guestStore_vm {s' : SharedMemory} {addr : UInt64} {b : UInt8} {reply : MemoryReply}
    (h : s.step (.guestStore addr b) = .ok (s', reply)) : s'.vm = s.vm := by
  rw [step] at h
  split at h
  · cases h
    rfl
  · obtain ⟨host', -, hs'⟩ := bind_eq_ok.mp h
    cases hs'
    rfl

/-- The guest's stores are those of the memory both see, and leave the map as it is. -/
theorem stores_simulate (h : s.Consistent) (stores : GuestStores) :
    ∃ s' replies, Runs.trace step s stores.events = .ok (s', replies) ∧
      s'.physical = s.physical.after stores ∧ s'.Consistent ∧ s'.vm = s.vm := by
  induction stores generalizing s with
  | nil => exact ⟨s, [], rfl, rfl, h, rfl⟩
  | cons p stores ih =>
      obtain ⟨s₁, hstep, hphys₁, h₁⟩ := guestStore_simulates h p.1 p.2
      obtain ⟨s', replies, htrace, hphys, h', hvm⟩ := ih h₁
      refine ⟨s', _ :: replies, Runs.trace_cons_ok hstep htrace, ?_, h', ?_⟩
      · rw [hphys, hphys₁]
        rfl
      · exact hvm.trans (guestStore_vm hstep)

/-- The loop copies, byte by byte, what the memory has when it gets there. -/
theorem memoryReadWhileLoop_spec (h : s.Consistent) {e : MemoryEntry}
    (he : e ∈ s.vm.memoryEntries) (ht : isReadable e.type = true) {d : UInt64}
    (hin : e.span.Contains d.toNat) (stores : Nat → GuestStores) (read : UInt64) (left : Nat)
    (hroom : read.toNat + left ≤ (e.size - (d - e.guestPhys)).toNat) :
    ∃ s' bytes read', memoryReadWhileLoop s e.memoryPtr (d - e.guestPhys)
        (e.size - (d - e.guestPhys)) stores read left = .ok (s', bytes, read') ∧
      bytes.map some = (s.physical.copy d.toNat stores read.toNat left).2 ∧
      s'.physical = (s.physical.copy d.toNat stores read.toNat left).1 ∧
      s'.Consistent := by
  induction left generalizing s read with
  | zero => exact ⟨s, [], read, rfl, rfl, rfl, h⟩
  | succ left ih =>
      have hlt : read < e.size - (d - e.guestPhys) := UInt64.lt_iff_toNat_lt.mpr (by omega)
      have hsucc := index_succ hlt
      obtain ⟨s₁, replies, htrace, hphys₁, h₁, hvm₁⟩ := stores_simulate h (stores read.toNat)
      rw [← hvm₁] at he
      obtain ⟨htrans, hmapped⟩ := translate_inside h₁.backed he ht hin hlt
      have hload : loadByte s₁.vm s₁.host (e.memoryPtr + ((d - e.guestPhys) + read)) = .ok _ :=
        if_pos hmapped
      have hcell : s₁.physical.cells (d.toNat + read.toNat) =
          some (s₁.host (e.memoryPtr + ((d - e.guestPhys) + read))) := by
        show (s₁.vm.translate (d.toNat + read.toNat)).map s₁.host = _
        rw [htrans, Option.map_some]
      obtain ⟨s', bytes, read', hloop, hbytes, hphys, h'⟩ := ih h₁ he (read + 1) (by omega)
      rw [hphys₁] at hcell
      rw [hphys₁, hsucc] at hbytes hphys
      refine ⟨s', s₁.host (e.memoryPtr + ((d - e.guestPhys) + read)) :: bytes, read', ?_, ?_, hphys,
        h'⟩
      · rw [memoryReadWhileLoop, if_pos hlt, htrace, ok_bind]
        simp only [hload, ok_bind, hloop]
      · rw [List.map_cons, hbytes, PhysicalMemory.copy, ← hcell]

/-- Where the guest stores nothing, the loop is that of `memory_read`. -/
theorem memoryReadWhileLoop_nil (ptr baseAddress memLimit read : UInt64) (left : Nat) :
    memoryReadWhileLoop s ptr baseAddress memLimit (fun _ => []) read left =
      (memoryReadLoop s.vm ptr baseAddress memLimit s.host read left).map
        fun r => (s, r.1, r.2) := by
  induction left generalizing read with
  | zero => rfl
  | succ left ih =>
      rw [memoryReadWhileLoop, memoryReadLoop]
      split
      · have hnone : Runs.trace step s (GuestStores.events []) = .ok (s, []) := rfl
        rw [hnone, ok_bind]
        dsimp only
        cases loadByte s.vm s.host (ptr + (baseAddress + read)) with
        | error f => rfl
        | ok b =>
            simp only [ok_bind, ih]
            cases memoryReadLoop s.vm ptr baseAddress memLimit s.host (read + 1) left <;> rfl
      · rfl

/-- So is the function. -/
theorem memoryReadWhile_nil (srcPhys size : UInt64) :
    memoryReadWhile s srcPhys size (fun _ => []) =
      (memoryRead s.vm s.host srcPhys size).map fun r => (s, r.1, r.2) := by
  unfold memoryReadWhile memoryRead
  cases findEntry s.vm srcPhys with
  | none => rfl
  | some entry =>
      dsimp only
      split
      · rfl
      · rw [memoryReadWhileLoop_nil]
        cases memoryReadLoop s.vm entry.memoryPtr (srcPhys - entry.guestPhys)
          (entry.size - (srcPhys - entry.guestPhys)) s.host 0 size.toNat <;> rfl

end SharedMemory

/-! ## Every frame -/

namespace ScreenThread

open Vm

/-- The bytes of a frame, as `screen_update` computes them. -/
theorem frameBytes_eq : (fbWidth * fbHeight * fbBpp).toNat = frameBytes := rfl

-- the proofs are for a frame of any size: evaluating a copy of 256000 bytes is no proof
variable {s : ScreenThread} {n : Nat}

/-- The thread shows what the abstract screen shows, and the framebuffer is RAM. -/
structure Shows (fb n : Nat) (s : ScreenThread) (f : FrameSpec) : Prop where
  consistent : s.shared.Consistent
  framebuffer : s.screen.framebufferPhys.toNat = fb
  memory : s.shared.physical = f.memory
  bytes : s.texture.bytes.map some = f.bytes
  pitch : s.texture.pitch = f.pitch
  running : s.running = f.running
  ram : ∃ region, f.memory.ramAt fb = some region ∧ fb + n ≤ region.base + region.size

/-- `memory_read` of a frame, while the guest runs. -/
theorem memoryReadWhile_spec (hn : (fbWidth * fbHeight * fbBpp).toNat = n) {fb : UInt64}
    {shared : SharedMemory} (h : shared.Consistent)
    {region : Span} (hram : shared.physical.ramAt fb.toNat = some region)
    (hroom : fb.toNat + n ≤ region.base + region.size) (stores : Nat → GuestStores) :
    ∃ shared' bytes result,
      memoryReadWhile shared fb (fbWidth * fbHeight * fbBpp) stores =
        .ok (shared', bytes, result) ∧
      bytes.map some = (shared.physical.copy fb.toNat stores 0 n).2 ∧
      shared'.physical = (shared.physical.copy fb.toNat stores 0 n).1 ∧
      shared'.Consistent := by
  rw [SharedMemory.ramAt_physical h.backed] at hram
  obtain ⟨e, hat, rfl⟩ := Option.map_eq_some_iff.mp hram
  obtain ⟨hmem, ht, hin⟩ := (entryAt_iff h.backed.ranges).mp hat
  have hfind : findEntry shared.vm fb = some e :=
    (unambiguous h.backed.fit h.backed.ranges).found fb e hmem hin
  have htype : ¬ (e.type ≠ memoryUsable ∧ e.type ≠ memoryFramebuffer) := by
    rintro ⟨hu, hf⟩
    rcases Bool.or_eq_true_iff.mp ht with hu' | hf'
    · exact hu (eq_of_beq hu')
    · exact hf (eq_of_beq hf')
  have hlimit : (0 : UInt64).toNat + n ≤ (e.size - (fb - e.guestPhys)).toNat := by
    rw [memLimit_toNat hin]
    show 0 + n ≤ _
    omega
  obtain ⟨shared', bytes, read, hloop, hbytes, hphys, h'⟩ :=
    SharedMemory.memoryReadWhileLoop_spec h hmem ht hin stores 0 n hlimit
  refine ⟨shared', bytes, read.toInt64, ?_, hbytes, hphys, h'⟩
  simp only [memoryReadWhile, hfind, if_neg htype, hn, hloop, ok_bind]

/-- A turn of the loop. -/
theorem turn_shows (hn : (fbWidth * fbHeight * fbBpp).toNat = n) {fb : Nat} {f : FrameSpec}
    (h : Shows fb n s f) {t : ScreenTurn}
    (ht : ∀ pixels, t.lock = some pixels → n ≤ pixels.bytes.length) :
    ∃ s', s.step (.turn t) = .ok (s', (f.step fb n (.turn t)).2) ∧
      Shows fb n s' (f.step fb n (.turn t)).1 := by
  obtain ⟨shared, screen, texture, running⟩ := s
  obtain ⟨memory, bytes, pitch, frunning⟩ := f
  obtain ⟨hcons, rfl, rfl, rfl, rfl, rfl, region, hram, hroom⟩ := h
  cases running with
  | false => exact ⟨_, rfl, hcons, rfl, rfl, rfl, rfl, rfl, region, hram, hroom⟩
  | true =>
      by_cases hquit : t.polled.contains sdlQuit = true
      · have hspec : FrameSpec.step screen.framebufferPhys.toNat n
            ⟨shared.physical, texture.bytes.map some, texture.pitch, true⟩ (.turn t) =
              (⟨shared.physical, texture.bytes.map some, texture.pitch, false⟩, .returned) := by
          simp only [FrameSpec.step, hquit, Bool.not_true, Bool.false_eq_true, if_false, if_true]
        refine ⟨⟨shared, screen, texture, false⟩, ?_, ?_⟩
        · simp only [step, hspec, hquit, Bool.not_true, Bool.false_eq_true, if_false, if_true]
        · rw [hspec]
          exact ⟨hcons, rfl, rfl, rfl, rfl, rfl, region, hram, hroom⟩
      · cases hlock : t.lock with
        | none =>
            have hspec : FrameSpec.step screen.framebufferPhys.toNat n
                ⟨shared.physical, texture.bytes.map some, texture.pitch, true⟩ (.turn t) =
                  (⟨shared.physical, texture.bytes.map some, texture.pitch, true⟩,
                    .presented (texture.bytes.map some) texture.pitch) := by
              simp only [FrameSpec.step, hquit, hlock, Bool.not_true, Bool.false_eq_true, if_false]
            refine ⟨⟨shared, screen, texture, true⟩, ?_, ?_⟩
            · simp only [step, hspec, hquit, hlock, screenUpdate, ok_bind, Bool.not_true,
                Bool.false_eq_true, if_false]
            · rw [hspec]
              exact ⟨hcons, rfl, rfl, rfl, rfl, rfl, region, hram, hroom⟩
        | some pixels =>
            obtain ⟨shared', bytes, result, hread, hbytes, hphys, hcons'⟩ :=
              memoryReadWhile_spec hn hcons hram hroom t.stores
            have hlen : bytes.length = n := by
              have hcopy := congrArg List.length hbytes
              rwa [List.length_map, PhysicalMemory.length_copy] at hcopy
            have hfits : n ≤ pixels.bytes.length := ht pixels hlock
            have hspec : FrameSpec.step screen.framebufferPhys.toNat n
                ⟨shared.physical, texture.bytes.map some, texture.pitch, true⟩ (.turn t) =
                  (⟨shared'.physical, (bytes ++ pixels.bytes.drop n).map some,
                    pixels.pitch, true⟩,
                  .presented ((bytes ++ pixels.bytes.drop n).map some) pixels.pitch) := by
              simp only [FrameSpec.step, hquit, hlock, Bool.not_true, Bool.false_eq_true, if_false,
                List.map_append, hbytes, hphys]
            have hram' : shared'.physical.ramAt screen.framebufferPhys.toNat = some region :=
              hphys ▸ PhysicalMemory.ramAt_copy hram _ t.stores 0 n
            refine ⟨⟨shared', screen, ⟨bytes ++ pixels.bytes.drop n, pixels.pitch⟩, true⟩,
              ?_, ?_⟩
            · simp only [step, hspec, hquit, hlock, screenUpdate, hread, ok_bind, if_pos hfits,
                hlen, Bool.not_true, Bool.false_eq_true, if_false]
            · rw [hspec]
              exact ⟨hcons', rfl, rfl, rfl, rfl, rfl, region, hram', hroom⟩

/-- Every event does to the screen what it does to the abstract one. -/
theorem step_shows {limit : Nat} (hlimit : limit < 2 ^ 32) {fb : Nat} {f : FrameSpec}
    (h : Shows fb frameBytes s f) {e : ScreenEvent} (he : e.Served limit s) :
    ∃ s', s.step e = .ok (s', (f.step fb frameBytes e).2) ∧
      Shows fb frameBytes s' (f.step fb frameBytes e).1 := by
  cases e with
  | memory e =>
      obtain ⟨shared', hstep, hphys, hcons⟩ := SharedMemory.step_simulates hlimit h.consistent he
      rw [h.memory] at hstep hphys
      obtain ⟨region, hram, hroom⟩ := h.ram
      refine ⟨{ s with shared := shared' }, ?_, hcons, h.framebuffer, hphys, h.bytes, h.pitch,
        h.running, region, PhysicalMemory.ramAt_step hram e, hroom⟩
      simp only [step, hstep, ok_bind, FrameSpec.step]
  | turn t => exact turn_shows frameBytes_eq h he

end ScreenThread

/-! ## From `screen_init` on -/

/-- The call of `memory_alloc` that `screen_init` makes. -/
def framebufferCall (fb : UInt64) (host : HostAnswers) : AllocCall :=
  { physAddr := fb, size := alignUp (fbWidth * fbHeight * fbBpp), type := memoryFramebuffer, host }

theorem framebufferCall_span (fb : UInt64) (host : HostAnswers) :
    (framebufferCall fb host).span = ⟨fb.toNat, 258048⟩ := rfl

theorem framebufferCall_isRam (fb : UInt64) (host : HostAnswers) :
    (framebufferCall fb host).IsRam := Or.inl rfl

/-- New RAM is found at its addresses. -/
theorem PhysicalMemory.ramAt_add {m : PhysicalMemory} {c : AllocCall} (h : m.Accepts c)
    (hram : c.IsRam) {a : Nat} (hin : c.span.Contains a) : (m.add c).ramAt a = some c.span := by
  have hold : m.ranges.find? (fun r => r.2 && decide (r.1.Contains a)) = none := by
    rw [List.find?_eq_none]
    intro r hr hc
    obtain ⟨-, hc⟩ := Bool.and_eq_true_iff.mp hc
    obtain ⟨hlow, hhigh⟩ := of_decide_eq_true hc
    obtain ⟨hclear, hclear'⟩ := h.2.1 r hr
    obtain ⟨hlow', hhigh'⟩ := hin
    omega
  have hnew : (decide c.IsRam && decide (c.span.Contains a)) = true := by
    rw [decide_eq_true hram, decide_eq_true hin]
    rfl
  rw [ramAt, add, List.find?_append, hold, Option.none_or, List.find?_singleton, if_pos hnew,
    Option.map_some]

/-- A `screen_init` that returns 1 has its framebuffer, and sets `vm->screen`. -/
theorem screenInit_one {s v : ScreenVm} {fb : UInt64} {host : HostAnswers} {sdl : SdlAnswers}
    {changes : List (Ledger.Change ScreenResource)}
    (h : screenInit s fb host sdl = .ok (v, 1, changes)) :
    memoryAlloc s.vm fb (alignUp (fbWidth * fbHeight * fbBpp)) memoryFramebuffer host =
        (v.vm, true) ∧
      v.screen = some (sdl.screen, sdl.made fb) := by
  obtain ⟨hvm, ⟨hzero, -⟩ | ⟨-, hok, hscreen, -⟩⟩ := screenInit_cases h
  · exact absurd hzero (by decide)
  · exact ⟨Prod.ext hvm.symm hok, hscreen⟩

/-- What a run of the memory keeps. -/
theorem SharedMemory.consistent_of_trace {limit : Nat} (hlimit : limit < 2 ^ 32)
    {host : HostMemory} {events : List MemoryEvent}
    (hserved : Runs.EachStep (fun s e => (step s e).map Prod.fst) (fun s e => e.Served limit s)
      ⟨Vm.new, host⟩ events) {s : SharedMemory} {replies : List MemoryReply}
    (h : Runs.trace step ⟨Vm.new, host⟩ events = .ok (s, replies)) : s.Consistent := by
  obtain ⟨s', hrun, hcons⟩ := Runs.run_of_eachStep (I := Consistent)
    (fun s e hs he => by
      obtain ⟨s', hstep, -, hs'⟩ := step_simulates hlimit hs he
      exact ⟨s', congrArg (Except.map Prod.fst) hstep, hs'⟩)
    ⟨Vm.backed_new, Vm.mirrored_new⟩ hserved
  rw [Runs.run_of_trace (fun _ _ => rfl) h] at hrun
  cases hrun
  exact hcons

/-- **The screen shows the guest's memory.**  After any run of allocations and accesses, let
`screen_init` return 1.  Then, however the accesses of the guest and of the process and the
turns of `screen_run` follow each other, and whatever the guest stores while a frame is
copied, no turn faults, the thread returns at the first `SDL_QUIT`, and every byte of every
frame it presents before is the one that the framebuffer had when the copy reached it. -/
theorem screen_shows_memory {limit : Nat} (hlimit : limit < 2 ^ 32) {memory : HostMemory}
    {before : List MemoryEvent}
    (hbefore : Runs.EachStep (fun s e => (SharedMemory.step s e).map Prod.fst)
      (fun s e => e.Served limit s) ⟨Vm.new, memory⟩ before)
    {s : SharedMemory} {replies : List MemoryReply}
    (hrun : Runs.trace SharedMemory.step ⟨Vm.new, memory⟩ before = .ok (s, replies))
    {vmScreen : Option (UInt64 × Screen)} {fb : UInt64} {host : HostAnswers} {sdl : SdlAnswers}
    (hserved : (MemoryEvent.alloc (framebufferCall fb host)).Served limit s)
    {v : ScreenVm} {changes : List (Ledger.Change ScreenResource)}
    (hinit : screenInit ⟨s.vm, vmScreen⟩ fb host sdl = .ok (v, 1, changes))
    {block : UInt64} {screen : Screen} (hscreen : v.screen = some (block, screen)) (texture : Frame)
    {events : List ScreenEvent}
    (hevents : Runs.EachStep (fun s e => (ScreenThread.step s e).map Prod.fst)
      (fun s e => e.Served limit s)
      ⟨⟨v.vm, s.vm.zeroed (framebufferCall fb host) s.host⟩, screen, texture, true⟩ events) :
    ∃ s', Runs.trace ScreenThread.step
        ⟨⟨v.vm, s.vm.zeroed (framebufferCall fb host) s.host⟩, screen, texture, true⟩ events =
      .ok (s', (Runs.traceTotal (FrameSpec.step fb.toNat frameBytes)
        ⟨s.physical.add (framebufferCall fb host), texture.bytes.map some, texture.pitch, true⟩
        events).2) := by
  have hcons := SharedMemory.consistent_of_trace hlimit hbefore hrun
  obtain ⟨halloc, hset⟩ := screenInit_one hinit
  obtain ⟨s₁, hstep, hphys, hcons₁⟩ :=
    SharedMemory.alloc_simulates hlimit hcons hserved.1 hserved.2
  have hs₁ : (⟨v.vm, s.vm.zeroed (framebufferCall fb host) s.host⟩, .allocated true) =
      (s₁, (s.physical.step (.alloc (framebufferCall fb host))).2) := by
    have hstep' : s.step (.alloc (framebufferCall fb host)) =
        .ok (⟨v.vm, s.vm.zeroed (framebufferCall fb host) s.host⟩, .allocated true) := by
      simp only [SharedMemory.step, framebufferCall, halloc]
    rw [hstep'] at hstep
    exact Except.ok.inj hstep
  obtain ⟨rfl, hreply⟩ := Prod.mk.inj hs₁
  -- the allocation was accepted
  have hacc : s.physical.Accepts (framebufferCall fb host) := by
    refine Classical.byContradiction fun hno => ?_
    rw [PhysicalMemory.step, if_neg hno] at hreply
    have hfalse : MemoryReply.allocated true = .allocated false := hreply
    cases hfalse
  rw [PhysicalMemory.step, if_pos hacc] at hphys
  have hram : ∃ region, (s.physical.add (framebufferCall fb host)).ramAt fb.toNat = some region ∧
      fb.toNat + frameBytes ≤ region.base + region.size := by
    refine ⟨_, PhysicalMemory.ramAt_add hacc (framebufferCall_isRam fb host) ?_, ?_⟩
    · rw [framebufferCall_span]
      exact ⟨Nat.le_refl _, Nat.lt_add_of_pos_right (by decide : 0 < 258048)⟩
    · rw [framebufferCall_span]
      exact Nat.add_le_add_left (by decide : frameBytes ≤ 258048) _
  have hfb : screen.framebufferPhys = fb := by
    rw [hscreen] at hset
    rw [(Prod.mk.inj (Option.some.inj hset)).2]
    rfl
  have hstart : ScreenThread.Shows fb.toNat frameBytes
      ⟨⟨v.vm, s.vm.zeroed (framebufferCall fb host) s.host⟩, screen, texture, true⟩
      ⟨s.physical.add (framebufferCall fb host), texture.bytes.map some, texture.pitch, true⟩ :=
    ⟨hcons₁, congrArg UInt64.toNat hfb, hphys, rfl, rfl, rfl, hram⟩
  have hsim : ∀ (s : ScreenThread) (f : FrameSpec) (e : ScreenEvent),
      ScreenThread.Shows fb.toNat frameBytes s f → e.Served limit s → True →
        ∃ s', s.step e = .ok (s', (f.step fb.toNat frameBytes e).2) ∧
          ScreenThread.Shows fb.toNat frameBytes s' (f.step fb.toNat frameBytes e).1 :=
    fun s f e hs he _ => ScreenThread.step_shows hlimit hs he
  obtain ⟨s', htrace, -⟩ := Runs.trace_simulates_of_each hsim hstart hevents
    (Runs.eachTotal_of_forall fun _ _ _ => trivial)
  exact ⟨s', htrace⟩

/-- A store to the framebuffer, a frame during which the guest stores another byte, a frame
that is not locked, and the end. -/
theorem screen_shows_memory_quit :
    let host : HostAnswers := ⟨true, 0x7F0000000000, true, true⟩
    let memory : HostMemory := fun _ => 0
    let screen : Screen := ⟨2, 3, 4, 0xC2000000⟩
    let texture : Frame := ⟨[], 0⟩
    let events : List ScreenEvent :=
      [.memory (.guestStore 0xC2000000 7),
        .turn ⟨[0x300], some ⟨List.replicate 256000 0, 1280⟩, fun i =>
          if i = 5 then [(0xC2000004, 8), (0xC2000006, 9)] else []⟩,
        .turn ⟨[], none, fun _ => []⟩, .turn ⟨[0x300, sdlQuit], none, fun _ => []⟩]
    ∃ v changes s', screenInit ⟨Vm.new, none⟩ 0xC2000000 host ⟨1, 2, 3, 4⟩ = .ok (v, 1, changes) ∧
      Runs.trace ScreenThread.step
        ⟨⟨v.vm, Vm.new.zeroed (framebufferCall 0xC2000000 host) memory⟩, screen, texture, true⟩
        events =
      .ok (s', (Runs.traceTotal (FrameSpec.step (0xC2000000 : UInt64).toNat frameBytes)
        ⟨(⟨Vm.new, memory⟩ : SharedMemory).physical.add (framebufferCall 0xC2000000 host),
          texture.bytes.map some, texture.pitch, true⟩ events).2) := by
  intro host memory screen texture events
  have hinit : ∃ v changes, screenInit ⟨Vm.new, none⟩ 0xC2000000 host ⟨1, 2, 3, 4⟩ =
      .ok (v, 1, changes) ∧ v.screen = some (1, screen) := ⟨_, _, rfl, rfl⟩
  obtain ⟨v, changes, hinit, hscreen⟩ := hinit
  have hbefore : Runs.EachStep (fun s e => (SharedMemory.step s e).map Prod.fst)
      (fun s e => e.Served 0x1FD s) ⟨Vm.new, memory⟩ [] := trivial
  have hrun : Runs.trace SharedMemory.step ⟨Vm.new, memory⟩ [] = .ok (⟨Vm.new, memory⟩, []) := rfl
  have hserved : (MemoryEvent.alloc (framebufferCall 0xC2000000 host)).Served 0x1FD
      ⟨Vm.new, memory⟩ := by
    refine ⟨⟨⟨rfl, rfl, fun _ _ => ⟨by decide, by decide, by decide, ?_⟩, fun _ _ => ?_⟩, ?_⟩,
      fun _ _ _ => by decide⟩
    · exact fun m hm => absurd hm List.not_mem_nil
    · exact ⟨by unfold AllocCall.Fits; decide, by decide⟩
    · exact fun hc => absurd hc (by decide)
  have hevents : Runs.EachStep (fun s e => (ScreenThread.step s e).map Prod.fst)
      (fun s e => e.Served 0x1FD s)
      ⟨⟨v.vm, Vm.new.zeroed (framebufferCall 0xC2000000 host) memory⟩, screen, texture, true⟩
      events := by
    refine ⟨trivial, fun _ _ => ⟨?_, fun _ _ => ⟨?_, fun _ _ => ⟨?_, fun _ _ => trivial⟩⟩⟩⟩
    · rintro pixels hlock
      cases hlock
      exact Nat.le_of_eq List.length_replicate.symm
    · rintro pixels ⟨⟩
    · rintro pixels ⟨⟩
  obtain ⟨s', htrace⟩ := screen_shows_memory (by decide : 0x1FD < 2 ^ 32) hbefore hrun hserved hinit
    hscreen texture hevents
  exact ⟨v, changes, s', hinit, htrace⟩

/-! ## The pitch -/

namespace Frame

/-- Every pixel of the frame shows the memory: row `y` of the texture starts at byte
`pitch * y`, and row `y` of the framebuffer at byte `1280 * y`. -/
def Right (f : Frame) (m : PhysicalMemory) (fb : Nat) : Prop :=
  ∀ x < 320, ∀ y < 200, ∀ k < 4,
    f.bytes[f.pitch * y + 4 * x + k]? = m.cells (fb + (4 * (320 * y + x) + k))

end Frame

namespace ScreenThread

open Vm

/-- A copy of a frame that the guest leaves alone.  The memory stays as it is. -/
theorem screenUpdate_quiet {s : SharedMemory} (h : s.Consistent) {screen : Screen} {region : Span}
    (hram : s.physical.ramAt screen.framebufferPhys.toNat = some region)
    (hroom : screen.framebufferPhys.toNat + frameBytes ≤ region.base + region.size)
    (texture pixels : Frame) :
    ∃ bytes, bytes.length = frameBytes ∧
      (∀ j < frameBytes, bytes[j]? = s.physical.cells (screen.framebufferPhys.toNat + j)) ∧
      screenUpdate s screen texture (some pixels) (fun _ => []) =
        if frameBytes ≤ pixels.bytes.length then
          .ok (s, { pixels with bytes := bytes ++ pixels.bytes.drop frameBytes })
        else .error .outOfBounds := by
  obtain ⟨s', bytes, result, hread, hbytes, -⟩ :=
    memoryReadWhile_spec frameBytes_eq h hram hroom fun _ => []
  -- it is a `memory_read`, which has no effect
  obtain rfl : s' = s := by
    rw [SharedMemory.memoryReadWhile_nil] at hread
    cases hmem : memoryRead s.vm s.host screen.framebufferPhys (fbWidth * fbHeight * fbBpp) with
    | error f =>
        rw [hmem] at hread
        cases hread
    | ok r =>
        rw [hmem] at hread
        exact (Prod.mk.inj (Except.ok.inj hread)).1.symm
  have hlen : bytes.length = frameBytes := by
    have hcopy := congrArg List.length hbytes
    rwa [List.length_map, PhysicalMemory.length_copy] at hcopy
  refine ⟨bytes, hlen, fun j hj => ?_, ?_⟩
  · have hget := congrArg (·[j]?) hbytes
    simp only [PhysicalMemory.getElem?_copy _ _ _ _ hj, PhysicalMemory.reached_nil, Nat.add_zero,
      List.getElem?_map] at hget
    rw [List.getElem?_eq_getElem (by omega), Option.map_some] at hget
    rw [List.getElem?_eq_getElem (by omega)]
    exact Option.some.inj hget
  · simp only [screenUpdate, hread, ok_bind, hlen]

/-- Every byte of the framebuffer has a place in the process. -/
theorem translate_framebuffer {s : SharedMemory} (h : s.Consistent) {fb : Nat} {region : Span}
    (hram : s.physical.ramAt fb = some region)
    (hroom : fb + frameBytes ≤ region.base + region.size) {j : Nat} (hj : j < frameBytes) :
    ∃ p, s.vm.translate (fb + j) = some p := by
  rw [SharedMemory.ramAt_physical h.backed] at hram
  obtain ⟨e, hat, rfl⟩ := Option.map_eq_some_iff.mp hram
  obtain ⟨hmem, ht, hlow, hhigh⟩ := (entryAt_iff h.backed.ranges).mp hat
  have hin : e.span.Contains (fb + j) := ⟨by omega, by omega⟩
  have hat' : s.vm.entryAt isReadable (fb + j) = some e :=
    (entryAt_iff h.backed.ranges).mpr ⟨hmem, ht, hin⟩
  exact ⟨_, congrArg _ hat'⟩

end ScreenThread

/-- **When the screen shows the framebuffer as it is.**  `screen_update` copies the framebuffer
as one block, and does not use the pitch.  For every framebuffer in RAM and every texture of
200 rows that SDL locks: whatever the memory has in it, the update does not leave the texture
and every pixel is right afterwards, if and only if the rows of the texture are 1280 bytes
long, without anything behind their pixels. -/
theorem screen_update_right_iff {s : SharedMemory} (h : s.Consistent) {screen : Screen}
    {region : Span} (hram : s.physical.ramAt screen.framebufferPhys.toNat = some region)
    (hroom : screen.framebufferPhys.toNat + frameBytes ≤ region.base + region.size)
    (texture pixels : Frame) (hrows : pixels.bytes.length = pixels.pitch * 200) :
    (∀ host : HostMemory, ∃ s' frame,
      screenUpdate { s with host } screen texture (some pixels) (fun _ => []) = .ok (s', frame) ∧
        frame.Right ({ s with host } : SharedMemory).physical screen.framebufferPhys.toNat) ↔
      pixels.pitch = 1280 := by
  have hupdate := fun host : HostMemory => ScreenThread.screenUpdate_quiet (s := { s with host })
    ⟨h.backed, h.mirrored⟩ hram hroom texture pixels
  constructor
  · intro hright
    -- what a right frame says of the first pixel of the second row
    have hsecond : ∀ host : HostMemory, ∃ bytes : List UInt8, bytes.length = frameBytes ∧
        (∀ j < frameBytes,
          bytes[j]? = (s.vm.translate (screen.framebufferPhys.toNat + j)).map host) ∧
        frameBytes ≤ pixels.bytes.length ∧
        (bytes ++ pixels.bytes.drop frameBytes)[pixels.pitch]? =
          (s.vm.translate (screen.framebufferPhys.toNat + 1280)).map host := by
      intro host
      obtain ⟨s', frame, hframe, hr⟩ := hright host
      obtain ⟨bytes, hlen, hbytes, hok⟩ := hupdate host
      rw [hok] at hframe
      split at hframe
      · rename_i hfits
        cases hframe
        have hpixel := hr 0 (by decide) 1 (by decide) 0 (by decide)
        rw [Nat.mul_one, Nat.mul_zero, Nat.add_zero, Nat.add_zero] at hpixel
        exact ⟨bytes, hlen, hbytes, hfits, hpixel⟩
      · cases hframe
    obtain ⟨q, hq⟩ :=
      ScreenThread.translate_framebuffer h hram hroom (by decide : 1280 < frameBytes)
    obtain ⟨-, -, -, hfits, -⟩ := hsecond s.host
    have hge : 1280 ≤ pixels.pitch := by
      unfold frameBytes at hfits
      omega
    refine Nat.le_antisymm (Nat.le_of_not_lt fun hgt => ?_) hge
    by_cases hin : pixels.pitch < frameBytes
    · -- the frame has another byte of the framebuffer there
      obtain ⟨q', hq'⟩ := ScreenThread.translate_framebuffer h hram hroom hin
      obtain ⟨bytes, hlen, hbytes, -, hpixel⟩ := hsecond fun p => if p = q then 1 else 0
      have hne : q' ≠ q := by
        rintro rfl
        have := Vm.translate_inj h.backed _ _ _ hq' hq
        omega
      rw [List.getElem?_append_left (by omega), hbytes _ hin, hq, hq', Option.map_some,
        Option.map_some, if_pos rfl, if_neg hne] at hpixel
      exact absurd hpixel (by decide)
    · -- the frame has a byte there that SDL left
      have hlt : pixels.pitch < pixels.bytes.length := by omega
      obtain ⟨bytes, hlen, -, -, hpixel⟩ := hsecond fun _ => pixels.bytes[pixels.pitch] + 1
      rw [List.getElem?_append_right (by omega), List.getElem?_drop, hlen,
        Nat.add_sub_cancel' (by omega), List.getElem?_eq_getElem hlt, hq, Option.map_some] at hpixel
      exact absurd (UInt8.left_eq_add.mp (Option.some.inj hpixel)) (by decide)
  · intro hpitch host
    obtain ⟨bytes, hlen, hbytes, hok⟩ := hupdate host
    have hfits : frameBytes ≤ pixels.bytes.length := by
      rw [hrows, hpitch]
      exact Nat.le_refl _
    rw [if_pos hfits] at hok
    refine ⟨_, _, hok, fun x hx y hy k hk => ?_⟩
    have hindex : 1280 * y + 4 * x + k < frameBytes := by
      unfold frameBytes
      omega
    show (bytes ++ pixels.bytes.drop frameBytes)[pixels.pitch * y + 4 * x + k]? = _
    rw [hpitch, List.getElem?_append_left (by omega), hbytes _ hindex]
    exact congrArg _ (by omega)

/-- A framebuffer at 0xC2000000, and a texture whose rows have 64 bytes more. -/
theorem screen_update_right_padded :
    let c := framebufferCall 0xC2000000 ⟨true, 0x7F0000000000, true, true⟩
    let s : SharedMemory := ⟨(memoryAlloc Vm.new c.physAddr c.size c.type c.host).1, fun _ => 0⟩
    let screen : Screen := ⟨2, 3, 4, 0xC2000000⟩
    let pixels : Frame := ⟨List.replicate 268800 0, 1344⟩
    (∀ host : HostMemory, ∃ s' frame,
      screenUpdate { s with host } screen ⟨[], 0⟩ (some pixels) (fun _ => []) = .ok (s', frame) ∧
        frame.Right ({ s with host } : SharedMemory).physical screen.framebufferPhys.toNat) ↔
      pixels.pitch = 1280 := by
  intro c s screen pixels
  have hserved : c.Served Vm.new := by
    refine ⟨⟨rfl, rfl, fun _ _ => ⟨by decide, by decide, by decide, ?_⟩, fun _ _ => ?_⟩, ?_⟩
    · exact fun m hm => absurd hm List.not_mem_nil
    · exact ⟨by unfold AllocCall.Fits; decide, by decide⟩
    · exact fun hc => absurd hc (by decide)
  have hcons : s.Consistent := by
    obtain ⟨vm₁, h₁, hbacked⟩ := Vm.alloc_backed Vm.backed_new hserved.1 hserved.2
    obtain ⟨⟨vm₂, h₂, hmirrored⟩, -⟩ := Vm.alloc_mirrored (by decide : 0x1FD < 2 ^ 32)
      Vm.mirrored_new (c := c) rfl fun _ _ _ => by decide
    cases h₁
    cases h₂
    exact ⟨hbacked, hmirrored⟩
  have hram : s.physical.ramAt screen.framebufferPhys.toNat = some ⟨0xC2000000, 258048⟩ := by decide
  have hrows : pixels.bytes.length = pixels.pitch * 200 :=
    List.length_replicate.trans (by decide : 268800 = 1344 * 200)
  exact screen_update_right_iff hcons hram (by decide) ⟨[], 0⟩ pixels hrows

end BlackHV
