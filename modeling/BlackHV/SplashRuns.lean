import BlackHV.EchoRuns
import BlackHV.SplashScreen

/-! # What drawing leaves

The guest never waits for the port, so after a fixed number of its accesses it has drawn,
whatever the threads do in between, and whatever it stores to its stack.  A store to the
framebuffer is one to RAM and never seen by `vm_run`; the first store is for the table.  The
invariant of a run says what the stores made so far have left, and which are still to come.
-/
namespace BlackHV

open Runs FlatMemory Spans

/-! ## The stores that are still to come -/

namespace Guest32
variable {stores : List ByteStore}

def pending (stores : List ByteStore) : Guest32 → List ByteStore
  | writeStatus _ rest => rest.elim [] fun _ => stores
  | writeData _ rest => rest.elim [] fun _ => stores
  | storing store left => store :: left
  | _ => []

/-- The accesses until the guest has drawn, if the port is always ready. -/
def toDraw (stores : List ByteStore) : Guest32 → Nat
  | writeStatus _ rest => rest.elim 0 fun rest => 2 * rest.length + 2 + stores.length
  | writeData _ rest => rest.elim 0 fun rest => 2 * rest.length + 1 + stores.length
  | storing _ left => left.length + 1
  | _ => 0

theorem pending_draw (left : List ByteStore) : (draw left).pending stores = left := by
  rcases left with _ | ⟨store, left⟩
  · rfl
  · rfl

theorem toDraw_draw (left : List ByteStore) : (draw left).toDraw stores = left.length := by
  rcases left with _ | ⟨store, left⟩
  · rfl
  · rfl

theorem pending_written (rest : Option (List UInt8)) :
    (written stores rest).pending stores = rest.elim [] fun _ => stores := by
  rcases rest with _ | _ | ⟨c, rest⟩
  · rfl
  · exact pending_draw stores
  · rfl

theorem toDraw_written (rest : Option (List UInt8)) : (written stores rest).toDraw stores =
    rest.elim 0 fun rest => 2 * rest.length + stores.length := by
  rcases rest with _ | _ | ⟨c, rest⟩
  · rfl
  · exact (toDraw_draw stores).trans (Nat.zero_add _).symm
  · show 2 * rest.length + 2 + stores.length = 2 * (rest.length + 1) + stores.length
    omega

/-- An access to a port leaves the stores to come as they are. -/
theorem pending_next {g : Guest32} (h : ∀ store, g.access ≠ .store store) (al : UInt8) :
    (g.next stores al).pending stores = g.pending stores := by
  rcases g with ⟨c, rest⟩ | ⟨c, rest⟩ | ⟨store, left⟩ | _ | _
  · show pending stores (if (al >>> 5) &&& 1 = 0 then writeStatus c rest else writeData c rest) = _
    split
    · rfl
    · rfl
  · exact pending_written rest
  · exact absurd rfl (h store)
  · show pending stores (if al &&& 1 = 0 then readStatus else readData) = _
    split
    · rfl
    · rfl
  · rfl

/-- A guest that has no store before it has drawn. -/
theorem pending_of_toDraw {g : Guest32} (h : g.toDraw stores = 0) : g.pending stores = [] := by
  rcases g with ⟨c, rest⟩ | ⟨c, rest⟩ | ⟨store, left⟩ | _ | _
  · rcases rest with _ | rest
    · rfl
    · exact absurd h (by show ¬ 2 * rest.length + 2 + stores.length = 0; omega)
  · rcases rest with _ | rest
    · rfl
    · exact absurd h (by show ¬ 2 * rest.length + 1 + stores.length = 0; omega)
  · exact absurd h (Nat.succ_ne_zero _)
  · rfl
  · rfl

end Guest32

def EchoEvent.isGuest : EchoEvent → Bool
  | .guest _ => true
  | _ => false

namespace EchoSpec
variable {n : Nat} {a : EchoSpec n}

/-- An access is one less. -/
theorem toDraw_access (stores : List ByteStore) (a : EchoSpec n) :
    (a.access stores).guest.toDraw stores = a.guest.toDraw stores - 1 := by
  unfold access
  rcases hg : a.guest with ⟨c, rest⟩ | ⟨c, rest⟩ | ⟨store, left⟩ | _ | _
  · rcases rest with _ | rest
    · rfl
    · show 2 * rest.length + 1 + stores.length = 2 * rest.length + 2 + stores.length - 1
      omega
  · show (Guest32.written stores rest).toDraw stores = _
    rw [Guest32.toDraw_written]
    rcases rest with _ | rest
    · rfl
    · show 2 * rest.length + stores.length = 2 * rest.length + 1 + stores.length - 1
      omega
  · exact Guest32.toDraw_draw left
  · dsimp only
    split
    · rw [hg]
      rfl
    · rfl
  · rfl

/-- Only the guest's own events count. -/
theorem toDraw_run (stores : List ByteStore) (a : EchoSpec n) (events : List EchoEvent) :
    (traceTotal (EchoSpec.step stores) a events).1.guest.toDraw stores =
      a.guest.toDraw stores - events.countP EchoEvent.isGuest := by
  induction events generalizing a with
  | nil => rfl
  | cons e events ih =>
      show (traceTotal (EchoSpec.step stores) (a.step stores e).1 events).1.guest.toDraw stores = _
      rw [ih, List.countP_cons]
      rcases e with block | ⟨block, store⟩ | line | _
      · show (a.access stores).guest.toDraw stores - _ = _ - (_ + 1)
        rw [toDraw_access]
        omega
      · rfl
      · rfl
      · rfl

end EchoSpec

/-! ## What they have left -/

/-- A store as the exit has it: the address, and `data`. -/
abbrev ExitStore := UInt64 × Vector UInt8 8

def ExitStore.byteStore (m : ExitStore) : ByteStore := (m.1, MmioMap.firstByte m.2)

namespace MmioMap

def inRam (map : MmioMap) (addr : UInt64) : Bool :=
  (map.vm.entryAt Vm.isReadable addr.toNat).isSome

/-- What a store copies. -/
def copies (map : MmioMap) (m : ExitStore) : List (Nat × List UInt8) :=
  if map.inRam m.1 then [copyOf m.byteStore] else []

/-- What it is handled with. -/
def handled (map : MmioMap) (m : ExitStore) : List MmioCall :=
  if map.inRam m.1 then [] else mmioHandleWrite map.table m.1 m.2 1

end MmioMap

/-- The stores `made`, from `host` on. -/
structure EchoSystem.Stored (map : MmioMap) (host : HostMemory) (made : List ExitStore)
    (s : EchoSystem) : Prop where
  memory : view map.vm.translate s.host =
    overwriteAll (view map.vm.translate host) (made.flatMap map.copies)
  calls : s.calls = made.flatMap map.handled

/-- The guest's stores to its stack go there. -/
def EchoEvent.StacksIn (stack : Span) : EchoEvent → Prop
  | .stack _ store => stack.Contains store.1.toNat
  | _ => True

/-- A store that is not one to the stack. -/
def ExitStore.beside (stack : Span) (m : ExitStore) : Bool := !decide (stack.Contains m.1.toNat)

theorem ExitStore.beside_iff {stack : Span} {m : ExitStore} :
    m.beside stack = true ↔ ¬ stack.Contains m.1.toNat := by
  rw [beside, Bool.not_eq_true', decide_eq_false_iff_not]

/-- The invariant: but for those to the stack, `stores` are those made and those still to
come. -/
def EchoSystem.Draws (map : MmioMap) (host : HostMemory) (stack : Span) (stores : List ByteStore)
    (s : EchoSystem) : Prop :=
  ∃ made : List ExitStore, s.Stored map host made ∧
    (made.filter (ExitStore.beside stack)).map ExitStore.byteStore ++ s.guest.pending stores =
      stores

section Stored
variable {table : HandlerTable Unit Serials} {map : MmioMap} {serial : UInt64}
  {stores : List ByteStore} {s s' : EchoSystem} {host : HostMemory} {made : List ExitStore}
  {stack : Span}

theorem firstByte_storing (block : KvmBlock) (b : UInt8) :
    MmioMap.firstByte (block.storing b) = b := by
  show ((block.mmioData.set 0 b)[0]) = b
  exact Vector.getElem_set_self ..

/-- An access to a port stores nothing. -/
theorem guestAccess_port {block : KvmBlock} {access : GuestAccess} {al : UInt8}
    (h : guestAccess table map s block access = .ok (s', al))
    (hport : ∀ store, access ≠ .store store) :
    s'.guest = s.guest ∧ s'.host = s.host ∧ s'.calls = s.calls := by
  rcases access with port | ⟨port, data⟩ | store
  · obtain ⟨⟨serials, effect⟩, -, hret⟩ := bind_eq_ok.mp h
    dsimp only at hret
    split at hret
    · cases hret
      exact ⟨rfl, rfl, rfl⟩
    · cases hret
      exact ⟨rfl, rfl, rfl⟩
  · obtain ⟨⟨serials, effect⟩, -, hret⟩ := bind_eq_ok.mp h
    cases hret
    exact ⟨rfl, rfl, rfl⟩
  · exact absurd rfl (hport store)

/-- What a store does: it is copied to RAM, or handled. -/
theorem guestStore_made (hmap : map.Wired) {memory memory' : HostMemory} {m : ExitStore}
    {calls : List MmioCall}
    (h : map.guestStore memory m.1 m.2 1 = .ok (memory', calls)) :
    view map.vm.translate memory' =
        overwriteAll (view map.vm.translate memory) (map.copies m) ∧
      calls = map.handled m := by
  rw [MmioMap.copies, MmioMap.handled, MmioMap.inRam]
  cases hat : map.vm.entryAt Vm.isReadable m.1.toNat with
  | none =>
      rw [hmap.guestStore_exits hat] at h
      cases h
      exact ⟨rfl, rfl⟩
  | some e =>
      obtain ⟨memory₁, hstore, hview⟩ := hmap.guestStore_ram hat memory m.2 1
      rw [hstore] at h
      cases h
      exact ⟨hview, rfl⟩

/-- A store is one of those made. -/
theorem guestAccess_stored (hmap : map.Wired) {block : KvmBlock} {store : ByteStore} {al : UInt8}
    (h : guestAccess table map s block (.store store) = .ok (s', al))
    (hs : s.Stored map host made) :
    s'.guest = s.guest ∧ s'.Stored map host (made ++ [(store.1, block.storing store.2)]) := by
  obtain ⟨⟨host', calls⟩, hstore, hret⟩ := bind_eq_ok.mp h
  cases hret
  obtain ⟨hview, hcalls⟩ := guestStore_made (m := (store.1, block.storing store.2)) hmap hstore
  refine ⟨rfl, ?_, ?_⟩
  · rw [List.flatMap_append, List.flatMap_singleton, overwriteAll_append, ← hs.memory]
    exact hview
  · rw [List.flatMap_append, List.flatMap_singleton, ← hs.calls]
    exact congrArg (s.calls ++ ·) hcalls

/-- **An event keeps the invariant.** -/
theorem echoStep_draws (hmap : map.Wired) (hbeside : ∀ m ∈ stores, ¬ stack.Contains m.1.toNat)
    {e : EchoEvent} (he : e.StacksIn stack) {o : EchoAnswer}
    (h : echoStep table map serial stores s e = .ok (s', o))
    (hs : s.Draws map host stack stores) : s'.Draws map host stack stores := by
  obtain ⟨made, hstored, hsplit⟩ := hs
  rcases e with block | ⟨block, store⟩ | line | _
  · obtain ⟨⟨s₁, al⟩, haccess, hret⟩ := bind_eq_ok.mp h
    cases hret
    by_cases hport : ∀ store, s.guest.access ≠ .store store
    · obtain ⟨hguest, hhost, hcalls⟩ := guestAccess_port haccess hport
      refine ⟨made, ⟨?_, ?_⟩, ?_⟩
      · rw [← hstored.memory, ← hhost]
      · rw [← hstored.calls, ← hcalls]
      · show _ ++ (s₁.guest.next stores al).pending stores = stores
        rw [hguest, Guest32.pending_next hport, hsplit]
    · rcases hg : s.guest with ⟨c, rest⟩ | ⟨c, rest⟩ | ⟨store, left⟩ | _ | _
      case storing =>
        rw [hg] at haccess hsplit
        obtain ⟨hguest, hstored₁⟩ := guestAccess_stored hmap haccess hstored
        refine ⟨_, ⟨hstored₁.memory, hstored₁.calls⟩, ?_⟩
        show _ ++ (s₁.guest.next stores al).pending stores = stores
        have hmem : store ∈ stores := by
          rw [← hsplit]
          exact List.mem_append_right _ List.mem_cons_self
        have hkept : ExitStore.beside stack (store.1, block.storing store.2) = true :=
          ExitStore.beside_iff.mpr (hbeside store hmem)
        have hstore : ExitStore.byteStore (store.1, block.storing store.2) = store := by
          rw [ExitStore.byteStore, firstByte_storing]
        have hleft : Guest32.pending stores ((Guest32.storing store left).next stores al) = left :=
          Guest32.pending_draw left
        rw [hguest, hg, hleft, List.filter_append, List.filter_cons_of_pos hkept, List.filter_nil,
          List.map_append, List.append_assoc, List.map_singleton, hstore]
        exact hsplit
      all_goals exact absurd (fun _ hne => by rw [hg] at hne; cases hne) hport
  · obtain ⟨⟨s₁, al⟩, haccess, hret⟩ := bind_eq_ok.mp h
    cases hret
    obtain ⟨hguest, hstored₁⟩ := guestAccess_stored hmap haccess hstored
    have hleft : ¬ ExitStore.beside stack (store.1, block.storing store.2) = true :=
      fun hkept => ExitStore.beside_iff.mp hkept he
    refine ⟨_, hstored₁, ?_⟩
    rw [hguest, List.filter_append, List.filter_cons_of_neg hleft, List.filter_nil,
      List.append_nil]
    exact hsplit
  · obtain ⟨⟨serials, count⟩, -, hret⟩ := bind_eq_ok.mp h
    cases hret
    exact ⟨made, ⟨hstored.memory, hstored.calls⟩, hsplit⟩
  · obtain ⟨⟨serials, bytes⟩, -, hret⟩ := bind_eq_ok.mp h
    cases hret
    exact ⟨made, ⟨hstored.memory, hstored.calls⟩, hsplit⟩

theorem trace_draws (hmap : map.Wired) (hbeside : ∀ m ∈ stores, ¬ stack.Contains m.1.toNat)
    {events : List EchoEvent} (he : ∀ e ∈ events, e.StacksIn stack) {answers : List EchoAnswer}
    (h : trace (echoStep table map serial stores) s events = .ok (s', answers))
    (hs : s.Draws map host stack stores) : s'.Draws map host stack stores := by
  induction events generalizing s answers with
  | nil =>
      cases h
      exact hs
  | cons e events ih =>
      obtain ⟨s₁, o, os, hstep, hes, -⟩ := trace_cons_eq_ok h
      obtain ⟨hfirst, hrest⟩ := List.forall_mem_cons.mp he
      exact ih hrest hes (echoStep_draws hmap hbeside hfirst hstep hs)

theorem draws_start (stores : List ByteStore) (serials : Serials) (host : HostMemory) :
    (EchoSystem.start stores serials host).Draws map host stack stores :=
  ⟨[], ⟨rfl, rfl⟩, Guest32.pending_written (some echoBanner)⟩

theorem toDraw_start (stores : List ByteStore) :
    (Guest32.start stores).toDraw stores = 2 * echoBanner.length + stores.length :=
  Guest32.toDraw_written (some echoBanner)

/-- Every run makes the stores, one after the other, and with enough accesses all of them. -/
theorem exists_draws {c : SerialConfig} {serials : Serials} (hw : c.Wired table) (hv : c.Valid)
    (hport : c.port = com1) (hmap : map.Wired) (hserial : c.Holds serials (.empty c.size))
    {stores : List ByteStore} (hbeside : ∀ m ∈ stores, ¬ stack.Contains m.1.toNat)
    (host : HostMemory) {events : List EchoEvent} (he : ∀ e ∈ events, e.StacksIn stack) :
    ∃ s answers, trace (echoStep table map c.address stores) (.start stores serials host) events =
        .ok (s, answers) ∧ s.Draws map host stack stores ∧
      (2 * echoBanner.length + stores.length ≤ events.countP EchoEvent.isGuest →
        s.guest.pending stores = []) := by
  obtain ⟨s, htrace, h⟩ := trace_simulates (EchoSpec.step stores) (EchoSystem.Holds c)
    (fun _ _ e h => echoStep_simulates stores hw hv hport hmap h e)
    (holds_start stores hserial host) events
  refine ⟨s, _, htrace, trace_draws hmap hbeside he htrace (draws_start stores serials host),
    fun hcount => ?_⟩
  refine Guest32.pending_of_toDraw ?_
  rw [h.guest, EchoSpec.toDraw_run]
  show (Guest32.start stores).toDraw stores - events.countP EchoEvent.isGuest = 0
  rw [toDraw_start]
  omega

/-- What is copied elsewhere is not part of a range. -/
theorem misses_copies (span : Span) {m : ExitStore} (h : ¬ span.Contains m.1.toNat) :
    Misses (map.copies m) span.base span.size := by
  have hout : ¬ (span.base ≤ m.1.toNat ∧ m.1.toNat < span.base + span.size) := h
  rw [MmioMap.copies]
  split
  · rw [misses_cons]
    refine ⟨?_, misses_nil⟩
    show span.size = 0 ∨ 1 = 0 ∨ span.base + span.size ≤ m.1.toNat ∨ m.1.toNat + 1 ≤ span.base
    omega
  · exact misses_nil

/-- Stores to RAM are not handled. -/
theorem handled_filter {q : ExitStore → Bool}
    (h : ∀ m ∈ made, q m = false → map.inRam m.1 = true) :
    made.flatMap map.handled = (made.filter q).flatMap map.handled := by
  induction made with
  | nil => rfl
  | cons m made ih =>
      have hrest := ih fun m' hm' => h m' (List.mem_cons_of_mem m hm')
      by_cases hq : q m = true
      · rw [List.filter_cons_of_pos hq, List.flatMap_cons, List.flatMap_cons, hrest]
      · have hram := h m List.mem_cons_self (Bool.eq_false_iff.mpr hq)
        rw [List.filter_cons_of_neg hq, List.flatMap_cons, hrest, MmioMap.handled, if_pos hram,
          List.nil_append]

/-- Where all stores are to RAM, they are all copied. -/
theorem copied_of_inRam (h : ∀ m ∈ made, map.inRam m.1 = true) :
    made.flatMap map.copies = (made.map ExitStore.byteStore).map copyOf ∧
      made.flatMap map.handled = [] := by
  induction made with
  | nil => exact ⟨rfl, rfl⟩
  | cons m made ih =>
      obtain ⟨hcopies, hhandled⟩ := ih fun m' hm' => h m' (List.mem_cons_of_mem m hm')
      have hm := h m List.mem_cons_self
      constructor
      · rw [List.flatMap_cons, hcopies, MmioMap.copies, if_pos hm]
        rfl
      · rw [List.flatMap_cons, hhandled, MmioMap.handled, if_pos hm]
        rfl

end Stored

/-! ## The splash screen -/

/-- What a guest that has drawn has left: one call of the handler, the picture in the memory,
and on a texture whose rows are 1280 bytes long. -/
structure EchoSystem.Drawn (map : MmioMap) (i : Fin maxMmioRegionCount) (splash : Splash)
    (s : EchoSystem) : Prop where
  handled : ∃ data call, MmioMap.firstByte data = 65 ∧ s.calls = [call] ∧
    (map.table.slot i).writeCall mmioPtr data 1 = some call
  pixels : ∀ x < 320, ∀ y < 200,
    slice (view map.vm.translate s.host) (framebuffer.toNat + 4 * (320 * y + x)) 4 =
      (pixel (picture splash x y)).map some
  shown : ∀ (screen : Screen) (texture pixels : Frame), screen.framebufferPhys = framebuffer →
    pixels.pitch = 1280 → pixels.bytes.length = 1280 * 200 → ∃ frame,
      screenUpdate ⟨map.vm, s.host⟩ screen texture (some pixels) (fun _ => []) =
        .ok (⟨map.vm, s.host⟩, frame) ∧ frame.pitch = 1280 ∧ ∀ x < 320, ∀ y < 200,
      (frame.bytes.drop (frame.pitch * y + 4 * x)).take 4 = pixel (picture splash x y)

/-- The RAM that an entry has covers a range. -/
structure MmioMap.HasRam (map : MmioMap) (e : MemoryEntry) (span : Span) : Prop where
  mem : e ∈ map.vm.memoryEntries
  ram : e.isRam = true
  low : e.span.base ≤ span.base
  high : span.base + span.size ≤ e.span.base + e.span.size

/-- The bytes of the framebuffer. -/
def framebufferSpan : Span := ⟨framebuffer.toNat, frameBytes⟩

section Drawn
variable {map : MmioMap} {e e' : MemoryEntry} {i : Fin maxMmioRegionCount} {splash : Splash}
  {s : EchoSystem} {host : HostMemory} {made : List ExitStore} {span stack : Span}

theorem MmioMap.HasRam.entryAt (h : map.HasRam e span) (hmap : map.Wired) {a : Nat}
    (ha : span.Contains a) : map.vm.entryAt Vm.isReadable a = some e := by
  obtain ⟨hlow, hhigh⟩ := ha
  have hroom := h.high
  have hbase := h.low
  refine (Vm.entryAt_iff hmap.backed.ranges).mpr ⟨h.mem, ?_, by omega, by omega⟩
  rw [← (Vm.isRam_eq_isReadable hmap.backed h.mem).1]
  exact h.ram

theorem MmioMap.HasRam.inRam (h : map.HasRam e span) (hmap : map.Wired) {addr : UInt64}
    (ha : span.Contains addr.toNat) : map.inRam addr = true := by
  rw [MmioMap.inRam, h.entryAt hmap ha]
  rfl

/-- The store for the region is not one to RAM. -/
theorem inRam_mmioPtr (hmap : map.Wired) (hi : map.Answers i mmioPtr) :
    map.inRam mmioPtr = false := by
  rw [MmioMap.inRam, hmap.entryAt_answered hi]
  rfl

/-- The first store is the one for the region, and the others are to the framebuffer. -/
theorem drawing_split (h : made.map ExitStore.byteStore = drawing splash) :
    ∃ data rest, MmioMap.firstByte data = 65 ∧ made = (mmioPtr, data) :: rest ∧
      rest.map ExitStore.byteStore = clearScreen ++ showSplashScreen splash := by
  obtain ⟨⟨addr, data⟩, rest, rfl, hfirst, hrest⟩ := List.map_eq_cons_iff.mp h
  obtain ⟨haddr, hdata⟩ := Prod.mk.inj hfirst
  dsimp only at haddr hdata
  exact ⟨data, rest, hdata, by rw [haddr], hrest⟩

/-- None of them is to the stack. -/
theorem drawing_beside (hmap : map.Wired) (hi : map.Answers i mmioPtr)
    (hstack : map.HasRam e stack) (hapart : stack.Disjoint framebufferSpan) (splash : Splash) :
    ∀ m ∈ drawing splash, ¬ stack.Contains m.1.toNat := by
  intro m hm hin
  rcases List.mem_cons.mp hm with rfl | hrest
  · have hram : map.inRam mmioPtr = true := hstack.inRam hmap hin
    rw [inRam_mmioPtr hmap hi] at hram
    cases hram
  · exact hapart m.1.toNat hin (framebuffer_stores splash hrest)

/-- Nothing but the stack and the framebuffer is touched, at any time. -/
theorem outside_of_draws (hmap : map.Wired) (hi : map.Answers i mmioPtr)
    (h : s.Draws map host stack (drawing splash)) (hstack : span.Disjoint stack)
    (hframe : span.Disjoint framebufferSpan) :
    slice (view map.vm.translate s.host) span.base span.size =
      slice (view map.vm.translate host) span.base span.size := by
  obtain ⟨made, hstored, hsplit⟩ := h
  rw [hstored.memory]
  refine slice_overwriteAll fun c hc => ?_
  obtain ⟨m, hm, hcopy⟩ := List.mem_flatMap.mp hc
  by_cases hkept : m.beside stack = true
  · have hstore : m.byteStore ∈ drawing splash := by
      rw [← hsplit]
      exact List.mem_append_left _ (List.mem_map.mpr ⟨m, List.mem_filter.mpr ⟨hm, hkept⟩, rfl⟩)
    rcases List.mem_cons.mp hstore with hfirst | hrest
    · have haddr : m.1 = mmioPtr := congrArg Prod.fst hfirst
      rw [MmioMap.copies, haddr, inRam_mmioPtr hmap hi] at hcopy
      exact absurd hcopy List.not_mem_nil
    · have hplace : framebufferSpan.Contains m.1.toNat := framebuffer_stores splash hrest
      exact misses_copies span (fun hin => hframe _ hin hplace) c hcopy
  · have hplace : stack.Contains m.1.toNat :=
      Classical.not_not.mp fun hout => hkept (ExitStore.beside_iff.mpr hout)
    exact misses_copies span (fun hin => hstack _ hin hplace) c hcopy

/-- What is presented of it. -/
theorem shown_of_pixels (hmap : map.Wired) (hfb : map.HasRam e framebufferSpan)
    (hpixels : ∀ x < 320, ∀ y < 200,
      slice (view map.vm.translate s.host) (framebuffer.toNat + 4 * (320 * y + x)) 4 =
        (pixel (picture splash x y)).map some)
    {screen : Screen} (texture : Frame) {pixels : Frame}
    (hscreen : screen.framebufferPhys = framebuffer) (hpitch : pixels.pitch = 1280)
    (hrows : pixels.bytes.length = 1280 * 200) : ∃ frame,
      screenUpdate ⟨map.vm, s.host⟩ screen texture (some pixels) (fun _ => []) =
        .ok (⟨map.vm, s.host⟩, frame) ∧ frame.pitch = 1280 ∧ ∀ x < 320, ∀ y < 200,
      (frame.bytes.drop (frame.pitch * y + 4 * x)).take 4 = pixel (picture splash x y) := by
  have hcons : (⟨map.vm, s.host⟩ : SharedMemory).Consistent := ⟨hmap.backed, hmap.mirrored⟩
  have hram : (⟨map.vm, s.host⟩ : SharedMemory).physical.ramAt screen.framebufferPhys.toNat =
      some e.span := by
    have hat : map.vm.entryAt Vm.isReadable framebuffer.toNat = some e :=
      hfb.entryAt hmap ⟨Nat.le_refl _, Nat.lt_add_of_pos_right (by decide)⟩
    rw [SharedMemory.ramAt_physical hmap.backed, hscreen, hat]
    rfl
  obtain ⟨bytes, hlen, hbytes, hupdate⟩ := ScreenThread.screenUpdate_quiet hcons hram
    (by rw [hscreen]; exact hfb.high) texture pixels
  have hfits : frameBytes ≤ pixels.bytes.length := by
    rw [hrows]
    exact Nat.le_refl _
  rw [if_pos hfits] at hupdate
  refine ⟨_, hupdate, hpitch, fun x hx y hy => ?_⟩
  have hroom : 4 * (320 * y + x) + 4 ≤ bytes.length := by
    rw [hlen]
    unfold frameBytes
    omega
  have hpart : (bytes.drop (4 * (320 * y + x))).take 4 = pixel (picture splash x y) := by
    refine take_drop_of_slice (fun j hj => ?_) hroom (hpixels x hx y hy)
    rw [hlen] at hj
    rw [hbytes j hj, hscreen]
    rfl
  have hindex : pixels.pitch * y + 4 * x = 4 * (320 * y + x) := by
    rw [hpitch]
    omega
  show ((bytes ++ pixels.bytes.drop frameBytes).drop (pixels.pitch * y + 4 * x)).take 4 = _
  rw [hindex, List.drop_append_of_le_length (by omega), List.take_append_of_le_length
    (by rw [List.length_drop]; omega), hpart]

/-- **A guest that has no store before it has drawn the picture**, whatever is in its stack. -/
theorem drawn_of_draws (hmap : map.Wired) (hfb : map.HasRam e framebufferSpan)
    (hi : map.Answers i mmioPtr) (hstack : map.HasRam e' stack)
    (hapart : stack.Disjoint framebufferSpan) (h : s.Draws map host stack (drawing splash))
    (hdone : s.guest.pending (drawing splash) = []) : s.Drawn map i splash := by
  obtain ⟨made, hstored, hsplit⟩ := h
  rw [hdone, List.append_nil] at hsplit
  obtain ⟨data, rest, hdata, hmade, hrest⟩ := drawing_split hsplit
  have hplace : ∀ m : ExitStore, m.beside stack = false → stack.Contains m.1.toNat :=
    fun m hm => Classical.not_not.mp fun hout => by
      rw [ExitStore.beside_iff.mpr hout] at hm
      cases hm
  obtain ⟨hcopies, hhandled⟩ : rest.flatMap map.copies = _ ∧ rest.flatMap map.handled = [] := by
    refine copied_of_inRam fun m hm => hfb.inRam hmap ?_
    have hmem : m.byteStore ∈ clearScreen ++ showSplashScreen splash := by
      rw [← hrest]
      exact List.mem_map.mpr ⟨m, hm, rfl⟩
    exact framebuffer_stores splash hmem
  have hpixels : ∀ x < 320, ∀ y < 200,
      slice (view map.vm.translate s.host) (framebuffer.toNat + 4 * (320 * y + x)) 4 =
        (pixel (picture splash x y)).map some := by
    intro x hx y hy
    have hfirst : map.copies (mmioPtr, data) = [] := by
      rw [MmioMap.copies, inRam_mmioPtr hmap hi]
      rfl
    -- what is in the stack is not part of the pixel
    have hpixel : ∀ m ∈ made, m.beside stack = false →
        Misses (map.copies m) (framebuffer.toNat + 4 * (320 * y + x)) 4 := by
      intro m _ hm
      refine misses_copies ⟨framebuffer.toNat + 4 * (320 * y + x), 4⟩ fun hin => ?_
      obtain ⟨hlow, hhigh⟩ := hin
      refine hapart _ (hplace m hm) ⟨?_, ?_⟩
      · show framebuffer.toNat ≤ _
        dsimp only at hlow
        omega
      · show _ < framebuffer.toNat + 256000
        dsimp only at hhigh
        omega
    rw [hstored.memory, slice_overwriteAll_filter hpixel, hmade, List.flatMap_cons, hfirst,
      List.nil_append, hcopies, hrest]
    exact slice_drawn splash hx hy
  obtain ⟨call, hcalls, hcall⟩ := MmioMap.mmioHandleWrite_eq_singleton hmap.placed hi data 1
  refine ⟨⟨data, call, hdata, ?_, hcall⟩, hpixels, fun screen texture pixels hscreen hpitch hrows =>
    shown_of_pixels hmap hfb hpixels texture hscreen hpitch hrows⟩
  rw [hstored.calls, handled_filter fun m _ hm => hstack.inRam hmap (hplace m hm), hmade,
    List.flatMap_cons, hhandled, List.append_nil, ← hcalls, MmioMap.handled,
    inRam_mmioPtr hmap hi]
  rfl

end Drawn

/-! ### The map of `main` -/

/-- The RAM of `main`. -/
def echoRam : AllocCall := ⟨0, 0x100000, memoryUsable, ⟨true, 0x7F0001000000, true, true⟩⟩

/-- The region of `main`, and its handler at some address. -/
def echoRegion : MmioRegion := ⟨0, 0xC0000000, 0xC1000000, some 0x401000, none, 0⟩

/-- The framebuffer of `main`. -/
def echoFramebuffer : AllocCall :=
  framebufferCall framebuffer ⟨true, 0x7F0000000000, true, true⟩

/-- A VM with the RAM, and the table after `mmio_init`. -/
def ramMap : MmioMap :=
  ⟨(memoryAlloc Vm.new echoRam.physAddr echoRam.size echoRam.type echoRam.host).1,
    mmioInit MmioTable.zero⟩

/-- The region is there as well. -/
def regionMap : MmioMap :=
  ⟨(memoryAlloc ramMap.vm 0xC0000000 0x1000000 memoryMmio ⟨true, 0, true, true⟩).1,
    ramMap.table.setSlot ⟨0, by decide⟩ echoRegion⟩

def echoMap : MmioMap :=
  ⟨(memoryAlloc regionMap.vm framebuffer echoFramebuffer.size memoryFramebuffer
      echoFramebuffer.host).1, regionMap.table⟩

theorem ramMap_wired : ramMap.Wired := by
  have hserved : MmioMapCall.Served 0x1FD MmioMap.start (.alloc echoRam) := by
    refine ⟨⟨⟨rfl, rfl, fun _ _ => ⟨by decide, by decide, by decide, ?_⟩, fun _ _ => ?_⟩, ?_⟩,
        fun _ _ _ => by decide⟩
    · exact fun m hm => absurd hm List.not_mem_nil
    · exact ⟨by unfold AllocCall.Fits; decide, by decide⟩
    · exact fun hc => absurd hc (by decide)
  obtain ⟨s, hs, halloc⟩ := MmioMap.wired_start.step (by decide : 0x1FD < 2 ^ 32) hserved
  cases hs
  obtain ⟨s, hs, hinit⟩ := halloc.step (by decide : 0x1FD < 2 ^ 32)
    (show MmioMapCall.Served 0x1FD _ .init from trivial)
  cases hs
  exact hinit

theorem regionMap_wired : regionMap.Wired := by
  have hserved : MmioMapCall.Served 0x1FD ramMap (.register echoRegion ⟨true, 0, true, true⟩) :=
    ⟨rfl, rfl, by decide⟩
  obtain ⟨s, hs, hregion⟩ := ramMap_wired.step (by decide) hserved
  have hfirst := (MmioTable.takenTo_mmioInit MmioTable.zero).firstAvailable (by decide)
  have hregister : mmioRegister ramMap.vm ramMap.table echoRegion ⟨true, 0, true, true⟩ =
      (regionMap.vm, regionMap.table, echoRegion, 0) := by
    have halloc : memoryAlloc ramMap.vm echoRegion.baseAddress
        (echoRegion.highAddress - echoRegion.baseAddress) memoryMmio ⟨true, 0, true, true⟩ =
          (regionMap.vm, true) := rfl
    have hslot : ramMap.table.firstAvailable = some ⟨0, by decide⟩ := hfirst
    unfold mmioRegister
    rw [halloc, hslot]
    rfl
  have hstep : MmioMap.step ramMap (.register echoRegion ⟨true, 0, true, true⟩) =
      .ok regionMap := by
    rw [MmioMap.step, hregister]
  cases hs.symm.trans hstep
  exact hregion

theorem echoMap_wired : echoMap.Wired := by
  have hserved : MmioMapCall.Served 0x1FD regionMap (.alloc echoFramebuffer) := by
    refine ⟨⟨⟨rfl, rfl, fun _ _ => ⟨by decide, by decide, by decide, ?_⟩, fun _ _ => ?_⟩, ?_⟩,
        fun _ _ _ => by decide⟩
    · -- the mapping of the RAM
      have hmappings : regionMap.vm.mappings = [(0x7F0001000000, 0x100000)] := rfl
      rw [hmappings]
      intro m hm
      rw [List.mem_singleton.mp hm]
      exact (Span.disjoint_of_le (by decide)).symm
    · exact ⟨by unfold AllocCall.Fits; decide, by decide⟩
    · exact fun hc => absurd hc (by decide)
  obtain ⟨s, hs, hwired⟩ := regionMap_wired.step (by decide : 0x1FD < 2 ^ 32) hserved
  cases hs
  exact hwired

theorem echoMap_framebuffer :
    echoMap.HasRam ⟨0x7F0000000000, framebuffer, 258048, 1, memoryUsable⟩ framebufferSpan :=
  ⟨by decide, by decide, by decide, by decide⟩

/-- Where the stack of the guest may be. -/
def echoStack : Span := ⟨0xA000, 16384⟩

theorem echoMap_stack : echoMap.HasRam ⟨0x7F0001000000, 0, 0x100000, 0, memoryUsable⟩ echoStack :=
  ⟨by decide, by decide, by decide, by decide⟩

theorem echoMap_answers : echoMap.Answers ⟨0, by decide⟩ mmioPtr := by
  have hslot : echoMap.table.slot ⟨0, by decide⟩ = echoRegion := MmioTable.slot_setSlot ..
  unfold MmioMap.Answers
  rw [hslot]
  exact ⟨by decide, by unfold MmioRegion.HasRange; decide, by decide⟩

/-- **The splash screen is drawn, once and for all.**  Whatever the order in which the virtual
CPU and the two threads run, whatever is typed, and whatever the guest keeps on its stack:
nothing faults, and nothing outside the framebuffer and the stack is ever touched; and from the
access on that is the last store of the drawing, the handler of the region has been called
once, every pixel of the framebuffer is the one of the picture, and a texture with rows of 1280
bytes shows it. -/
theorem splash_screen_shown {c : SerialConfig} (hv : c.Valid) (hport : c.port = com1)
    {map : MmioMap} (hmap : map.Wired) {e e' : MemoryEntry} (hfb : map.HasRam e framebufferSpan)
    {i : Fin maxMmioRegionCount} (hi : map.Answers i mmioPtr) {stack : Span}
    (hstack : map.HasRam e' stack) (hapart : stack.Disjoint framebufferSpan) (splash : Splash)
    (devs : Serials) :
    ∃ table serials, serialNew HandlerTable.zero devs c.port c.size c.blocks =
        .ok (some c.address, table, serials) ∧
      ∀ host events, (∀ event ∈ events, event.StacksIn stack) → ∃ s answers,
        trace (echoStep table map c.address (drawing splash))
          (.start (drawing splash) serials host) events = .ok (s, answers) ∧
        (∀ span : Span, span.Disjoint stack → span.Disjoint framebufferSpan →
          slice (view map.vm.translate s.host) span.base span.size =
            slice (view map.vm.translate host) span.base span.size) ∧
        (2 * echoBanner.length + (drawing splash).length ≤ events.countP EchoEvent.isGuest →
          s.Drawn map i splash) := by
  obtain ⟨table, serials, hnew, hw, hholds, -⟩ := SerialConfig.serialNew_spec hv .zero devs
  refine ⟨table, serials, hnew, fun host events hevents => ?_⟩
  obtain ⟨s, answers, htrace, hdraws, hdone⟩ := exists_draws hw hv hport hmap hholds
    (drawing_beside hmap hi hstack hapart splash) host hevents
  exact ⟨s, answers, htrace, fun span => outside_of_draws hmap hi hdraws,
    fun hcount => drawn_of_draws hmap hfb hi hstack hapart hdraws (hdone hcount)⟩

/-- A run in which the guest stores to its stack and then goes on until it has drawn. -/
theorem splash_screen_shown_main :
    let splash : Splash := Vector.replicate _ 128
    let block : KvmBlock := ⟨[0], 0, Nat.one_pos, Vector.replicate 8 0⟩
    let events : List EchoEvent := .stack block (0xDFFC, 0x7C) ::
      List.replicate (2 * echoBanner.length + (drawing splash).length) (.guest block)
    ∃ table serials, serialNew HandlerTable.zero (fun _ => none) echoSerial.port echoSerial.size
        echoSerial.blocks = .ok (some echoSerial.address, table, serials) ∧
      ∀ host, ∃ s answers,
        trace (echoStep table echoMap echoSerial.address (drawing splash))
          (.start (drawing splash) serials host) events = .ok (s, answers) ∧
        s.Drawn echoMap ⟨0, by decide⟩ splash := by
  intro splash block events
  have hstack : ∀ event ∈ events, event.StacksIn echoStack := by
    refine List.forall_mem_cons.mpr ⟨by unfold EchoEvent.StacksIn; decide, fun event he => ?_⟩
    rw [List.eq_of_mem_replicate he]
    trivial
  have hcount : ∀ n store, n ≤ (EchoEvent.stack block store ::
      List.replicate n (.guest block)).countP EchoEvent.isGuest := by
    intro n store
    rw [List.countP_cons_of_neg Bool.false_ne_true, List.countP_replicate]
    exact Nat.le_refl n
  obtain ⟨table, serials, hnew, hall⟩ := splash_screen_shown echoSerial_valid rfl echoMap_wired
    echoMap_framebuffer echoMap_answers echoMap_stack (Span.disjoint_of_le (by decide)) splash
    fun _ => none
  refine ⟨table, serials, hnew, fun host => ?_⟩
  obtain ⟨s, answers, htrace, -, hdrawn⟩ := hall host events hstack
  exact ⟨s, answers, htrace, hdrawn (hcount _ _)⟩

end BlackHV
