import BlackHV.EchoSpec
import BlackHV.Flows
import BlackHV.MachineRuns

/-! # What the user sees

The process of the echo program does what `EchoSpec` does, with the queues of the serial port
for the FIFOs and KVM's exits for the accesses of the guest.  So whatever the order in which
the virtual CPU and the two threads run, the user sees the line of the guest and what was
typed, without a byte twice and none before another; and all of it in the end, exactly if no
byte has met a full queue.
-/
namespace BlackHV

open Runs

/-! ## The simulation -/

section Sim
variable {c : SerialConfig} {table : HandlerTable Unit Serials} {map : MmioMap}
  {stores : List ByteStore} {s : EchoSystem} {a : EchoSpec c.size}

/-- The process holds the abstract system. -/
structure EchoSystem.Holds (c : SerialConfig) (s : EchoSystem) (a : EchoSpec c.size) : Prop where
  guest : s.guest = a.guest
  serial : c.Holds s.serials a.fifos
  shown : s.shown = a.shown

namespace KvmBlock

theorem promised (block : KvmBlock) {direction : UInt8} (port : UInt16)
    (h : direction = kvmExitIoOut ∨ direction = kvmExitIoIn) {run : List UInt8}
    (hrun : run.length = block.bytes.length) : (block.io direction port).Promised run :=
  ⟨h, .inl rfl, Nat.le_refl 1, by rw [hrun]; exact block.inside⟩

/-- The byte of the access in the block. -/
theorem getElem?_put (block : KvmBlock) (b : UInt8) :
    (putBytes block.bytes block.offset [b])[block.offset]? = some b := by
  have hshows : Shows (putBytes block.bytes block.offset [b]) block.offset [b] :=
    shows_putBytes block.inside
  exact hshows 0 Nat.one_pos

theorem offset_zero (block : KvmBlock) (direction : UInt8) (port : UInt16) :
    (block.io direction port).offset 0 = block.offset := by
  rw [KvmIo.offset, Nat.zero_mul]
  rfl

end KvmBlock

variable (map) in
/-- A byte that the guest sends. -/
theorem guestAccess_outb (hw : c.Wired table) (hv : c.Valid) (hport : c.port = com1)
    (h : s.Holds c a) (block : KvmBlock) (data : UInt8) :
    ∃ serials, guestAccess table map s block (.outb com1 data) = .ok ({ s with serials }, 0) ∧
      c.Holds serials { a.fifos with guest := (a.fifos.guest.push [data]).1 } := by
  have hreg : com1 = c.register 0 := by
    rw [SerialConfig.register, hport]
    rfl
  have hlen : (putBytes block.bytes block.offset [data]).length = block.bytes.length :=
    length_putBytes ..
  obtain ⟨serials, hio, hholds, -⟩ := SerialConfig.exit_spec hw hv h.serial
    (block.promised com1 (.inl rfl) hlen) hreg
  have haccess : (block.io kvmExitIoOut com1).access
      (putBytes block.bytes block.offset [data]) 0 = .outb com1 data := by
    have hout : (block.io kvmExitIoOut com1).direction = kvmExitIoOut := rfl
    have hone : (block.io kvmExitIoOut com1).size = 1 := rfl
    rw [KvmIo.access, if_pos hout, if_pos hone, block.offset_zero, block.getElem?_put]
    rfl
  refine ⟨serials, ?_, ?_⟩
  · simp only [guestAccess, handleExit, hio, ok_bind]
  · have hsize : ¬ (block.io kvmExitIoOut com1).size = 4 := show ¬ (1 : UInt8) = 4 by decide
    rwa [SerialFifos.exit, if_neg hsize, haccess, SerialFifos.access, hreg,
      SerialConfig.regOf_register, SerialFifos.command, if_pos rfl] at hholds

/-- A byte that the guest reads from a register. -/
theorem guestAccess_inb (hw : c.Wired table) (hv : c.Valid) (hport : c.port = com1)
    (h : s.Holds c a) (block : KvmBlock) (reg : Fin 8) {b : UInt8} {f : SerialFifos c.size}
    (hcommand : a.fifos.command (.inb reg) = (f, .inb (some b))) :
    ∃ serials, guestAccess table map s block (.inb (com1 + UInt16.ofNat reg)) =
        .ok ({ s with serials }, b) ∧ c.Holds serials f := by
  have hreg : com1 + UInt16.ofNat reg = c.register reg := by rw [SerialConfig.register, hport]
  obtain ⟨serials, hio, hholds, -⟩ := SerialConfig.exit_spec hw hv h.serial
    (block.promised (com1 + UInt16.ofNat reg) (.inr rfl) rfl) hreg
  have haccess : (block.io kvmExitIoIn (com1 + UInt16.ofNat reg)).access block.bytes 0 =
      .inb (com1 + UInt16.ofNat reg) := rfl
  have hsize : ¬ (block.io kvmExitIoIn (com1 + UInt16.ofNat reg)).size = 4 :=
    show ¬ (1 : UInt8) = 4 by decide
  have hexit : a.fifos.exit c (block.io kvmExitIoIn (com1 + UInt16.ofNat reg)) block.bytes =
      (f, putBytes block.bytes block.offset [b]) := by
    rw [SerialFifos.exit, if_neg hsize, haccess, SerialFifos.access, hreg,
      SerialConfig.regOf_register, hcommand, KvmIo.put, block.offset_zero]
    rfl
  rw [hexit] at hio hholds
  refine ⟨serials, ?_, hholds⟩
  simp only [guestAccess, handleExit, hio, ok_bind, block.getElem?_put]
  rfl

variable (table) in
/-- A store does not touch the port. -/
theorem guestAccess_store (hmap : map.Wired) (s : EchoSystem) (block : KvmBlock)
    (store : ByteStore) : ∃ host calls, guestAccess table map s block (.store store) =
      .ok ({ s with host, calls := s.calls ++ calls }, 0) := by
  obtain ⟨host, calls, hstore⟩ := hmap.guestStore_ok s.host store.1 (block.storing store.2) 1
  refine ⟨host, calls, ?_⟩
  simp only [guestAccess, hstore, ok_bind]

/-- The status that the guest reads: the port is always ready to take a byte. -/
def SerialFifos.status {n : Nat} (f : SerialFifos n) : UInt8 :=
  (if f.host.isEmpty then 0 else 1) ||| 0x20

theorem SerialFifos.status_ready {n : Nat} (f : SerialFifos n) : ¬ (f.status >>> 5) &&& 1 = 0 := by
  unfold status
  split
  · decide
  · decide

theorem SerialFifos.status_data {n : Nat} (f : SerialFifos n) :
    f.status &&& 1 = 0 ↔ f.host.isEmpty = true := by
  unfold status
  split
  · rename_i hempty
    exact iff_of_true (by decide) hempty
  · rename_i hsome
    exact iff_of_false (by decide) hsome

theorem echoStep_of_access {serial : UInt64} {block : KvmBlock} {g : Guest32} {s₁ : EchoSystem}
    {al : UInt8} (hg : s.guest = g) (h : guestAccess table map s block g.access = .ok (s₁, al)) :
    echoStep table map serial stores s (.guest block) =
      .ok ({ s₁ with guest := s₁.guest.next stores al }, .guest) := by
  simp only [echoStep, hg, h, ok_bind]

/-- The guest goes on to its next access. -/
theorem echoStep_guest (hw : c.Wired table) (hv : c.Valid) (hport : c.port = com1)
    (hmap : map.Wired) (h : s.Holds c a) (block : KvmBlock) :
    ∃ s', echoStep table map c.address stores s (.guest block) = .ok (s', .guest) ∧
      s'.Holds c (a.access stores) := by
  have hstatus : ∃ serials, guestAccess table map s block (.inb (com1 + 5)) =
      .ok ({ s with serials }, a.fifos.status) ∧ c.Holds serials a.fifos :=
    guestAccess_inb hw hv hport h block 5 rfl
  have hread : ∃ serials, guestAccess table map s block (.inb com1) =
      .ok ({ s with serials }, (a.fifos.host.pop 1).2.headD 0) ∧
        c.Holds serials { a.fifos with host := (a.fifos.host.pop 1).1 } :=
    guestAccess_inb hw hv hport h block 0 rfl
  have hguest := h.guest
  unfold EchoSpec.access
  rcases hg : a.guest with ⟨b, rest⟩ | ⟨b, rest⟩ | ⟨store, left⟩ | _ | _
  · rw [hg] at hguest
    obtain ⟨serials, haccess, hholds⟩ := hstatus
    refine ⟨_, echoStep_of_access hguest haccess, ?_, hholds, h.shown⟩
    rw [hguest]
    exact if_neg a.fifos.status_ready
  · rw [hg] at hguest
    obtain ⟨serials, haccess, hholds⟩ := guestAccess_outb map hw hv hport h block b
    refine ⟨_, echoStep_of_access hguest haccess, ?_, hholds, h.shown⟩
    rw [hguest]
    rfl
  · rw [hg] at hguest
    obtain ⟨host, calls, haccess⟩ := guestAccess_store table hmap s block store
    refine ⟨_, echoStep_of_access hguest haccess, ?_, h.serial, h.shown⟩
    rw [hguest]
    rfl
  · rw [hg] at hguest
    obtain ⟨serials, haccess, hholds⟩ := hstatus
    refine ⟨_, echoStep_of_access hguest haccess, ?_⟩
    rw [hguest, Guest32.next]
    by_cases hempty : a.fifos.host.isEmpty = true
    · rw [if_pos (a.fifos.status_data.mpr hempty), if_pos hempty]
      exact ⟨hg.symm, hholds, h.shown⟩
    · rw [if_neg (mt a.fifos.status_data.mp hempty), if_neg hempty]
      exact ⟨rfl, hholds, h.shown⟩
  · rw [hg] at hguest
    obtain ⟨serials, haccess, hholds⟩ := hread
    refine ⟨_, echoStep_of_access hguest haccess, ?_, hholds, h.shown⟩
    rw [hguest]
    rfl

variable (stores) in
/-- **Every event does what it does to the abstract system.** -/
theorem echoStep_simulates (hw : c.Wired table) (hv : c.Valid) (hport : c.port = com1)
    (hmap : map.Wired) (h : s.Holds c a) (e : EchoEvent) :
    ∃ s', echoStep table map c.address stores s e = .ok (s', (a.step stores e).2) ∧
      s'.Holds c (a.step stores e).1 := by
  rcases e with block | ⟨block, store⟩ | line | _
  · exact echoStep_guest hw hv hport hmap h block
  · obtain ⟨host, calls, hstore⟩ := guestAccess_store table hmap s block store
    refine ⟨{ s with host, calls := s.calls ++ calls }, ?_, h.guest, h.serial, h.shown⟩
    rw [echoStep, hstore, ok_bind]
    rfl
  · obtain ⟨serials, hwrite, hholds, -⟩ := SerialConfig.command_spec hw hv h.serial (.write line)
    obtain ⟨⟨devs, count⟩, hio, hret⟩ := bind_eq_ok.mp hwrite
    obtain ⟨rfl, hcount⟩ := Prod.mk.inj (Except.ok.inj hret)
    refine ⟨{ s with serials := devs }, ?_, h.guest, hholds, h.shown⟩
    rw [echoStep, hio, ok_bind, SerialAnswer.written.inj hcount]
    rfl
  · obtain ⟨serials, hread, hholds, -⟩ := SerialConfig.command_spec hw hv h.serial (.read 1)
    obtain ⟨⟨devs, bytes⟩, hio, hret⟩ := bind_eq_ok.mp hread
    obtain ⟨rfl, hbytes⟩ := Prod.mk.inj (Except.ok.inj hret)
    refine ⟨{ s with serials := devs, shown := s.shown ++ bytes }, ?_, h.guest, hholds, ?_⟩
    · rw [echoStep, hio, ok_bind]
      rfl
    · rw [h.shown, SerialAnswer.read.inj hbytes]
      rfl

/-! ## What is carried -/

/-- The contents of the queues are the items of the FIFOs. -/
theorem EchoSystem.Holds.carried_eq (h : s.Holds c a) : s.carried c.address = a.carried := by
  obtain ⟨port, hport, -, ⟨-, hguest⟩, ⟨-, hhost⟩⟩ := h.serial
  rw [carried, hport, EchoSpec.carried, h.guest, h.shown]
  dsimp only
  rw [hguest.contents_eq, hhost.contents_eq]

theorem EchoSystem.Holds.loses_iff (h : s.Holds c a) (e : EchoEvent) :
    s.Loses c.address e ↔ a.Loses e := by
  rcases e with block | ⟨block, store⟩ | line | _
  · obtain ⟨port, hport, -, ⟨hsize, hguest⟩, -⟩ := h.serial
    have hfull : (∃ port, s.serials c.address = some port ∧ port.guestQueue.isFull = 1) ↔
        a.fifos.guest.items.length = c.size := by
      have hiff := hguest.full_iff
      rw [hsize] at hiff
      refine Iff.trans ⟨?_, fun hisFull => ⟨port, hport, hisFull⟩⟩ hiff
      rintro ⟨port', hport', hisFull⟩
      rw [hport] at hport'
      cases hport'
      exact hisFull
    unfold EchoSystem.Loses EchoSpec.Loses
    rw [h.guest, hfull]
  · exact Iff.rfl
  · exact Iff.rfl
  · exact Iff.rfl

variable (stores) in
/-- **Only a byte that meets a full queue is lost.** -/
theorem echo_carries (hw : c.Wired table) (hv : c.Valid) (hport : c.port = com1)
    (hmap : map.Wired) : Flows.Carries (echoStep table map c.address stores)
      (fun s => ∃ a, s.Holds c a ∧ a.Sound) (fun _ => True) (EchoSystem.carried c.address)
      EchoEvent.input (fun s e => ¬ s.Loses c.address e) := by
  have hfollow : ∀ (s : EchoSystem) (a : EchoSpec c.size) e s' o, s.Holds c a →
      echoStep table map c.address stores s e = .ok (s', o) →
      s'.Holds c (a.step stores e).1 ∧ o = (a.step stores e).2 := by
    intro s a e s' o h hstep
    obtain ⟨s₁, hstep₁, hholds⟩ := echoStep_simulates stores hw hv hport hmap h e
    rw [hstep] at hstep₁
    cases hstep₁
    exact ⟨hholds, rfl⟩
  refine ⟨?_, ?_, ?_⟩
  · rintro s e s' o ⟨a, h, hsound⟩ - hstep
    exact ⟨_, (hfollow s a e s' o h hstep).1, hsound.step stores e⟩
  · rintro s e s' o ⟨a, h, hsound⟩ - hstep hkeeps
    obtain ⟨hholds, rfl⟩ := hfollow s a e s' o h hstep
    rw [hholds.carried_eq, h.carried_eq]
    exact EchoSpec.carried_step hsound (mt (h.loses_iff e).mpr hkeeps)
  · rintro s e s' o ⟨a, h, hsound⟩ - hstep hloses
    obtain ⟨hholds, rfl⟩ := hfollow s a e s' o h hstep
    rw [hholds.carried_eq, h.carried_eq]
    exact EchoSpec.carried_step_lost ((h.loses_iff e).mp (Classical.not_not.mp hloses))

/-! ## Runs -/

/-- Before the first event the guest has all of its line to write. -/
theorem holds_start (stores : List ByteStore) {serials : Serials}
    (h : c.Holds serials (.empty c.size)) (host : HostMemory) :
    (EchoSystem.start stores serials host).Holds c
      { guest := .start stores, fifos := .empty c.size, shown := [] } := ⟨rfl, h, rfl⟩

theorem sound_start (stores : List ByteStore) (n : Nat) :
    (⟨.start stores, .empty n, []⟩ : EchoSpec n).Sound := fun h => nomatch h

theorem carried_start (stores : List ByteStore) (n : Nat) :
    (⟨.start stores, .empty n, []⟩ : EchoSpec n).carried = echoBanner := rfl

end Sim

section Runs
variable {c : SerialConfig} {map : MmioMap}

/-- **The user sees what was typed, in order.**  In every run of the virtual CPU and the two
threads, whatever their order, one event after the other: nothing faults; what has been
printed, and what is on its way behind it, are the line of the guest and the bytes that the
port has taken from the user, without a byte twice and none before another; and without one
missing exactly if the guest never sends a byte to a full queue. -/
theorem echo_carried_iff (hv : c.Valid) (hport : c.port = com1) (hmap : map.Wired)
    (stores : List ByteStore) (devs : Serials) :
    ∃ table serials, serialNew HandlerTable.zero devs c.port c.size c.blocks =
        .ok (some c.address, table, serials) ∧
      ∀ host events, ∃ s answers,
        trace (echoStep table map c.address stores) (.start stores serials host) events =
          .ok (s, answers) ∧
        (s.carried c.address).Sublist (echoBanner ++ Flows.taken EchoEvent.input events answers) ∧
        s.shown <+: s.carried c.address ∧
        (s.carried c.address = echoBanner ++ Flows.taken EchoEvent.input events answers ↔
          EachStep (fun s e => (echoStep table map c.address stores s e).map Prod.fst)
            (fun s e => ¬ s.Loses c.address e) (.start stores serials host) events) := by
  obtain ⟨table, serials, hnew, hw, hholds, -⟩ := SerialConfig.serialNew_spec hv .zero devs
  refine ⟨table, serials, hnew, fun host events => ?_⟩
  have hstart := holds_start stores hholds host
  have hsound := sound_start stores c.size
  obtain ⟨s, htrace, h⟩ := trace_simulates (EchoSpec.step stores) (EchoSystem.Holds c)
    (fun _ _ e h => echoStep_simulates stores hw hv hport hmap h e) hstart events
  have hcarries := echo_carries stores hw hv hport hmap
  have hzero : (EchoSystem.start stores serials host).carried c.address = echoBanner :=
    hstart.carried_eq.trans (carried_start stores c.size)
  refine ⟨s, _, htrace, ?_, ?_, ?_⟩
  · rw [← hzero]
    exact hcarries.carried_sublist ⟨_, hstart, hsound⟩ (fun _ _ => trivial) htrace
  · rw [h.carried_eq, h.shown]
    exact List.prefix_append _ _
  · rw [← hzero]
    exact hcarries.carried_eq_iff ⟨_, hstart, hsound⟩ (fun _ _ => trivial) htrace

/-- COM1 with queues of 1024 bytes, as `main` creates it. -/
def echoSerial : SerialConfig :=
  ⟨0x3F8, 1024, 0x1000, Vector.replicate 1024 0, Vector.replicate 1024 0⟩

theorem echoSerial_valid : echoSerial.Valid := ⟨by decide, by decide, by decide⟩

theorem echo_carried_iff_com1 :
    ∃ table serials, serialNew HandlerTable.zero (fun _ => none) echoSerial.port echoSerial.size
        echoSerial.blocks = .ok (some echoSerial.address, table, serials) ∧
      ∀ host events, ∃ s answers,
        trace (echoStep table MmioMap.start echoSerial.address [])
          (.start [] serials host) events = .ok (s, answers) ∧
        (s.carried echoSerial.address).Sublist
          (echoBanner ++ Flows.taken EchoEvent.input events answers) ∧
        s.shown <+: s.carried echoSerial.address ∧
        (s.carried echoSerial.address =
            echoBanner ++ Flows.taken EchoEvent.input events answers ↔
          EachStep (fun s e =>
              (echoStep table MmioMap.start echoSerial.address [] s e).map Prod.fst)
            (fun s e => ¬ s.Loses echoSerial.address e) (.start [] serials host) events) :=
  echo_carried_iff echoSerial_valid rfl MmioMap.wired_start [] fun _ => none

/-- **All of it is printed in the end.**  After every run, and enough rounds in which `worker1`
reads a byte and the guest goes on, what had been on its way has been printed, and nothing is
left; so the user has seen the line of the guest and all that was typed exactly if the guest
never sent a byte to a full queue. -/
theorem echo_all_shown (hv : c.Valid) (hport : c.port = com1) (hmap : map.Wired)
    (stores : List ByteStore) (devs : Serials) :
    ∃ table serials, serialNew HandlerTable.zero devs c.port c.size c.blocks =
        .ok (some c.address, table, serials) ∧
      ∀ host events, ∃ s answers,
        trace (echoStep table map c.address stores) (.start stores serials host) events =
          .ok (s, answers) ∧
        ∃ enough, ∀ blocks : List KvmBlock, enough ≤ blocks.length → ∃ s' answers',
          trace (echoStep table map c.address stores) s (echoRounds blocks) = .ok (s', answers') ∧
          s'.shown = s.carried c.address ∧ s'.carried c.address = s'.shown ∧
          (s'.shown = echoBanner ++ Flows.taken EchoEvent.input events answers ↔
            EachStep (fun s e => (echoStep table map c.address stores s e).map Prod.fst)
              (fun s e => ¬ s.Loses c.address e) (.start stores serials host) events) := by
  obtain ⟨table, serials, hnew, hw, hholds, -⟩ := SerialConfig.serialNew_spec hv .zero devs
  refine ⟨table, serials, hnew, fun host events => ?_⟩
  have hstart := holds_start stores hholds host
  have hcarries := echo_carries stores hw hv hport hmap
  have hsim : ∀ s a e, EchoSystem.Holds c s a →
      ∃ s', echoStep table map c.address stores s e = .ok (s', (a.step stores e).2) ∧
        s'.Holds c (a.step stores e).1 :=
    fun _ _ e h => echoStep_simulates stores hw hv hport hmap h e
  obtain ⟨s, htrace, h⟩ := trace_simulates (EchoSpec.step stores) (EchoSystem.Holds c) hsim
    hstart events
  have hsound := EchoSpec.Sound.run (sound_start stores c.size) stores events
  have hiff := hcarries.carried_eq_iff ⟨_, hstart, sound_start stores c.size⟩
    (fun _ _ => trivial) htrace
  rw [hstart.carried_eq, carried_start] at hiff
  refine ⟨s, _, htrace, EchoSpec.left stores (traceTotal (EchoSpec.step stores)
    ⟨.start stores, .empty c.size, []⟩ events).1, fun blocks hblocks => ?_⟩
  obtain ⟨hrest, hcarried⟩ := EchoSpec.rest_of_rounds hsound hv.size_pos (.inr hblocks)
  obtain ⟨s', htrace', h'⟩ := trace_simulates (EchoSpec.step stores) (EchoSystem.Holds c) hsim h
    (echoRounds blocks)
  have hshown : s'.shown = s.carried c.address := by
    rw [h'.shown, hrest.shown_eq, hcarried, h.carried_eq]
  refine ⟨s', _, htrace', hshown, ?_, ?_⟩
  · rw [h'.carried_eq, h'.shown, hrest.shown_eq]
  · rw [hshown]
    exact hiff

theorem echo_all_shown_com1 :
    ∃ table serials, serialNew HandlerTable.zero (fun _ => none) echoSerial.port echoSerial.size
        echoSerial.blocks = .ok (some echoSerial.address, table, serials) ∧
      ∀ host events, ∃ s answers,
        trace (echoStep table MmioMap.start echoSerial.address [])
          (.start [] serials host) events = .ok (s, answers) ∧
        ∃ enough, ∀ blocks : List KvmBlock, enough ≤ blocks.length → ∃ s' answers',
          trace (echoStep table MmioMap.start echoSerial.address []) s (echoRounds blocks) =
            .ok (s', answers') ∧
          s'.shown = s.carried echoSerial.address ∧
          s'.carried echoSerial.address = s'.shown ∧
          (s'.shown = echoBanner ++ Flows.taken EchoEvent.input events answers ↔
            EachStep (fun s e =>
                (echoStep table MmioMap.start echoSerial.address [] s e).map Prod.fst)
              (fun s e => ¬ s.Loses echoSerial.address e) (.start [] serials host) events) :=
  echo_all_shown echoSerial_valid rfl MmioMap.wired_start [] fun _ => none

end Runs

end BlackHV
