import BlackHV.Serial
import BlackHV.Runs
import Mathlib.Data.List.Pairwise

/-! # Serial devices do not interfere

Any number of devices, each on eight ports of its own, share the port table and the heap.
What they are for is a family of independent pairs of bounded FIFOs: an access to one
device moves the pair of that device, and answers from it (`SerialFifos.command`).
-/
namespace BlackHV

open Runs

/-! ## The family -/

/-- An access of the guest to a register of a device, by its offset, or a call of the
host. -/
inductive SerialCommand where
  | outb (reg : Fin 8) (data : UInt8)
  | inb (reg : Fin 8)
  | read (len : Nat)
  | write (buffer : List UInt8)

/-- Whether a write of the guest was handled, what a read of it has stored, the bytes of
`serial_read`, the count of `serial_write`. -/
inductive SerialAnswer where
  | out (handled : Bool)
  | inb (output : Option UInt8)
  | read (bytes : List UInt8)
  | written (count : Nat)
  deriving DecidableEq

/-- The two directions of a device. -/
structure SerialFifos (n : Nat) where
  guest : BoundedFifo UInt8 n
  host : BoundedFifo UInt8 n

namespace SerialFifos

def empty (n : Nat) : SerialFifos n := ⟨.empty UInt8 n, .empty UInt8 n⟩

/-- What a command is for.  `THR` and `RBR` are register 0, `LSR` is register 5. -/
def command {n : Nat} (f : SerialFifos n) : SerialCommand → SerialFifos n × SerialAnswer
  | .outb reg data =>
      (if reg = 0 then { f with guest := (f.guest.push [data]).1 } else f, .out true)
  | .inb reg =>
      if reg = 0 then
        ({ f with host := (f.host.pop 1).1 }, .inb (some ((f.host.pop 1).2.headD 0)))
      else
        (f, .inb (some (if reg = 5 then (if f.host.isEmpty then 0 else 1) ||| 0x20 else 0)))
  | .read len => ({ f with guest := (f.guest.pop len).1 }, .read (f.guest.pop len).2)
  | .write buffer => ({ f with host := (f.host.push buffer).1 }, .written (f.host.push buffer).2)

end SerialFifos

/-! ## The devices -/

/-- A device to be created: its first port, the size of its queues, and the blocks that
`malloc` returns for it. -/
structure SerialConfig where
  port : UInt16
  size : Nat
  address : UInt64
  guestBlock : Vector UInt8 size
  hostBlock : Vector UInt8 size

namespace SerialConfig

/-- A port of the device. -/
def register (c : SerialConfig) (reg : Fin 8) : UInt16 := c.port + UInt16.ofNat reg

/-- What `serial_new` is given by `malloc`. -/
def blocks (c : SerialConfig) : SerialBlocks c.size :=
  ⟨some c.address, (true, some c.guestBlock), (true, some c.hostBlock)⟩

/-- A command on the device. -/
def command (c : SerialConfig) (table : HandlerTable Unit Serials) (devs : Serials) :
    SerialCommand → Except Fault (Serials × SerialAnswer)
  | .outb reg data => do
      let (devs, handled) ← ioHandleOutb table () (c.register reg) data devs
      .ok (devs, .out handled)
  | .inb reg => do
      let (devs, output) ← ioHandleInb table () (c.register reg) devs
      .ok (devs, .inb output)
  | .read len => do
      let (devs, bytes) ← serialRead devs c.address len
      .ok (devs, .read bytes)
  | .write buffer => do
      let (devs, count) ← serialWrite devs c.address buffer
      .ok (devs, .written count)

/-- Queues of a byte at least, a block that is not `NULL`, and eight ports below
`0xFFFF`. -/
structure Valid (c : SerialConfig) : Prop where
  size_pos : 1 ≤ c.size
  nonnull : c.address ≠ 0
  ports : c.port.toNat + 8 ≤ 0xFFFF

/-- Different blocks and disjoint ports. -/
def Apart (c d : SerialConfig) : Prop :=
  c.address ≠ d.address ∧
    (c.port.toNat + 8 ≤ d.port.toNat ∨ d.port.toNat + 8 ≤ c.port.toNat)

end SerialConfig

/-- `serial_new` for one device after the other. -/
def serialNewAll : List SerialConfig → HandlerTable Unit Serials → Serials →
    Except Fault (HandlerTable Unit Serials × Serials)
  | [], table, devs => .ok (table, devs)
  | c :: rest, table, devs => do
      let (_, table, devs) ← serialNew table devs c.port c.size c.blocks
      serialNewAll rest table devs

/-- A command on one of the devices. -/
def serialStep (configs : List SerialConfig) (table : HandlerTable Unit Serials) (devs : Serials)
    (e : Fin configs.length × SerialCommand) : Except Fault (Serials × SerialAnswer) :=
  (configs.get e.1).command table devs e.2

namespace SerialConfig
variable {c d : SerialConfig} {table : HandlerTable Unit Serials} {devs : Serials}

/-! ## Ports -/

theorem register_toNat (h : c.Valid) (reg : Fin 8) :
    (c.register reg).toNat = c.port.toNat + reg.val := by
  have hports := h.ports
  have hreg := reg.isLt
  have hofNat : (UInt16.ofNat reg.val).toNat = reg.val := by
    rw [UInt16.toNat_ofNat', Nat.mod_eq_of_lt]
    omega
  rw [register, UInt16.toNat_add, hofNat, Nat.mod_eq_of_lt]
  omega

theorem register_ne (h : c.Valid) (reg : Fin 8) : c.register reg ≠ 0xFFFF := by
  intro he
  have hports := h.ports
  have hreg := reg.isLt
  have heq := c.register_toNat h reg
  rw [he] at heq
  change 0xFFFF = _ at heq
  omega

/-- The register is the offset of the port. -/
theorem register_sub (c : SerialConfig) (reg : Fin 8) :
    c.register reg - c.port = UInt16.ofNat reg := by
  rw [register, UInt16.add_comm, UInt16.add_sub_cancel]

theorem offset_eq_iff (reg reg' : Fin 8) :
    UInt16.ofNat reg.val = UInt16.ofNat reg'.val ↔ reg = reg' := by
  revert reg reg'
  decide

/-! ## One device -/

/-- The ports of the device dispatch to it. -/
def Wired (c : SerialConfig) (table : HandlerTable Unit Serials) : Prop :=
  ∀ reg : Fin 8, table (c.register reg) = serialHandler c.address

/-- The device is in the heap, with these FIFOs in its queues. -/
def Holds (c : SerialConfig) (devs : Serials) (f : SerialFifos c.size) : Prop :=
  ∃ serial, devs c.address = some serial ∧ serial.port = c.port ∧
    (serial.guestQueue.bufferSize = c.size ∧ serial.guestQueue.Represents f.guest.items) ∧
    (serial.hostQueue.bufferSize = c.size ∧ serial.hostQueue.Represents f.host.items)

theorem Wired.at_ok (hw : c.Wired table) (hv : c.Valid) (reg : Fin 8) :
    table.at (c.register reg) = .ok (serialHandler c.address) := by
  rw [HandlerTable.at_ok (register_ne hv reg), hw reg]

/-- A device depends on its own block only. -/
theorem Holds.congr {f : SerialFifos c.size} (h : c.Holds devs f) {devs' : Serials}
    (he : devs' c.address = devs c.address) : c.Holds devs' f := by
  obtain ⟨serial, hd, hrest⟩ := h
  exact ⟨serial, he.trans hd, hrest⟩

/-- A write of the guest to a register. -/
theorem outb_spec (hw : c.Wired table) (hv : c.Valid) {f : SerialFifos c.size}
    (h : c.Holds devs f) (reg : Fin 8) (data : UInt8) :
    ∃ devs', c.command table devs (.outb reg data) = .ok (devs', (f.command (.outb reg data)).2) ∧
      c.Holds devs' (f.command (.outb reg data)).1 ∧ ∀ a, a ≠ c.address → devs' a = devs a := by
  obtain ⟨serial, hd, hbase, ⟨hgs, hg⟩, hhost⟩ := h
  have hat := hw.at_ok hv reg
  have hsub : c.register reg - serial.port = UInt16.ofNat reg := by rw [hbase, register_sub]
  have hio : ∀ {devs'}, serialOutb () (c.register reg) data c.address devs = .ok devs' →
      c.command table devs (.outb reg data) = .ok (devs', .out true) := by
    intro devs' hout
    simp only [command, ioHandleOutb, hat, ok_bind, serialHandler, hout]
  by_cases hreg : reg = 0
  · obtain ⟨q, hq, hs, hr⟩ := queueWrite_fifo hgs hg [data]
    have hthr : c.register reg - serial.port = thr := by
      rw [hsub, hreg]
      rfl
    refine ⟨devs.put c.address { serial with guestQueue := q },
      hio (serialOutb_thr hv.nonnull hd hthr hq), ?_, fun a ha => Serials.put_ne ha _ _⟩
    rw [SerialFifos.command, if_pos hreg]
    exact ⟨_, Serials.put_self .., hbase, ⟨hs, hr⟩, hhost⟩
  · have hthr : c.register reg - serial.port ≠ thr := by
      rw [hsub]
      exact fun he => hreg ((offset_eq_iff reg 0).mp he)
    refine ⟨devs, hio (serialOutb_other hv.nonnull hd hthr data), ?_, fun _ _ => rfl⟩
    rw [SerialFifos.command, if_neg hreg]
    exact ⟨serial, hd, hbase, ⟨hgs, hg⟩, hhost⟩

/-- A read of the guest from a register. -/
theorem inb_spec (hw : c.Wired table) (hv : c.Valid) {f : SerialFifos c.size}
    (h : c.Holds devs f) (reg : Fin 8) :
    ∃ devs', c.command table devs (.inb reg) = .ok (devs', (f.command (.inb reg)).2) ∧
      c.Holds devs' (f.command (.inb reg)).1 ∧ ∀ a, a ≠ c.address → devs' a = devs a := by
  obtain ⟨serial, hd, hbase, hguest, ⟨hhs, hh⟩⟩ := h
  have hat := hw.at_ok hv reg
  have hsub : c.register reg - serial.port = UInt16.ofNat reg := by rw [hbase, register_sub]
  have hio : ∀ {byte devs'}, serialInb () (c.register reg) c.address devs = .ok (byte, devs') →
      c.command table devs (.inb reg) = .ok (devs', .inb (some byte)) := by
    intro byte devs' hin
    simp only [command, ioHandleInb, hat, ok_bind, serialHandler, hin]
  by_cases hreg : reg = 0
  · obtain ⟨q, hq, hs, hr⟩ := queueRead_fifo hhs hh 1
    have hrbr : c.register reg - serial.port = rbr := by
      rw [hsub, hreg]
      rfl
    refine ⟨devs.put c.address { serial with hostQueue := q }, ?_, ?_,
      fun a ha => Serials.put_ne ha _ _⟩
    · rw [hio (serialInb_rbr hv.nonnull hd hrbr hq), SerialFifos.command, if_pos hreg]
    · rw [SerialFifos.command, if_pos hreg]
      exact ⟨_, Serials.put_self .., hbase, hguest, hs, hr⟩
  · have hrbr : c.register reg - serial.port ≠ rbr := by
      rw [hsub]
      exact fun he => hreg ((offset_eq_iff reg 0).mp he)
    have hlsr : c.register reg - serial.port = lsr ↔ reg = 5 := by
      rw [hsub]
      exact offset_eq_iff reg 5
    refine ⟨devs, ?_, ?_, fun _ _ => rfl⟩
    · rw [hio (serialInb_other hv.nonnull hd hrbr), SerialFifos.command, if_neg hreg,
        lineStatus_eq hh]
      simp only [hlsr]
      rfl
    · rw [SerialFifos.command, if_neg hreg]
      exact ⟨serial, hd, hbase, hguest, hhs, hh⟩

/-- **A command moves the FIFOs of its device**, answers from them, and touches no other
block. -/
theorem command_spec (hw : c.Wired table) (hv : c.Valid) {f : SerialFifos c.size}
    (h : c.Holds devs f) (cmd : SerialCommand) :
    ∃ devs', c.command table devs cmd = .ok (devs', (f.command cmd).2) ∧
      c.Holds devs' (f.command cmd).1 ∧ ∀ a, a ≠ c.address → devs' a = devs a := by
  cases cmd with
  | outb reg data => exact outb_spec hw hv h reg data
  | inb reg => exact inb_spec hw hv h reg
  | read len =>
      obtain ⟨serial, hd, hbase, ⟨hgs, hg⟩, hhost⟩ := h
      obtain ⟨q, hq, hs, hr⟩ := queueRead_fifo hgs hg len
      refine ⟨devs.put c.address { serial with guestQueue := q }, ?_,
        ⟨_, Serials.put_self .., hbase, ⟨hs, hr⟩, hhost⟩, fun a ha => Serials.put_ne ha _ _⟩
      simp only [command, serialRead, Serials.deref_ok hd, ok_bind, hq, SerialFifos.command]
  | write buffer =>
      obtain ⟨serial, hd, hbase, hguest, ⟨hhs, hh⟩⟩ := h
      obtain ⟨q, hq, hs, hr⟩ := queueWrite_fifo hhs hh buffer
      refine ⟨devs.put c.address { serial with hostQueue := q }, ?_,
        ⟨_, Serials.put_self .., hbase, hguest, hs, hr⟩, fun a ha => Serials.put_ne ha _ _⟩
      simp only [command, serialWrite, Serials.deref_ok hd, ok_bind, hq, SerialFifos.command]

/-! ## Creation -/

theorem serialNew_spec (hv : c.Valid) (table : HandlerTable Unit Serials) (devs : Serials) :
    ∃ table' devs', serialNew table devs c.port c.size c.blocks =
        .ok (some c.address, table', devs') ∧
      c.Wired table' ∧ c.Holds devs' (.empty c.size) ∧
      (∀ port, (∀ reg, port ≠ c.register reg) → table' port = table port) ∧
      ∀ a, a ≠ c.address → devs' a = devs a := by
  have hports : ∀ r ∈ (serialRegistrations c.port c.address : List (UInt16 × Handler Unit Serials)),
      ∃ reg : Fin 8, r.1 = c.register reg := by
    intro r hr
    obtain ⟨i, hi, rfl⟩ := List.mem_map.mp hr
    exact ⟨⟨i, List.mem_range.mp hi⟩, rfl⟩
  obtain ⟨table', hall⟩ : ∃ table', (serialRegistrations c.port c.address).foldlM
      (fun t r => ioRegisterHandler t r.1 r.2) table = .ok table' := by
    refine ⟨_, HandlerTable.register_all (fun r hr => ?_) table⟩
    obtain ⟨reg, hreg⟩ := hports r hr
    exact hreg ▸ register_ne hv reg
  obtain ⟨guestQueue, hg⟩ : ∃ q, queueNew c.size true (some c.guestBlock) = some q := ⟨_, rfl⟩
  obtain ⟨hostQueue, hh⟩ : ∃ q, queueNew c.size true (some c.hostBlock) = some q := ⟨_, rfl⟩
  have hnew : serialNew table devs c.port c.size c.blocks = .ok (some c.address, table',
      devs.put c.address { port := c.port, guestQueue, hostQueue }) := by
    simp only [serialNew, blocks, hg, hh, hall, ok_bind]
  obtain ⟨-, hentry⟩ := serialNew_ok hnew
  refine ⟨table', _, hnew, fun reg => (hentry reg.val reg.isLt).2,
    ⟨_, Serials.put_self .., rfl, Queue.represents_of_new hv.size_pos hg,
      Queue.represents_of_new hv.size_pos hh⟩, fun port hport => ?_,
    fun a ha => Serials.put_ne ha _ _⟩
  obtain ⟨-, rfl⟩ := HandlerTable.register_all_ok hall
  refine HandlerTable.foldl_update_other fun hmem => ?_
  obtain ⟨r, hr, he⟩ := List.mem_map.mp hmem
  obtain ⟨reg, hreg⟩ := hports r hr
  exact hport reg (he.symm.trans hreg)

theorem Apart.register_ne (h : c.Apart d) (hc : c.Valid) (hd : d.Valid) (reg reg' : Fin 8) :
    c.register reg ≠ d.register reg' := by
  intro he
  have heq := congrArg UInt16.toNat he
  rw [register_toNat hc, register_toNat hd] at heq
  have hreg := reg.isLt
  have hreg' := reg'.isLt
  rcases h.2 with hle | hle <;> omega

/-- A device stays as it is while others are created. -/
theorem serialNewAll_keeps {rest : List SerialConfig} (hc : c.Valid) (hv : ∀ d ∈ rest, d.Valid)
    (ha : ∀ d ∈ rest, c.Apart d) (hw : c.Wired table) {f : SerialFifos c.size}
    (h : c.Holds devs f) {table' : HandlerTable Unit Serials} {devs' : Serials}
    (hall : serialNewAll rest table devs = .ok (table', devs')) :
    c.Wired table' ∧ c.Holds devs' f := by
  induction rest generalizing table devs with
  | nil =>
      cases hall
      exact ⟨hw, h⟩
  | cons d rest ih =>
      obtain ⟨hvd, hvrest⟩ := List.forall_mem_cons.mp hv
      obtain ⟨had, harest⟩ := List.forall_mem_cons.mp ha
      obtain ⟨table₁, devs₁, hnew, -, -, htable, hdevs⟩ := serialNew_spec hvd table devs
      rw [serialNewAll, hnew, ok_bind] at hall
      refine ih hvrest harest (fun reg => ?_) (h.congr (hdevs _ had.1)) hall
      rw [htable _ fun reg' => had.register_ne hc hvd reg reg', hw reg]

/-- All devices are created, each with its ports and empty queues. -/
theorem serialNewAll_spec {configs : List SerialConfig} (hv : ∀ c ∈ configs, c.Valid)
    (ha : configs.Pairwise Apart) (table : HandlerTable Unit Serials) (devs : Serials) :
    ∃ table' devs', serialNewAll configs table devs = .ok (table', devs') ∧
      ∀ c ∈ configs, c.Wired table' ∧ c.Holds devs' (.empty c.size) := by
  induction configs generalizing table devs with
  | nil => exact ⟨table, devs, rfl, fun _ hc => absurd hc List.not_mem_nil⟩
  | cons c rest ih =>
      obtain ⟨hvc, hvrest⟩ := List.forall_mem_cons.mp hv
      obtain ⟨hac, harest⟩ := List.pairwise_cons.mp ha
      obtain ⟨table₁, devs₁, hnew, hw, hh, -, -⟩ := serialNew_spec hvc table devs
      obtain ⟨table', devs', hall, hrest⟩ := ih hvrest harest table₁ devs₁
      refine ⟨table', devs', by rw [serialNewAll, hnew, ok_bind]; exact hall, ?_⟩
      refine List.forall_mem_cons.mpr ⟨?_, hrest⟩
      exact serialNewAll_keeps hvc hvrest hac hw hh hall

end SerialConfig

/-- **Serial devices are independent pairs of bounded FIFOs.**  Any devices created by
`serial_new` with queues of a byte or more, at different addresses and on disjoint ports
below `0xFFFF`, answer every sequence of accesses of the guest and calls of the host as a
family of independent pairs of FIFOs does, and are left with its bytes in their queues. -/
theorem serial_family_refines_fifos {configs : List SerialConfig} (hv : ∀ c ∈ configs, c.Valid)
    (ha : configs.Pairwise SerialConfig.Apart) (table : HandlerTable Unit Serials)
    (devs : Serials) :
    ∃ table' devs', serialNewAll configs table devs = .ok (table', devs') ∧
      ∀ events : List (Fin configs.length × SerialCommand),
        let run := traceTotal (familySpec fun _ => SerialFifos.command)
          (fun i => SerialFifos.empty (configs.get i).size) events
        ∃ devs'', trace (serialStep configs table') devs' events = .ok (devs'', run.2) ∧
          ∀ i, ∃ serial, devs'' (configs.get i).address = some serial ∧
            serial.guestQueue.contents = (run.1 i).guest.items ∧
            serial.hostQueue.contents = (run.1 i).host.items := by
  obtain ⟨table', devs', hall, hcreated⟩ := SerialConfig.serialNewAll_spec hv ha table devs
  refine ⟨table', devs', hall, fun events => ?_⟩
  have haddress : ∀ i j : Fin configs.length, j ≠ i →
      (configs.get j).address ≠ (configs.get i).address := by
    intro i j hij
    rcases Nat.lt_or_gt_of_ne fun he => hij (Fin.ext he) with hlt | hgt
    · exact (List.pairwise_iff_get.mp ha j i hlt).1
    · exact (List.pairwise_iff_get.mp ha i j hgt).1.symm
  have sim : ∀ i devs (f : SerialFifos (configs.get i).size) cmd, (configs.get i).Holds devs f →
      ∃ devs₁, serialStep configs table' devs (i, cmd) = .ok (devs₁, (f.command cmd).2) ∧
        (configs.get i).Holds devs₁ (f.command cmd).1 ∧
        ∀ j, j ≠ i → ∀ b, (configs.get j).Holds devs b → (configs.get j).Holds devs₁ b := by
    intro i devs f cmd h
    have hmem := List.get_mem configs i
    obtain ⟨devs₁, he, h₁, hother⟩ :=
      SerialConfig.command_spec (hcreated _ hmem).1 (hv _ hmem) h cmd
    exact ⟨devs₁, he, h₁, fun j hj b hb => hb.congr (hother _ (haddress i j hj))⟩
  obtain ⟨devs'', htrace, hholds⟩ := trace_simulates_family (fun _ => SerialFifos.command) _ sim
    (fun i => (hcreated _ (List.get_mem configs i)).2) events
  refine ⟨devs'', htrace, fun i => ?_⟩
  obtain ⟨serial, hd, -, ⟨-, hg⟩, ⟨-, hh⟩⟩ := hholds i
  exact ⟨serial, hd, hg.contents_eq, hh.contents_eq⟩

/-- Two devices, with queues of one byte and of two. -/
theorem serial_family_refines_fifos_two :
    let configs : List SerialConfig :=
      [⟨0x3F8, 1, 0x1000, #v[0], #v[0]⟩, ⟨0x2F8, 2, 0x2000, #v[0, 0], #v[0, 0]⟩]
    ∃ table' devs', serialNewAll configs HandlerTable.zero (fun _ => none) = .ok (table', devs') ∧
      ∀ events : List (Fin configs.length × SerialCommand),
        let run := traceTotal (familySpec fun _ => SerialFifos.command)
          (fun i => SerialFifos.empty (configs.get i).size) events
        ∃ devs'', trace (serialStep configs table') devs' events = .ok (devs'', run.2) ∧
          ∀ i, ∃ serial, devs'' (configs.get i).address = some serial ∧
            serial.guestQueue.contents = (run.1 i).guest.items ∧
            serial.hostQueue.contents = (run.1 i).host.items := by
  intro configs
  refine serial_family_refines_fifos ?_ ?_ HandlerTable.zero fun _ => none
  · intro c hc
    rcases List.mem_cons.mp hc with rfl | hc
    · exact ⟨by decide, by decide, by decide⟩
    · rw [List.mem_singleton.mp hc]
      exact ⟨by decide, by decide, by decide⟩
  · refine List.pairwise_pair.mpr ⟨by decide, Or.inr (by decide)⟩

end BlackHV
