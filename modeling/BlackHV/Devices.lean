import BlackHV.AtapiBounds
import BlackHV.IoExit
import BlackHV.SerialFamily

/-! # The devices of a process

The port table is one array, shared by the serial ports and the disk; each handler works on
the variables of its own device.  `Handler.on` puts a handler written for the state of one
device into a process with several, and `ioHandle_on` says that it does there what it does
alone.
-/
namespace BlackHV

/-- A part of a state, and how it is replaced. -/
structure Part (State Local : Type) where
  get : State → Local
  put : State → Local → State
  get_put : ∀ s l, get (put s l) = l
  put_get : ∀ s, put s (get s) = s

/-- The state of all devices: the serial ports, and the variables of the disk. -/
structure Devices where
  serials : Serials
  atapi : Atapi

namespace Devices

def serialPart : Part Devices Serials where
  get := serials
  put := fun s serials => { s with serials }
  get_put := fun _ _ => rfl
  put_get := fun _ => rfl

def diskPart : Part Devices Atapi where
  get := atapi
  put := fun s atapi => { s with atapi }
  get_put := fun _ _ => rfl
  put_get := fun _ => rfl

end Devices

section On
variable {Env Env' State Local : Type}

/-- A handler of one device, in a process with others.  `env` is what the device sees of the
answers of the operating system. -/
def Handler.on (part : Part State Local) (env : Env → Env') (hdl : Handler Env' Local) :
    Handler Env State where
  params := hdl.params
  outbHandler := hdl.outbHandler.map fun f e port data params s => do
    let l ← f (env e) port data params (part.get s)
    .ok (part.put s l)
  outwHandler := hdl.outwHandler.map fun f e port data params s => do
    let l ← f (env e) port data params (part.get s)
    .ok (part.put s l)
  inbHandler := hdl.inbHandler.map fun f e port params s => do
    let (b, l) ← f (env e) port params (part.get s)
    .ok (b, part.put s l)
  inwHandler := hdl.inwHandler.map fun f e port params s => do
    let (w, l) ← f (env e) port params (part.get s)
    .ok (w, part.put s l)

variable {part : Part State Local} {env : Env → Env'} {table : HandlerTable Env State}
  {alone : HandlerTable Env' Local} {e : Env} {s : State}

/-- A call of the handler in the process is a call of the handler alone. -/
theorem PortAccess.called_on (a : PortAccess) (hdl : Handler Env' Local) :
    (a.called (hdl.on part env) e s).getD (.ok (s, a.unhandled)) =
      ((a.called hdl (env e) (part.get s)).getD (.ok (part.get s, a.unhandled)) >>= fun r =>
        .ok (part.put s r.1, r.2)) := by
  cases a with
  | outb port data =>
      cases hf : hdl.outbHandler with
      | none => simp [PortAccess.called, Handler.on, hf, part.put_get]
      | some f =>
          simp only [PortAccess.called, Handler.on, hf, Option.map_some, Option.getD_some]
          cases f (env e) port data hdl.params (part.get s) <;> rfl
  | outw port data =>
      cases hf : hdl.outwHandler with
      | none => simp [PortAccess.called, Handler.on, hf, part.put_get]
      | some f =>
          simp only [PortAccess.called, Handler.on, hf, Option.map_some, Option.getD_some]
          cases f (env e) port data hdl.params (part.get s) <;> rfl
  | inb port =>
      cases hf : hdl.inbHandler with
      | none => simp [PortAccess.called, Handler.on, hf, part.put_get]
      | some f =>
          simp only [PortAccess.called, Handler.on, hf, Option.map_some, Option.getD_some]
          cases f (env e) port hdl.params (part.get s) <;> rfl
  | inw port =>
      cases hf : hdl.inwHandler with
      | none => simp [PortAccess.called, Handler.on, hf, part.put_get]
      | some f =>
          simp only [PortAccess.called, Handler.on, hf, Option.map_some, Option.getD_some]
          cases f (env e) port hdl.params (part.get s) <;> rfl

/-- **An access at a port of a device does to the device what it does to it alone**, and
nothing to the others. -/
theorem ioHandle_on {a : PortAccess} (ha : a.port ≠ 0xFFFF)
    (h : table a.port = (alone a.port).on part env) :
    ioHandle table e s a = (ioHandle alone (env e) (part.get s) a >>= fun r =>
      .ok (part.put s r.1, r.2)) := by
  rw [ioHandle_eq ha, ioHandle_eq ha, h, PortAccess.called_on]

/-- What KVM promises of an exit: a direction, and elements of one, two or four bytes, at
least one of them, all inside the block. -/
structure KvmIo.Promised (io : KvmIo) (run : List UInt8) : Prop where
  direction : io.direction = kvmExitIoOut ∨ io.direction = kvmExitIoIn
  size : io.size = 1 ∨ io.size = 2 ∨ io.size = 4
  count : 1 ≤ io.count.toNat
  inside : io.dataOffset + io.count.toNat * io.size.toNat ≤ run.length

theorem KvmIo.Promised.valid_or {io : KvmIo} {run : List UInt8} (h : io.Promised run) :
    io.Valid run ∨ io.size = 4 := by
  rcases h.size with h1 | h2 | h4
  · exact Or.inl ⟨h.direction, Or.inl h1, h.count, h.inside⟩
  · exact Or.inl ⟨h.direction, Or.inr h2, h.count, h.inside⟩
  · exact Or.inr h4

/-- An exit of four bytes is not handled. -/
theorem handleExitIo_four {io : KvmIo} (h : io.size = 4) (table : HandlerTable Env State)
    (e : Env) (run : List UInt8) (s : State) : handleExitIo table e io run s = .ok (s, run) := by
  have h1 : ¬ (4 : UInt8) = 1 := by decide
  have h2 : ¬ (4 : UInt8) = 2 := by decide
  simp only [handleExitIo, h, h1, h2, if_false]
  split
  · rfl
  · split <;> rfl

/-- **An exit at a port of a device is handled as if the device were alone.** -/
theorem handleExitIo_on {io : KvmIo} {run : List UInt8} (h : io.Promised run)
    (hport : io.port ≠ 0xFFFF) (ht : table io.port = (alone io.port).on part env) :
    handleExitIo table e io run s = (handleExitIo alone (env e) io run (part.get s) >>= fun r =>
      .ok (part.put s r.1, r.2)) := by
  rcases h.valid_or with hv | h4
  · have haccess := io.access_port run 0
    rw [KvmIo.handleExitIo_eq_first hv, KvmIo.handleExitIo_eq_first hv,
      ioHandle_on (a := io.access run 0) (by rw [haccess]; exact hport) (by rw [haccess]; exact ht)]
    cases ioHandle alone (env e) (part.get s) (io.access run 0) <;> rfl
  · rw [handleExitIo_four h4, handleExitIo_four h4, ok_bind, part.put_get]

/-- Nothing handles an exit at a port without functions. -/
theorem handleExitIo_zero {io : KvmIo} {run : List UInt8} (h : io.Promised run)
    (hport : io.port ≠ 0xFFFF) (ht : table io.port = {}) :
    handleExitIo table e io run s = .ok (s, run) := by
  rcases h.valid_or with hv | h4
  · have haccess := io.access_port run 0
    have hne : (io.access run 0).port ≠ 0xFFFF := by
      rw [haccess]
      exact hport
    have hput : io.put run 0 (io.access run 0).unhandled = run := by
      cases io.access run 0 <;> rfl
    have hcalled : (io.access run 0).called ({} : Handler Env State) e s = none := by
      cases io.access run 0 <;> rfl
    rw [KvmIo.handleExitIo_eq_first hv, ioHandle_eq hne, haccess, ht, hcalled, Option.getD_none,
      ok_bind, hput]
  · exact handleExitIo_four h4 table e run s

end On

/-! ## Start-up -/

/-- `serial_new` in a process with all devices. -/
def serialNewIn (table : HandlerTable Disk Devices) (s : Devices) (port : UInt16)
    (internalBufferSize : Nat) (blocks : SerialBlocks internalBufferSize) :
    Except Fault (Option UInt64 × HandlerTable Disk Devices × Devices) :=
  match blocks.serial with
  | none => .ok (none, table, s)
  | some address =>
      match queueNew internalBufferSize blocks.guestQueue.1 blocks.guestQueue.2,
        queueNew internalBufferSize blocks.hostQueue.1 blocks.hostQueue.2 with
      | some guestQueue, some hostQueue => do
          let table ← (serialRegistrations port address).foldlM
            (fun t r => ioRegisterHandler t r.1 (r.2.on Devices.serialPart fun _ => ())) table
          let serials := s.serials.put address { port, guestQueue, hostQueue }
          .ok (some address, table, { s with serials })
      | _, _ => .ok (none, table, s)

/-- `serial_new` for one device after the other, in a process with all devices. -/
def serialNewAllIn : List SerialConfig → HandlerTable Disk Devices → Devices →
    Except Fault (HandlerTable Disk Devices × Devices)
  | [], table, s => .ok (table, s)
  | c :: rest, table, s => do
      let (_, table, s) ← serialNewIn table s c.port c.size c.blocks
      serialNewAllIn rest table s

/-- `atapi_init` in a process with all devices. -/
def atapiInitIn (table : HandlerTable Disk Devices) (diskFd : Int32) :
    Except Fault (HandlerTable Disk Devices) :=
  (atapiRegistrations diskFd).foldlM
    (fun t r => ioRegisterHandler t r.1 (r.2.on Devices.diskPart id)) table

/-- The serial ports are created, and then the disk. -/
def startDevices (configs : List SerialConfig) (diskFd : Int32) :
    Except Fault (HandlerTable Disk Devices × Devices) := do
  let (table, s) ← serialNewAllIn configs HandlerTable.zero
    { serials := fun _ => none, atapi := Atapi.start }
  let table ← atapiInitIn table diskFd
  .ok (table, s)

/-- The ports that `atapi_init` registers handlers at. -/
def atapiPorts : List UInt16 := (atapiRegistrations 0).map Prod.fst

/-- The ports of a serial device are not those of the disk. -/
def SerialConfig.AvoidsDisk (c : SerialConfig) : Prop := ∀ reg, c.register reg ∉ atapiPorts

instance (c : SerialConfig) : Decidable c.AvoidsDisk :=
  inferInstanceAs (Decidable (∀ reg, c.register reg ∉ atapiPorts))

section Start
variable {Env Env' State Local : Type} {part : Part State Local} {env : Env → Env'}

/-- At a port of a device, the table is that of the device alone. -/
theorem foldl_update_on {rs : List (UInt16 × Handler Env' Local)}
    {table : HandlerTable Env State} {alone : HandlerTable Env' Local} {port : UInt16}
    (h : port ∈ rs.map Prod.fst ∨ table port = (alone port).on part env) :
    rs.foldl (fun t r => t.update r.1 (r.2.on part env)) table port =
      (rs.foldl (fun t r => t.update r.1 r.2) alone port).on part env := by
  induction rs generalizing table alone with
  | nil => exact h.resolve_left List.not_mem_nil
  | cons r rs ih =>
      refine ih ?_
      by_cases hr : port = r.1
      · subst hr
        exact Or.inr ((if_pos rfl).trans (congrArg (Handler.on part env) (if_pos rfl).symm))
      · rcases h with hmem | ht
        · exact Or.inl ((List.mem_cons.mp hmem).resolve_left hr)
        · exact Or.inr ((if_neg hr).trans (ht.trans (congrArg _ (if_neg hr).symm)))

/-- The entries after handlers of one device have been registered: theirs, and those from
before at the other ports. -/
theorem register_all_on (part : Part State Local) (env : Env → Env')
    {rs : List (UInt16 × Handler Env' Local)} (h : ∀ r ∈ rs, r.1 ≠ 0xFFFF)
    (table : HandlerTable Env State) :
    ∃ table', rs.foldlM (fun t r => ioRegisterHandler t r.1 (r.2.on part env)) table = .ok table' ∧
      (∀ port, port ∉ rs.map Prod.fst → table' port = table port) ∧
      ∀ port, port ∈ rs.map Prod.fst → table' port =
        (rs.foldl (fun t r => t.update r.1 r.2) HandlerTable.zero port).on part env := by
  have hports : ∀ r ∈ rs.map fun r => (r.1, r.2.on part env), r.1 ≠ 0xFFFF := by
    intro r hr
    obtain ⟨r', hr', rfl⟩ := List.mem_map.mp hr
    exact h r' hr'
  have hall := HandlerTable.register_all hports table
  rw [List.foldlM_map, List.foldl_map] at hall
  refine ⟨_, hall, fun port hport => ?_, fun port hport => foldl_update_on (Or.inl hport)⟩
  have hother : (rs.map fun r => (r.1, r.2.on part env)).foldl (fun t r => t.update r.1 r.2)
      table port = table port := HandlerTable.foldl_update_other (by rwa [List.map_map])
  rwa [List.foldl_map] at hother

end Start

/-- The functions of a serial device, in the process. -/
def serialOn (address : UInt64) : Handler Disk Devices :=
  (serialHandler address : Handler Unit Serials).on Devices.serialPart fun _ => ()

/-- The device that `serial_new` returns is in the block that `malloc` gave it. -/
theorem serialNew_address {Env : Type} {table table' : HandlerTable Env Serials}
    {devs devs' : Serials} {port : UInt16} {n : Nat} {blocks : SerialBlocks n} {address : UInt64}
    (h : serialNew table devs port n blocks = .ok (some address, table', devs')) :
    blocks.serial = some address := by
  unfold serialNew at h
  split at h
  · cases h
  · rename_i address' hb
    split at h
    · obtain ⟨t, -, he⟩ := bind_eq_ok.mp h
      cases he
      exact hb
    · cases h

/-- **`serial_new` does in the process what it does alone**: the same block, and its handlers
at the device's ports. -/
theorem serialNewIn_of_serialNew {s : Devices} {port : UInt16} {n : Nat} {blocks : SerialBlocks n}
    {address : UInt64} {alone : HandlerTable Unit Serials} {serials : Serials}
    (h : serialNew HandlerTable.zero s.serials port n blocks = .ok (some address, alone, serials))
    (table : HandlerTable Disk Devices) :
    ∃ table', serialNewIn table s port n blocks =
        .ok (some address, table', { s with serials }) ∧
      (∀ i, i < 8 → table' (port + UInt16.ofNat i) = serialOn address) ∧
      ∀ p, (∀ i, i < 8 → p ≠ port + UInt16.ofNat i) → table' p = table p := by
  have hblock := serialNew_address h
  obtain ⟨⟨guestQueue, hostQueue, hg, hh, rfl⟩, hentry⟩ := serialNew_ok h
  have hmem : ∀ p,
      p ∈ (serialRegistrations port address : List (UInt16 × Handler Unit Serials)).map Prod.fst ↔
        ∃ i, i < 8 ∧ p = port + UInt16.ofNat i := by
    intro p
    simp only [serialRegistrations, List.map_map, List.mem_map, List.mem_range, Function.comp]
    exact ⟨fun ⟨i, hi, he⟩ => ⟨i, hi, he.symm⟩, fun ⟨i, hi, he⟩ => ⟨i, hi, he.symm⟩⟩
  have hports : ∀ r ∈ (serialRegistrations port address : List (UInt16 × Handler Unit Serials)),
      r.1 ≠ 0xFFFF := by
    intro r hr
    obtain ⟨i, hi, he⟩ := (hmem r.1).mp (List.mem_map_of_mem hr)
    rw [he]
    exact (hentry i hi).1
  obtain ⟨table', hall, hother, hown⟩ :=
    register_all_on Devices.serialPart (fun _ : Disk => ()) hports table
  refine ⟨table', ?_, fun i hi => ?_, fun p hp => hother p fun hm => ?_⟩
  · simp only [serialNewIn, hblock, hg, hh, hall, ok_bind]
  · have hp := (hmem _).mpr ⟨i, hi, rfl⟩
    rw [hown _ hp]
    refine congrArg (Handler.on Devices.serialPart fun _ => ()) ?_
    refine HandlerTable.foldl_update_same (fun r hr => ?_) (Or.inl hp)
    obtain ⟨_, -, rfl⟩ := List.mem_map.mp hr
    rfl
  · obtain ⟨i, hi, he⟩ := (hmem p).mp hm
    exact hp i hi he

namespace SerialConfig
variable {c d : SerialConfig}

/-- The ports of the device dispatch to it, in the process. -/
def WiredIn (c : SerialConfig) (table : HandlerTable Disk Devices) : Prop :=
  ∀ reg, table (c.register reg) = serialOn c.address

/-- A device is created in the process: its ports dispatch to it, its queues are empty, and
nothing else changes. -/
theorem serialNewIn_spec (hv : c.Valid) (table : HandlerTable Disk Devices) (s : Devices) :
    ∃ table' s', serialNewIn table s c.port c.size c.blocks = .ok (some c.address, table', s') ∧
      c.WiredIn table' ∧ c.Holds s'.serials (.empty c.size) ∧
      (∀ port, (∀ reg, port ≠ c.register reg) → table' port = table port) ∧
      (∀ a, a ≠ c.address → s'.serials a = s.serials a) ∧ s'.atapi = s.atapi := by
  obtain ⟨_, serials, hnew, -, hholds, -, hblocks⟩ :=
    serialNew_spec hv HandlerTable.zero s.serials
  obtain ⟨table', hin, hown, hother⟩ := serialNewIn_of_serialNew hnew table
  exact ⟨table', _, hin, fun reg => hown reg.val reg.isLt, hholds,
    fun port hport => hother port fun i hi => hport ⟨i, hi⟩, hblocks, rfl⟩

/-- A device stays as it is while others are created in the process. -/
theorem serialNewAllIn_keeps {rest : List SerialConfig} (hc : c.Valid)
    (hv : ∀ d ∈ rest, d.Valid) (ha : ∀ d ∈ rest, c.Apart d)
    {table table' : HandlerTable Disk Devices} {s s' : Devices} (hw : c.WiredIn table)
    {f : SerialFifos c.size} (h : c.Holds s.serials f)
    (hall : serialNewAllIn rest table s = .ok (table', s')) :
    c.WiredIn table' ∧ c.Holds s'.serials f := by
  induction rest generalizing table s with
  | nil =>
      cases hall
      exact ⟨hw, h⟩
  | cons d rest ih =>
      obtain ⟨hvd, hvrest⟩ := List.forall_mem_cons.mp hv
      obtain ⟨had, harest⟩ := List.forall_mem_cons.mp ha
      obtain ⟨table₁, s₁, hnew, -, -, htable, hdevs, -⟩ := serialNewIn_spec hvd table s
      rw [serialNewAllIn, hnew, ok_bind] at hall
      refine ih hvrest harest (fun reg => ?_) (h.congr (hdevs _ had.1)) hall
      rw [htable _ fun reg' => had.register_ne hc hvd reg reg', hw reg]

/-- All devices are created in the process. -/
theorem serialNewAllIn_spec {configs : List SerialConfig} (hv : ∀ c ∈ configs, c.Valid)
    (ha : configs.Pairwise Apart) (table : HandlerTable Disk Devices) (s : Devices) :
    ∃ table' s', serialNewAllIn configs table s = .ok (table', s') ∧ s'.atapi = s.atapi ∧
      (∀ c ∈ configs, c.WiredIn table' ∧ c.Holds s'.serials (.empty c.size)) ∧
      ∀ port, (∀ c ∈ configs, ∀ reg, port ≠ c.register reg) → table' port = table port := by
  induction configs generalizing table s with
  | nil => exact ⟨table, s, rfl, rfl, fun _ hc => absurd hc List.not_mem_nil, fun _ _ => rfl⟩
  | cons c rest ih =>
      obtain ⟨hvc, hvrest⟩ := List.forall_mem_cons.mp hv
      obtain ⟨hac, harest⟩ := List.pairwise_cons.mp ha
      obtain ⟨table₁, s₁, hnew, hw, hh, hother, -, hdisk⟩ := serialNewIn_spec hvc table s
      obtain ⟨table', s', hall, hdisk', hrest, hports⟩ := ih hvrest harest table₁ s₁
      refine ⟨table', s', by rw [serialNewAllIn, hnew, ok_bind]; exact hall, hdisk'.trans hdisk,
        List.forall_mem_cons.mpr ⟨serialNewAllIn_keeps hvc hvrest hac hw hh hall, hrest⟩, ?_⟩
      intro port hport
      obtain ⟨hc, hrest⟩ := List.forall_mem_cons.mp hport
      rw [hports port hrest, hother port hc]

end SerialConfig

/-- What the table dispatches to after start-up. -/
structure DeviceTable (configs : List SerialConfig) (diskFd : Int32)
    (table : HandlerTable Disk Devices) : Prop where
  serial : ∀ c ∈ configs, c.WiredIn table
  disk : ∀ port ∈ atapiPorts, table port = (atapiTable diskFd port).on Devices.diskPart id
  other : ∀ port, (∀ c ∈ configs, ∀ reg, port ≠ c.register reg) → port ∉ atapiPorts →
    table port = {}

/-- **Start-up.**  Every device gets its ports, the disk its own, and no other port a
handler. -/
theorem startDevices_spec {configs : List SerialConfig} (hv : ∀ c ∈ configs, c.Valid)
    (ha : configs.Pairwise SerialConfig.Apart) (hdisk : ∀ c ∈ configs, c.AvoidsDisk)
    (diskFd : Int32) :
    ∃ table s, startDevices configs diskFd = .ok (table, s) ∧
      DeviceTable configs diskFd table ∧ s.atapi = Atapi.start ∧
      ∀ c ∈ configs, c.Holds s.serials (.empty c.size) := by
  obtain ⟨table₁, s, hserials, hatapi, hcreated, hother₁⟩ := SerialConfig.serialNewAllIn_spec hv ha
    HandlerTable.zero { serials := fun _ => none, atapi := Atapi.start }
  have hports : ∀ r ∈ atapiRegistrations diskFd, r.1 ≠ 0xFFFF :=
    (HandlerTable.register_all_ok (atapiInit_zero diskFd)).1
  obtain ⟨table, hall, hother, hown⟩ :=
    register_all_on Devices.diskPart id hports table₁
  have hsame : (atapiRegistrations diskFd).map Prod.fst = atapiPorts := rfl
  rw [hsame] at hother hown
  refine ⟨table, s, ?_, ⟨fun c hc reg => ?_, hown, fun port hserial hdisk' => ?_⟩, hatapi,
    fun c hc => (hcreated c hc).2⟩
  · simp only [startDevices, hserials, ok_bind, atapiInitIn, hall]
  · rw [hother _ (hdisk c hc reg), (hcreated c hc).1 reg]
  · rw [hother port hdisk', hother₁ port hserial]
    rfl

end BlackHV
