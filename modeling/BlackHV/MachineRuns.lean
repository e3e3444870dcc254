import BlackHV.Machine

/-! # Every device as if it were alone

The process of `Machine` behaves as the family of its devices, whatever the guest does and
however its exits are interleaved with the calls of other threads.
-/
namespace BlackHV

open Runs

/-! ## Ports -/

section Owner
variable {configs : List SerialConfig} {port : UInt16}

/-- The owner of a port has it among its ports. -/
theorem portOwner_serial {i : Fin configs.length} (h : portOwner configs port = .serial i) :
    ∃ reg, port = (configs.get i).register reg := by
  unfold portOwner at h
  split at h
  · rename_i j hj
    cases h
    have hdecide := List.find?_some hj
    exact of_decide_eq_true hdecide
  · split at h <;> cases h

/-- It is the only one. -/
theorem portOwner_register (hv : ∀ c ∈ configs, c.Valid)
    (ha : configs.Pairwise SerialConfig.Apart) (i : Fin configs.length) (reg : Fin 8) :
    portOwner configs ((configs.get i).register reg) = .serial i := by
  unfold portOwner
  split
  · rename_i j hj
    have hdecide := List.find?_some hj
    obtain ⟨reg', he⟩ := of_decide_eq_true hdecide
    rcases Nat.lt_trichotomy i.val j.val with hlt | heq | hgt
    · exact absurd he ((List.pairwise_iff_get.mp ha i j hlt).register_ne
        (hv _ (List.get_mem ..)) (hv _ (List.get_mem ..)) reg reg')
    · rw [Fin.ext heq]
    · exact absurd he.symm ((List.pairwise_iff_get.mp ha j i hgt).register_ne
        (hv _ (List.get_mem ..)) (hv _ (List.get_mem ..)) reg' reg)
  · rename_i hnone
    exact absurd ⟨reg, rfl⟩ (of_decide_eq_false (Bool.eq_false_iff.mpr
      (List.find?_eq_none.mp hnone i (List.mem_finRange i))))

theorem portOwner_disk (h : portOwner configs port = .disk) : port ∈ atapiPorts := by
  unfold portOwner at h
  split at h
  · cases h
  · split at h
    · assumption
    · cases h

theorem portOwner_other (h : portOwner configs port = .other) :
    (∀ c ∈ configs, ∀ reg, port ≠ c.register reg) ∧ port ∉ atapiPorts := by
  unfold portOwner at h
  split at h
  · cases h
  · rename_i hnone
    split at h
    · cases h
    · rename_i hdisk
      refine ⟨fun c hc reg he => ?_, hdisk⟩
      obtain ⟨i, rfl⟩ := List.get_of_mem hc
      exact of_decide_eq_false (Bool.eq_false_iff.mpr
        (List.find?_eq_none.mp hnone i (List.mem_finRange i))) ⟨reg, he⟩

end Owner

/-! ## A serial port -/

namespace SerialConfig
variable {c : SerialConfig} {table : HandlerTable Unit Serials} {devs : Serials}
  {f : SerialFifos c.size}

/-- The table in which every port is one of the device. -/
def onlyTable (c : SerialConfig) : HandlerTable Unit Serials := fun _ => serialHandler c.address

theorem wired_onlyTable (c : SerialConfig) : c.Wired c.onlyTable := fun _ => rfl

theorem regOf_register (c : SerialConfig) (reg : Fin 8) : c.regOf (c.register reg) = reg := by
  have hk : ∀ k : Fin 8, (UInt16.ofNat k.val).toNat % 8 = k.val := by decide
  apply Fin.ext
  show (c.register reg - c.port).toNat % 8 = reg.val
  rw [register_sub]
  exact hk reg

/-- An access to a register is the command for it. -/
theorem access_spec (hw : c.Wired table) (hv : c.Valid) (h : c.Holds devs f) {a : PortAccess}
    {reg : Fin 8} (ha : a.port = c.register reg) :
    ∃ devs', ioHandle table () devs a = .ok (devs', (f.access c a).2) ∧
      c.Holds devs' (f.access c a).1 ∧ ∀ address, address ≠ c.address →
        devs' address = devs address := by
  have hentry : table a.port = serialHandler c.address := by rw [ha, hw reg]
  have hne : a.port ≠ 0xFFFF := ha ▸ register_ne hv reg
  cases a with
  | outb port data =>
      obtain rfl : port = c.register reg := ha
      obtain ⟨devs', he, hholds, hother⟩ := outb_spec hw hv h reg data
      refine ⟨devs', ?_, ?_, hother⟩
      · rw [SerialFifos.access, regOf_register]
        obtain ⟨⟨s, handled⟩, hio, hret⟩ := bind_eq_ok.mp he
        obtain ⟨hs, hanswer⟩ := Prod.mk.inj (Except.ok.inj hret)
        simp only [ioHandle, hio, ok_bind]
        rw [← hanswer, ← hs]
        rfl
      · rw [SerialFifos.access, regOf_register]
        exact hholds
  | inb port =>
      obtain rfl : port = c.register reg := ha
      obtain ⟨devs', he, hholds, hother⟩ := inb_spec hw hv h reg
      refine ⟨devs', ?_, ?_, hother⟩
      · rw [SerialFifos.access, regOf_register]
        obtain ⟨⟨s, output⟩, hio, hret⟩ := bind_eq_ok.mp he
        obtain ⟨hs, hanswer⟩ := Prod.mk.inj (Except.ok.inj hret)
        simp only [ioHandle, hio, ok_bind]
        rw [← hanswer, ← hs]
        rfl
      · rw [SerialFifos.access, regOf_register]
        exact hholds
  | outw port data =>
      refine ⟨devs, ?_, h, fun _ _ => rfl⟩
      rw [ioHandle_eq hne, hentry]
      rfl
  | inw port =>
      refine ⟨devs, ?_, h, fun _ _ => rfl⟩
      rw [ioHandle_eq hne, hentry]
      rfl

/-- An exit at a port of the device moves its FIFOs, and no other block. -/
theorem exit_spec (hw : c.Wired table) (hv : c.Valid) (h : c.Holds devs f) {io : KvmIo}
    {run : List UInt8} (hp : io.Promised run) {reg : Fin 8} (hport : io.port = c.register reg) :
    ∃ devs', handleExitIo table () io run devs = .ok (devs', (f.exit c io run).2) ∧
      c.Holds devs' (f.exit c io run).1 ∧ ∀ address, address ≠ c.address →
        devs' address = devs address := by
  by_cases h4 : io.size = 4
  · rw [SerialFifos.exit, if_pos h4]
    exact ⟨devs, handleExitIo_four h4 _ _ run devs, h, fun _ _ => rfl⟩
  · have hvalid := hp.valid_or.resolve_right h4
    obtain ⟨devs', he, hholds, hother⟩ := access_spec hw hv h (a := io.access run 0)
      ((io.access_port run 0).trans hport)
    rw [SerialFifos.exit, if_neg h4]
    exact ⟨devs', by rw [KvmIo.handleExitIo_eq_first hvalid, he, ok_bind], hholds, hother⟩

end SerialConfig

/-- An exit keeps the offsets of the disk in bounds. -/
theorem Atapi.inBounds_exit {a : Atapi} (h : a.InBounds) (diskFd : Int32) (disk : Disk)
    {io : KvmIo} {run : List UInt8} (hp : io.Promised run) (hport : io.port ≠ 0xFFFF) :
    ∃ a' run', handleExitIo (atapiTable diskFd) disk io run a = .ok (a', run') ∧ a'.InBounds := by
  rcases hp.valid_or with hvalid | h4
  · have hne : (io.access run 0).port ≠ 0xFFFF := by
      rw [io.access_port]
      exact hport
    obtain ⟨a', answer, hio, hin⟩ : ∃ a' answer, ioHandle (atapiTable diskFd) disk a
        (io.access run 0) = .ok (a', answer) ∧ a'.InBounds := inBounds_ioHandle disk h hne
    exact ⟨a', _, by rw [KvmIo.handleExitIo_eq_first hvalid, hio, ok_bind], hin⟩
  · exact ⟨a, run, handleExitIo_four h4 _ _ run a, h⟩

/-! ## The simulation -/

/-- The devices hold what a device alone would. -/
def Related (configs : List SerialConfig) :
    (who : DeviceName configs.length) → Devices → who.State configs → Prop
  | .disk, s, a => s.atapi = a
  | .serial i, s, f => (configs.get i).Holds s.serials f
  | .other, _, _ => True

section Sim
variable {configs : List SerialConfig} {diskFd : Int32} {regions : MmioTable}
  {table : HandlerTable Disk Devices} {s : Devices}

theorem address_ne (ha : configs.Pairwise SerialConfig.Apart) {i j : Fin configs.length}
    (hij : j ≠ i) : (configs.get j).address ≠ (configs.get i).address := by
  rcases Nat.lt_or_gt_of_ne fun he => hij (Fin.ext he) with hlt | hgt
  · exact (List.pairwise_iff_get.mp ha j i hlt).1
  · exact (List.pairwise_iff_get.mp ha i j hgt).1.symm

/-- A change of one serial port leaves the other devices as they are. -/
theorem related_serial (ha : configs.Pairwise SerialConfig.Apart) {i : Fin configs.length}
    {serials : Serials}
    (hother : ∀ a, a ≠ (configs.get i).address → serials a = s.serials a)
    {who : DeviceName configs.length} (hwho : who ≠ .serial i) {a : who.State configs}
    (h : Related configs who s a) : Related configs who { s with serials } a := by
  cases who with
  | disk => exact h
  | other => exact h
  | serial j =>
      have hij : j ≠ i := fun he => hwho (he ▸ rfl)
      exact SerialConfig.Holds.congr h (hother _ (address_ne ha hij))

/-- An exit for a port access follows the device that has the port. -/
theorem exit_follows (hv : ∀ c ∈ configs, c.Valid) (ha : configs.Pairwise SerialConfig.Apart)
    (ht : DeviceTable configs diskFd table) {disk : Disk} {io : KvmIo} {run : List UInt8}
    (he : (KvmExit.io io run).Promised ∧ (KvmExit.io io run).InTable)
    {who : DeviceName configs.length} (howner : portOwner configs io.port = who)
    {a a' : who.State configs} {o : MachineAnswer}
    (hR : Related configs who s a)
    (hstep : alone configs diskFd regions who a (.exit disk (.io io run)) = .ok (a', o)) :
    ∃ s', machineStep configs table regions s (.exit disk (.io io run)) = .ok (s', o) ∧
      Related configs who s' a' ∧
      ∀ who', who' ≠ who → ∀ b, Related configs who' s b → Related configs who' s' b := by
  obtain ⟨hpromised, hport⟩ := he
  cases who with
  | disk =>
      obtain rfl : s.atapi = a := hR
      have hon := handleExitIo_on (e := disk) (s := s) hpromised hport
        (ht.disk _ (portOwner_disk howner))
      obtain ⟨⟨a₁, effect⟩, hhandle, hret⟩ := bind_eq_ok.mp hstep
      obtain ⟨⟨a₂, run'⟩, hio, heffect⟩ := bind_eq_ok.mp hhandle
      cases heffect
      cases hret
      have hio' : handleExitIo (atapiTable diskFd) (id disk) io run (Devices.diskPart.get s) =
          .ok (a', run') := hio
      rw [hio', ok_bind] at hon
      refine ⟨{ s with atapi := a' }, ?_, rfl, fun who' hwho' b h => ?_⟩
      · simp only [machineStep, handleExit, hon, ok_bind]
        rfl
      · cases who' with
        | disk => exact absurd rfl hwho'
        | serial j => exact h
        | other => exact h
  | serial i =>
      have hmem := List.get_mem configs i
      obtain ⟨reg, hreg⟩ := portOwner_serial howner
      have hentry : table io.port =
          ((configs.get i).onlyTable io.port).on Devices.serialPart fun _ => () := by
        rw [hreg]
        exact ht.serial _ hmem reg
      have hon := handleExitIo_on (e := disk) (s := s) hpromised hport hentry
      obtain ⟨serials, hio, hholds, hother⟩ :=
        SerialConfig.exit_spec (configs.get i).wired_onlyTable (hv _ hmem) hR hpromised hreg
      have hio' : handleExitIo (configs.get i).onlyTable () io run (Devices.serialPart.get s) =
          .ok (serials, _) := hio
      rw [hio', ok_bind] at hon
      cases hstep
      refine ⟨{ s with serials }, ?_, hholds, fun who' hwho' b => related_serial ha hother hwho'⟩
      simp only [machineStep, handleExit, hon, ok_bind]
      rfl
  | other =>
      obtain ⟨hserial, hdisk⟩ := portOwner_other howner
      have hzero := handleExitIo_zero (e := disk) (s := s) hpromised hport
        (ht.other _ hserial hdisk)
      have halone : handleExitIo (HandlerTable.zero : HandlerTable Disk Unit) disk io run () =
          .ok ((), run) := handleExitIo_zero hpromised hport rfl
      have hret : alone configs diskFd regions .other a (.exit disk (.io io run)) =
          .ok ((), .exit (some (.io run))) := by
        simp only [alone, handleExit, halone, ok_bind]
      rw [hret] at hstep
      cases hstep
      refine ⟨s, ?_, trivial, fun _ _ _ h => h⟩
      simp only [machineStep, handleExit, hzero, ok_bind]

/-- **An event follows the device it is for**, and leaves the others as they are. -/
theorem machine_follows (hv : ∀ c ∈ configs, c.Valid) (ha : configs.Pairwise SerialConfig.Apart)
    (ht : DeviceTable configs diskFd table) {e : MachineEvent configs.length}
    (he : e.Promised ∧ e.InTable) {a a' : (e.owner configs).State configs} {o : MachineAnswer}
    (hR : Related configs (e.owner configs) s a)
    (hstep : alone configs diskFd regions (e.owner configs) a e = .ok (a', o)) :
    ∃ s', machineStep configs table regions s e = .ok (s', o) ∧
      Related configs (e.owner configs) s' a' ∧
      ∀ who, who ≠ e.owner configs → ∀ b, Related configs who s b → Related configs who s' b := by
  cases e with
  | read i len =>
      have hmem := List.get_mem configs i
      obtain ⟨serials, hread, hholds, hother⟩ :=
        SerialConfig.command_spec (configs.get i).wired_onlyTable (hv _ hmem) hR (.read len)
      obtain ⟨⟨devs, bytes⟩, hio, hret⟩ := bind_eq_ok.mp hread
      obtain ⟨rfl, hbytes⟩ := Prod.mk.inj (Except.ok.inj hret)
      cases hstep
      refine ⟨{ s with serials := devs }, ?_, hholds,
        fun who hwho b => related_serial ha hother hwho⟩
      rw [machineStep, hio, ok_bind, SerialAnswer.read.inj hbytes]
  | write i buffer =>
      have hmem := List.get_mem configs i
      obtain ⟨serials, hwrite, hholds, hother⟩ :=
        SerialConfig.command_spec (configs.get i).wired_onlyTable (hv _ hmem) hR (.write buffer)
      obtain ⟨⟨devs, count⟩, hio, hret⟩ := bind_eq_ok.mp hwrite
      obtain ⟨rfl, hcount⟩ := Prod.mk.inj (Except.ok.inj hret)
      cases hstep
      refine ⟨{ s with serials := devs }, ?_, hholds,
        fun who hwho b => related_serial ha hother hwho⟩
      rw [machineStep, hio, ok_bind, SerialAnswer.written.inj hcount]
  | exit disk cause =>
      cases cause with
      | io io run => exact exit_follows hv ha ht he rfl hR hstep
      | mmio exit =>
          cases hstep
          exact ⟨s, rfl, trivial, fun _ _ _ h => h⟩
      | hlt result regs =>
          cases hstep
          exact ⟨s, rfl, trivial, fun _ _ _ h => h⟩
      | unknown reason =>
          cases hstep
          exact ⟨s, rfl, trivial, fun _ _ _ h => h⟩

/-! ## Runs -/

/-- The events for a device are events of the run. -/
theorem mem_eventsOf {who : DeviceName configs.length} {events : List (MachineEvent configs.length)}
    {e : MachineEvent configs.length} (h : e ∈ eventsOf configs who events) :
    e ∈ events ∧ e.owner configs = who := by
  obtain ⟨e', hmem, heq⟩ := List.mem_map.mp (Families.mem_commandsOf.mp h)
  cases heq
  exact ⟨hmem, rfl⟩

/-- What a device alone keeps: the disk its offsets in bounds, and the others nothing. -/
def Sound (configs : List SerialConfig) :
    (who : DeviceName configs.length) → who.State configs → Prop
  | .disk, a => Atapi.InBounds a
  | _, _ => True

/-- An exit for a port access does not make the device that has the port fault. -/
theorem alone_exit_ok {disk : Disk} {io : KvmIo} {run : List UInt8}
    (he : (KvmExit.io io run).Promised ∧ (KvmExit.io io run).InTable)
    {who : DeviceName configs.length} {a : who.State configs} (ha : Sound configs who a) :
    ∃ a' o, alone configs diskFd regions who a (.exit disk (.io io run)) = .ok (a', o) ∧
      Sound configs who a' := by
  obtain ⟨hpromised, hport⟩ := he
  cases who with
  | serial i => exact ⟨_, _, rfl, trivial⟩
  | other =>
      have halone : handleExitIo (HandlerTable.zero : HandlerTable Disk Unit) disk io run () =
          .ok ((), run) := handleExitIo_zero hpromised hport rfl
      refine ⟨(), .exit (some (.io run)), ?_, trivial⟩
      simp only [alone, handleExit, halone, ok_bind]
  | disk =>
      obtain ⟨a', run', hio, hin⟩ := Atapi.inBounds_exit ha diskFd disk hpromised hport
      refine ⟨a', .exit (some (.io run')), ?_, hin⟩
      simp only [alone, handleExit, hio, ok_bind]

/-- A device alone does not fault on the events that are for it. -/
theorem alone_ok {e : MachineEvent configs.length}
    (he : e.Promised ∧ e.InTable) {a : (e.owner configs).State configs} (ha : Sound configs _ a) :
    ∃ a' o, alone configs diskFd regions (e.owner configs) a e = .ok (a', o) ∧
      Sound configs _ a' := by
  cases e with
  | read i len => exact ⟨_, _, rfl, trivial⟩
  | write i buffer => exact ⟨_, _, rfl, trivial⟩
  | exit disk cause =>
      cases cause with
      | io io run => exact alone_exit_ok he ha
      | mmio exit => exact ⟨(), _, rfl, trivial⟩
      | hlt result regs => exact ⟨(), _, rfl, trivial⟩
      | unknown reason => exact ⟨(), _, rfl, trivial⟩

/-- A device runs alone on its events. -/
theorem alone_runs (diskFd : Int32) (regions : MmioTable) {who : DeviceName configs.length}
    {a : who.State configs}
    (ha : Sound configs who a) {events : List (MachineEvent configs.length)}
    (he : ∀ e ∈ events, e.Promised ∧ e.InTable) :
    ∃ a' answers, trace (alone configs diskFd regions who) a (eventsOf configs who events) =
      .ok (a', answers) ∧ Sound configs who a' := by
  refine Families.exists_trace (fun e hmem b hb => ?_) ha
  obtain ⟨hevents, rfl⟩ := mem_eventsOf hmem
  exact alone_ok (he e hevents) hb

/-- **The process is the family of its devices.**  From a state in which each device holds
what it would alone, every run of events that KVM keeps its promises in leaves each device
with what its own events alone leave it with, and with the same answers to them. -/
theorem machine_runs (regions : MmioTable) (hv : ∀ c ∈ configs, c.Valid)
    (ha : configs.Pairwise SerialConfig.Apart) (ht : DeviceTable configs diskFd table)
    {a : (who : DeviceName configs.length) → who.State configs}
    (hR : ∀ who, Related configs who s (a who)) (hsound : ∀ who, Sound configs who (a who))
    {events : List (MachineEvent configs.length)}
    (he : ∀ e ∈ events, e.Promised ∧ e.InTable) :
    ∃ s' answers, ∃ final : (who : DeviceName configs.length) → who.State configs,
      trace (machineStep configs table regions) s events = .ok (s', answers) ∧
      (∀ who, trace (alone configs diskFd regions who) (a who) (eventsOf configs who events) =
        .ok (final who, answersOf configs who events answers)) ∧
      ∀ who, Related configs who s' (final who) := by
  let tag : MachineEvent configs.length → DeviceName configs.length × MachineEvent configs.length :=
    fun e => (e.owner configs, e)
  have htag : ∀ e ∈ events.map tag, e.1 = e.2.owner configs ∧ e.2.Promised ∧ e.2.InTable := by
    intro e hmem
    obtain ⟨e', hmem', rfl⟩ := List.mem_map.mp hmem
    exact ⟨rfl, he e' hmem'⟩
  obtain ⟨final, answers, hfamily⟩ : ∃ final answers,
      trace (Families.step (alone configs diskFd regions)) a (events.map tag) =
        .ok (final, answers) := by
    refine Families.trace_family fun who => ?_
    obtain ⟨a', os, h, -⟩ := alone_runs diskFd regions (hsound who) he
    exact ⟨(a', os), h⟩
  have sim : ∀ s (e : DeviceName configs.length × MachineEvent configs.length)
      (b b' : e.1.State configs) o, e.1 = e.2.owner configs ∧ e.2.Promised ∧ e.2.InTable →
      Related configs e.1 s b → alone configs diskFd regions e.1 b e.2 = .ok (b', o) →
      ∃ s', machineStep configs table regions s e.2 = .ok (s', o) ∧ Related configs e.1 s' b' ∧
        ∀ j, j ≠ e.1 → ∀ c, Related configs j s c → Related configs j s' c := by
    rintro s ⟨who, e⟩ b b' o ⟨howner, hp⟩ hRb hstep
    obtain rfl : who = e.owner configs := howner
    exact machine_follows hv ha ht hp hRb hstep
  obtain ⟨s', htrace, hrelated⟩ :=
    Families.trace_refines_family (Related configs) sim hR htag hfamily
  rw [trace_map] at htrace
  exact ⟨s', answers, final, htrace, Families.trace_member hfamily, hrelated⟩

/-- After start-up each device holds what it does alone before its first event. -/
theorem related_fresh (hatapi : s.atapi = Atapi.start)
    (hserials : ∀ c ∈ configs, c.Holds s.serials (.empty c.size))
    (who : DeviceName configs.length) : Related configs who s (who.fresh configs) := by
  cases who with
  | disk => exact hatapi
  | serial i => exact hserials _ (List.get_mem configs i)
  | other => trivial

theorem sound_fresh (who : DeviceName configs.length) : Sound configs who (who.fresh configs) := by
  cases who with
  | disk => exact Atapi.inBounds_start
  | serial i => trivial
  | other => trivial

/-- The run loop is a run of the process, without calls of other threads. -/
theorem trace_exits {exits : List (Disk × KvmExit)} {s' : Devices} {answers : List MachineAnswer}
    (h : trace (machineStep configs table regions) s (exits.map fun e => .exit e.1 e.2) =
      .ok (s', answers)) :
    ∃ effects, trace (handleExit table regions) s exits = .ok (s', effects) ∧
      answers = effects.map .exit := by
  induction exits generalizing s answers with
  | nil =>
      cases h
      exact ⟨[], rfl, rfl⟩
  | cons e exits ih =>
      rw [List.map_cons] at h
      obtain ⟨s₁, answer, answers', hstep, hrest, rfl⟩ := trace_cons_eq_ok h
      obtain ⟨⟨s₂, effect⟩, hexit, hret⟩ := bind_eq_ok.mp hstep
      obtain ⟨rfl, rfl⟩ := Prod.mk.inj (Except.ok.inj hret)
      obtain ⟨effects, ht, rfl⟩ := ih hrest
      exact ⟨effect :: effects, trace_cons_ok hexit ht, rfl⟩

end Sim

/-! ## The process after start-up -/

section Started
variable {configs : List SerialConfig}

/-- COM1 and COM2, with queues of one byte and of two. -/
def comPorts : List SerialConfig :=
  [⟨0x3F8, 1, 0x1000, #v[0], #v[0]⟩, ⟨0x2F8, 2, 0x2000, #v[0, 0], #v[0, 0]⟩]

theorem comPorts_valid : ∀ c ∈ comPorts, c.Valid := by
  intro c hc
  rcases List.mem_cons.mp hc with rfl | hc
  · exact ⟨by decide, by decide, by decide⟩
  · rw [List.mem_singleton.mp hc]
    exact ⟨by decide, by decide, by decide⟩

theorem comPorts_apart : comPorts.Pairwise SerialConfig.Apart :=
  List.pairwise_pair.mpr ⟨by decide, Or.inr (by decide)⟩

theorem comPorts_avoidsDisk : ∀ c ∈ comPorts, c.AvoidsDisk := by decide

/-- The guest sends a byte through COM1, which another thread takes, and the guest reads COM2
empty, stores to MMIO and looks at the status of the disk. -/
def comEvents (disk : Disk) : List (MachineEvent comPorts.length) :=
  [.exit disk (.io ⟨kvmExitIoOut, 1, 0x3F8, 1, 0⟩ [65]),
    .exit disk (.io ⟨kvmExitIoIn, 1, 0x2F8, 1, 0⟩ [0]),
    .exit disk (.mmio ⟨0xC0000000, #v[1, 2, 3, 4, 0, 0, 0, 0], 4, true⟩),
    .read ⟨0, by decide⟩ 16,
    .exit disk (.io ⟨kvmExitIoIn, 1, 0x1F7, 1, 0⟩ [0])]

/-- Every exit of them is one that KVM may make. -/
theorem comEvents_promised (disk : Disk) : ∀ e ∈ comEvents disk, e.Promised := by
  have hio : ∀ io : KvmIo, io.direction = kvmExitIoOut ∨ io.direction = kvmExitIoIn →
      io.size = 1 → io.count = 1 → io.dataOffset = 0 → ∀ b, io.Promised [b] := by
    intro io hdirection hsize hcount hoffset b
    refine ⟨hdirection, Or.inl hsize, ?_, ?_⟩
    · rw [hcount]
      decide
    · rw [hoffset, hcount, hsize]
      exact Nat.le_refl 1
  intro e he
  simp only [comEvents, List.mem_cons, List.not_mem_nil, or_false] at he
  rcases he with rfl | rfl | rfl | rfl | rfl
  · exact hio _ (Or.inl rfl) rfl rfl rfl _
  · exact hio _ (Or.inr rfl) rfl rfl rfl _
  · trivial
  · trivial
  · exact hio _ (Or.inr rfl) rfl rfl rfl _

theorem comEvents_inTable (disk : Disk) : ∀ e ∈ comEvents disk, e.InTable := by
  intro e he
  simp only [comEvents, List.mem_cons, List.not_mem_nil, or_false] at he
  rcases he with rfl | rfl | rfl | rfl | rfl
  · exact show (0x3F8 : UInt16) ≠ 0xFFFF by decide
  · exact show (0x2F8 : UInt16) ≠ 0xFFFF by decide
  · trivial
  · trivial
  · exact show (0x1F7 : UInt16) ≠ 0xFFFF by decide

/-- **Every device as if it were alone.**  In a process with serial ports and the disk, at
disjoint ports, every sequence of exits and of calls of other threads, in any order, leaves
each device in the state that its own events alone leave it in, with the same answers: the
disk as in a process with nothing but the disk, a serial port as a pair of bounded FIFOs, and
an exit at no device's port, for MMIO or a halt as in a process without devices.  Only port
`0xFFFF` is not to be used: what it does is not the devices' own. -/
theorem vm_devices_as_if_alone (hv : ∀ c ∈ configs, c.Valid)
    (ha : configs.Pairwise SerialConfig.Apart) (hdisk : ∀ c ∈ configs, c.AvoidsDisk)
    (diskFd : Int32) (regions : MmioTable) :
    ∃ table s, startDevices configs diskFd = .ok (table, s) ∧
      ∀ events : List (MachineEvent configs.length), (∀ e ∈ events, e.Promised) →
        (∀ e ∈ events, e.InTable) →
        ∃ s' answers, ∃ final : (who : DeviceName configs.length) → who.State configs,
          trace (machineStep configs table regions) s events = .ok (s', answers) ∧
          (∀ who, trace (alone configs diskFd regions who) (who.fresh configs)
              (eventsOf configs who events) =
            .ok (final who, answersOf configs who events answers)) ∧
          ∀ who, Related configs who s' (final who) := by
  obtain ⟨table, s, hstart, ht, hatapi, hserials⟩ := startDevices_spec hv ha hdisk diskFd
  refine ⟨table, s, hstart, fun events hp hin => ?_⟩
  exact machine_runs regions hv ha ht (related_fresh hatapi hserials) sound_fresh
    fun e he => ⟨hp e he, hin e he⟩

theorem vm_devices_as_if_alone_com :
    let disk : Disk := fun _ _ => []
    let com1 : DeviceName comPorts.length := .serial ⟨0, by decide⟩
    ∃ table s, startDevices comPorts 3 = .ok (table, s) ∧
      ∃ s' answers, trace (machineStep comPorts table MmioTable.zero) s (comEvents disk) =
          .ok (s', answers) ∧
        answersOf comPorts com1 (comEvents disk) answers =
          [.exit (some (.io [65])), .read [65]] := by
  intro disk com1
  obtain ⟨table, s, hstart, hall⟩ := vm_devices_as_if_alone comPorts_valid comPorts_apart
    comPorts_avoidsDisk 3 MmioTable.zero
  obtain ⟨s', answers, final, htrace, hown, -⟩ :=
    hall (comEvents disk) (comEvents_promised disk) (comEvents_inTable disk)
  refine ⟨table, s, hstart, s', answers, htrace, ?_⟩
  -- COM1 alone
  have halone : ∃ f, trace (alone comPorts 3 MmioTable.zero com1) (com1.fresh comPorts)
      (eventsOf comPorts com1 (comEvents disk)) =
        .ok (f, [.exit (some (.io [65])), .read [65]]) := ⟨_, rfl⟩
  obtain ⟨f, hf⟩ := halone
  exact (Prod.mk.inj (Except.ok.inj ((hown com1).symm.trans hf))).2

/-- **A device tells nothing of the others.**  Two runs of the process with the same events
for a device answer them the same, and leave the device with the same contents, whatever the
guest and the other threads do with the other devices in one run and in the other, at ports
that the table has an entry for. -/
theorem vm_device_noninterference (hv : ∀ c ∈ configs, c.Valid)
    (ha : configs.Pairwise SerialConfig.Apart) (hdisk : ∀ c ∈ configs, c.AvoidsDisk)
    (diskFd : Int32) (regions : MmioTable) :
    ∃ table s, startDevices configs diskFd = .ok (table, s) ∧
      ∀ (who : DeviceName configs.length) (events events' : List (MachineEvent configs.length)),
        (∀ e ∈ events, e.Promised) → (∀ e ∈ events, e.InTable) →
        (∀ e ∈ events', e.Promised) → (∀ e ∈ events', e.InTable) →
        eventsOf configs who events = eventsOf configs who events' →
        ∃ s₁ s₂ answers answers', ∃ final : who.State configs,
          trace (machineStep configs table regions) s events = .ok (s₁, answers) ∧
          trace (machineStep configs table regions) s events' = .ok (s₂, answers') ∧
          answersOf configs who events answers = answersOf configs who events' answers' ∧
          Related configs who s₁ final ∧ Related configs who s₂ final := by
  obtain ⟨table, s, hstart, ht, hatapi, hserials⟩ := startDevices_spec hv ha hdisk diskFd
  refine ⟨table, s, hstart, fun who events events' hp hin hp' hin' heq => ?_⟩
  have hR := related_fresh hatapi hserials
  obtain ⟨s₁, answers, final₁, ht₁, hown₁, hR₁⟩ :=
    machine_runs regions hv ha ht hR sound_fresh fun e he => ⟨hp e he, hin e he⟩
  obtain ⟨s₂, answers', final₂, ht₂, hown₂, hR₂⟩ :=
    machine_runs regions hv ha ht hR sound_fresh fun e he => ⟨hp' e he, hin' e he⟩
  -- both runs are, for the device, the run of the same events alone
  have hsame := hown₂ who
  rw [← heq, hown₁ who] at hsame
  obtain ⟨hfinal, hanswers⟩ := Prod.mk.inj (Except.ok.inj hsame)
  exact ⟨s₁, s₂, answers, answers', final₁ who, ht₁, ht₂, hanswers, hR₁ who, hfinal ▸ hR₂ who⟩

/-- COM1 with and without what the run does beside it. -/
theorem vm_device_noninterference_com :
    let disk : Disk := fun _ _ => []
    let com1 : DeviceName comPorts.length := .serial ⟨0, by decide⟩
    let events' : List (MachineEvent comPorts.length) :=
      [.exit disk (.io ⟨kvmExitIoOut, 1, 0x3F8, 1, 0⟩ [65]), .read ⟨0, by decide⟩ 16]
    ∃ table s, startDevices comPorts 3 = .ok (table, s) ∧
      ∃ s₁ s₂ answers answers', ∃ final : com1.State comPorts,
        trace (machineStep comPorts table MmioTable.zero) s (comEvents disk) = .ok (s₁, answers) ∧
        trace (machineStep comPorts table MmioTable.zero) s events' = .ok (s₂, answers') ∧
        answersOf comPorts com1 (comEvents disk) answers =
          answersOf comPorts com1 events' answers' ∧
        Related comPorts com1 s₁ final ∧ Related comPorts com1 s₂ final := by
  intro disk com1 events'
  obtain ⟨table, s, hstart, hall⟩ := vm_device_noninterference comPorts_valid comPorts_apart
    comPorts_avoidsDisk 3 MmioTable.zero
  have hsub : ∀ e ∈ events', e ∈ comEvents disk := by
    intro e he
    simp only [events', List.mem_cons, List.not_mem_nil, or_false] at he
    simp only [comEvents, List.mem_cons, List.not_mem_nil, or_false]
    rcases he with rfl | rfl
    · exact Or.inl rfl
    · exact Or.inr (Or.inr (Or.inr (Or.inl rfl)))
  exact ⟨table, s, hstart, hall com1 (comEvents disk) events' (comEvents_promised disk)
    (comEvents_inTable disk) (fun e he => comEvents_promised disk e (hsub e he))
    (fun e he => comEvents_inTable disk e (hsub e he)) rfl⟩

/-- **`vm_run` is safe with all devices.**  Whatever a guest does but for an access to port
`0xFFFF`, and as long as KVM keeps its promises: no handler faults, the offsets of the disk
stay in their buffers, every serial port keeps well-formed queues of its size, and the loop
returns exactly where KVM fails or gives a reason it does not know. -/
theorem vm_run_safe (hv : ∀ c ∈ configs, c.Valid) (ha : configs.Pairwise SerialConfig.Apart)
    (hdisk : ∀ c ∈ configs, c.AvoidsDisk) (diskFd : Int32) (regions : MmioTable) {vm : VmT}
    (hrun : vm.kvmRun ≠ 0) (hmapped : vm.kvmRun ≠ mapFailed) :
    ∃ table s, startDevices configs diskFd = .ok (table, s) ∧
      ∀ answers : List (KvmAnswer Disk), (∀ e, some e ∈ answers → e.2.Promised) →
        (∀ e, some e ∈ answers → e.2.InTable) →
        ∃ s' effects, vmRun (some vm) table regions s answers =
            .ok (s', effects, if answers.all goesOn then none else some 0) ∧
          s'.atapi.InBounds ∧
          ∀ c ∈ configs, ∃ f : SerialFifos c.size, c.Holds s'.serials f := by
  obtain ⟨table, s, hstart, ht, hatapi, hserials⟩ := startDevices_spec hv ha hdisk diskFd
  refine ⟨table, s, hstart, fun answers hp hin => ?_⟩
  have hR := related_fresh hatapi hserials
  let events : List (MachineEvent configs.length) :=
    (handledExits answers).map fun e => .exit e.1 e.2
  have he : ∀ e ∈ events, e.Promised ∧ e.InTable := by
    intro e hmem
    obtain ⟨exit, hexit, rfl⟩ := List.mem_map.mp hmem
    exact ⟨hp exit (mem_handledExits hexit), hin exit (mem_handledExits hexit)⟩
  obtain ⟨s', machineAnswers, final, htrace, hown, hrelated⟩ :=
    machine_runs regions hv ha ht hR sound_fresh he
  obtain ⟨effects, hexits, -⟩ := trace_exits htrace
  obtain ⟨disk, diskAnswers, hdiskRun, hbounds⟩ :=
    alone_runs diskFd regions (sound_fresh .disk) he
  rw [hown .disk] at hdiskRun
  obtain ⟨rfl, -⟩ := Prod.mk.inj (Except.ok.inj hdiskRun)
  refine ⟨s', effects.filterMap id, ?_, ?_, fun c hc => ?_⟩
  · rw [vmRun, if_neg hrun, vmRunLoop_eq hmapped, hexits, ok_bind]
  · have hatapi' : s'.atapi = final .disk := hrelated .disk
    rw [hatapi']
    exact hbounds
  · obtain ⟨i, rfl⟩ := List.get_of_mem hc
    exact ⟨final (.serial i), hrelated (.serial i)⟩

/-- A byte for COM1, a store to MMIO, and a `KVM_RUN` that fails. -/
theorem vm_run_safe_com :
    let disk : Disk := fun _ _ => []
    let answers : List (KvmAnswer Disk) :=
      [some (disk, .io ⟨kvmExitIoOut, 1, 0x3F8, 1, 0⟩ [65]),
        some (disk, .mmio ⟨0xC0000000, #v[1, 2, 3, 4, 0, 0, 0, 0], 4, true⟩), none]
    ∃ vm : VmT, vm.kvmRun = 0x7F0000000000 ∧
      ∃ table s, startDevices comPorts 3 = .ok (table, s) ∧
        ∃ s' effects, vmRun (some vm) table MmioTable.zero s answers =
            .ok (s', effects, some 0) ∧
          s'.atapi.InBounds ∧ ∀ c ∈ comPorts, ∃ f : SerialFifos c.size, c.Holds s'.serials f := by
  intro disk answers
  obtain ⟨mem, -⟩ : ∃ mem, memoryNew true true = some mem := ⟨_, rfl⟩
  let vm : VmT := { kvmFd := 3, vmFd := 4, vcpuFd := 5, kvmRun := 0x7F0000000000, mem }
  have hrun : vm.kvmRun ≠ 0 := show (0x7F0000000000 : UInt64) ≠ 0 by decide
  have hmapped : vm.kvmRun ≠ mapFailed := show (0x7F0000000000 : UInt64) ≠ mapFailed by decide
  obtain ⟨table, s, hstart, hall⟩ := vm_run_safe comPorts_valid comPorts_apart
    comPorts_avoidsDisk 3 MmioTable.zero hrun hmapped
  -- both exits are among the events of `comEvents`
  have hexit : ∀ e : Disk × KvmExit, some e ∈ answers →
      MachineEvent.exit e.1 e.2 ∈ comEvents disk := by
    intro e he
    simp only [answers, List.mem_cons, List.not_mem_nil, or_false, Option.some.injEq,
      reduceCtorEq] at he
    simp only [comEvents, List.mem_cons, List.not_mem_nil, or_false]
    rcases he with rfl | rfl
    · exact Or.inl rfl
    · exact Or.inr (Or.inr (Or.inl rfl))
  exact ⟨vm, rfl, table, s, hstart, hall answers
    (fun e he => comEvents_promised disk _ (hexit e he))
    (fun e he => comEvents_inTable disk _ (hexit e he))⟩

end Started

end BlackHV
