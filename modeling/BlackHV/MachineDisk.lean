import BlackHV.AtapiRead
import BlackHV.MachineRuns

/-! # Reading the disk while the serial ports are in use

A READ(12) command is a thousand exits.  Between any two of them the guest may use a serial
port, write to MMIO or halt, and other threads may call `serial_read` and `serial_write`.
-/
namespace BlackHV

open Runs

namespace MachineEvent
variable {n : Nat}

/-- The access of the guest that an event is, if it is one that is handled. -/
def access : MachineEvent n → Option PortAccess
  | .exit _ (.io io run) => if io.size = 4 then none else some (io.access run 0)
  | _ => none

/-- The answer to an event, where its access has an answer. -/
def answered : MachineEvent n → PortAnswer → MachineAnswer
  | .exit _ (.io io run), answer => .exit (some (.io (io.put run 0 answer)))
  | _, _ => .exit none

/-- What the disk answers while the event is handled. -/
def Reads (image : Disk) : MachineEvent n → Prop
  | .exit disk _ => disk = image
  | _ => True

end MachineEvent

section Disk
variable {configs : List SerialConfig} {diskFd : Int32} {regions : MmioTable} {disk : Disk}

/-- An exit of the disk alone is its access, with the answer in the block. -/
theorem alone_disk_access {e : MachineEvent configs.length} {a : PortAccess}
    (hp : e.Promised) (hreads : e.Reads disk) (ha : e.access = some a) {s s' : Atapi}
    {answer : PortAnswer} (h : ioHandle (atapiTable diskFd) disk s a = .ok (s', answer)) :
    alone configs diskFd regions .disk s e = .ok (s', e.answered answer) := by
  cases e with
  | read i len => cases ha
  | write i buffer => cases ha
  | exit disk' cause =>
      cases cause with
      | io io run =>
          obtain rfl : disk' = disk := hreads
          by_cases h4 : io.size = 4
          · rw [MachineEvent.access, if_pos h4] at ha
            cases ha
          · rw [MachineEvent.access, if_neg h4] at ha
            cases ha
            have hexit : handleExitIo (atapiTable diskFd) disk' io run s =
                .ok (s', io.put run 0 answer) := by
              rw [KvmIo.handleExitIo_eq_first (hp.valid_or.resolve_right h4), h, ok_bind]
            simp only [alone, handleExit, hexit, ok_bind]
            rfl
      | mmio exit => cases ha
      | hlt result regs => cases ha
      | unknown reason => cases ha

/-- Exits of the disk alone are its accesses. -/
theorem alone_disk_trace (regions : MmioTable) {events : List (MachineEvent configs.length)}
    {accesses : List PortAccess} (hp : ∀ e ∈ events, e.Promised)
    (hreads : ∀ e ∈ events, e.Reads disk)
    (ha : events.map MachineEvent.access = accesses.map some) {s s' : Atapi}
    {answers : List PortAnswer}
    (h : trace (ioHandle (atapiTable diskFd) disk) s accesses = .ok (s', answers)) :
    trace (alone configs diskFd regions .disk) s events =
      .ok (s', List.zipWith MachineEvent.answered events answers) := by
  induction events generalizing accesses s answers with
  | nil =>
      rw [List.map_nil, eq_comm, List.map_eq_nil_iff] at ha
      subst ha
      cases h
      rfl
  | cons e events ih =>
      cases accesses with
      | nil => cases ha
      | cons a accesses =>
          obtain ⟨hae, hrest⟩ := List.cons.inj ha
          obtain ⟨hpe, hps⟩ := List.forall_mem_cons.mp hp
          obtain ⟨hre, hrs⟩ := List.forall_mem_cons.mp hreads
          obtain ⟨s₁, answer, answers', he, hes, rfl⟩ := trace_cons_eq_ok h
          exact trace_cons_ok (alone_disk_access hpe hre hae he) (ih hps hrs hrest hes)

end Disk

/-- **READ(12) commands deliver their blocks while everything else goes on.**  Whatever the
guest does with the serial ports, MMIO and halts between the accesses of its commands, and
whatever other threads do, every command is answered in full: the words read through the
exits are those of the block that it asks for, and its last read completes it.  The blocks are
in the image, which is one of 4 GiB at most, and an exit is one access. -/
theorem vm_read12_interleaved {configs : List SerialConfig} (hv : ∀ c ∈ configs, c.Valid)
    (ha : configs.Pairwise SerialConfig.Apart) (hdisk : ∀ c ∈ configs, c.AvoidsDisk)
    {diskFd : Int32} (regions : MmioTable) {disk : Disk} {image : List UInt8}
    (hd : Delivers disk diskFd image) (hlen : image.length ≤ 2 ^ 32) :
    ∃ table s, startDevices configs diskFd = .ok (table, s) ∧
      ∀ (events : List (MachineEvent configs.length)) (accesses : List PortAccess)
        (cmds : List ReadCommand), (∀ e ∈ events, e.Promised) → (∀ e ∈ events, e.InTable) →
        (∀ e ∈ events, e.Reads disk) → (∀ c ∈ cmds, c.Valid image) →
        (eventsOf configs .disk events).map MachineEvent.access = accesses.map some →
        accesses.filter (!interposed ·) = cmds.flatMap ReadCommand.accesses →
        ∃ s' machineAnswers answers,
          trace (machineStep configs table regions) s events = .ok (s', machineAnswers) ∧
          answersOf configs .disk events machineAnswers =
            List.zipWith MachineEvent.answered (eventsOf configs .disk events) answers ∧
          ((accesses.zip answers).filter (!interposed ·.1)).map Prod.snd =
            cmds.flatMap (ReadCommand.answers · image) ∧
          s'.atapi.Idle := by
  obtain ⟨table, s, hstart, ht, hatapi, hserials⟩ := startDevices_spec hv ha hdisk diskFd
  refine ⟨table, s, hstart, fun events accesses cmds hp hin hreads hcmds haccess hrun => ?_⟩
  obtain ⟨s', machineAnswers, final, htrace, hown, hrelated⟩ :=
    machine_runs regions hv ha ht (related_fresh hatapi hserials) sound_fresh
      fun e he => ⟨hp e he, hin e he⟩
  -- the disk alone, on the commands
  have hround : ∀ c ∈ cmds, ∀ s : Atapi, s.Idle →
      ∃ s', trace (ioHandle (atapiTable diskFd) disk) s c.accesses =
        .ok (s', c.answers image) ∧ s'.Idle :=
    fun c hc s hs => Atapi.idle_command hd hlen (hcmds c hc) hs
  obtain ⟨idle, hcommands, hidle⟩ := trace_flatMap hround (s := Atapi.start) ⟨rfl, rfl, rfl, rfl⟩
  rw [← hrun] at hcommands
  have hquiet : ∀ s a, interposed a = true →
      ∃ answer, ioHandle (atapiTable diskFd) disk s a = .ok (s, answer) :=
    fun _ _ hi => Atapi.handle_interposed hi
  obtain ⟨answers, hall, hanswers⟩ := trace_of_filter hquiet hcommands
  -- the same through the exits
  have hexits := alone_disk_trace regions
    (fun e he => hp e (mem_eventsOf he).1) (fun e he => hreads e (mem_eventsOf he).1) haccess hall
  obtain ⟨hfinal, houts⟩ := Prod.mk.inj (Except.ok.inj ((hown .disk).symm.trans hexits))
  have hatapi' : s'.atapi = final .disk := hrelated .disk
  exact ⟨s', machineAnswers, answers, htrace, houts, hanswers, by rw [hatapi', hfinal]; exact hidle⟩

/-- The exit for one access, in a block of its own. -/
def PortAccess.asExit : PortAccess → KvmExit
  | .outb port data => .io ⟨kvmExitIoOut, 1, port, 1, 0⟩ [data]
  | .outw port data => .io ⟨kvmExitIoOut, 2, port, 1, 0⟩ [data.toUInt8, (data >>> 8).toUInt8]
  | .inb port => .io ⟨kvmExitIoIn, 1, port, 1, 0⟩ [0]
  | .inw port => .io ⟨kvmExitIoIn, 2, port, 1, 0⟩ [0, 0]

theorem PortAccess.asExit_promised (a : PortAccess) : a.asExit.Promised := by
  cases a with
  | outb port data => exact ⟨Or.inl rfl, Or.inl rfl, Nat.le_refl 1, Nat.le_refl 1⟩
  | outw port data => exact ⟨Or.inl rfl, Or.inr (Or.inl rfl), Nat.le_refl 1, Nat.le_refl 2⟩
  | inb port => exact ⟨Or.inr rfl, Or.inl rfl, Nat.le_refl 1, Nat.le_refl 1⟩
  | inw port => exact ⟨Or.inr rfl, Or.inr (Or.inl rfl), Nat.le_refl 1, Nat.le_refl 2⟩

theorem PortAccess.asExit_inTable (a : PortAccess) (h : a.port ≠ 0xFFFF) : a.asExit.InTable := by
  cases a <;> exact h

/-- A command for the only block of an image; before each of its accesses the guest sends a
byte through COM1 and another thread takes it. -/
theorem vm_read12_interleaved_com :
    let image := List.replicate cdBlockSz (7 : UInt8)
    let disk : Disk := fun _ offset => (image.drop offset.toNat).take cdBlockSz
    let cmd : ReadCommand := ⟨#v[0xA8, 0, 0, 0, 0, 0, 0, 0, 0, 1, 0, 0], 2⟩
    let events : List (MachineEvent comPorts.length) := cmd.accesses.flatMap fun a =>
      [.exit disk (PortAccess.outb 0x3F8 65).asExit, .exit disk a.asExit, .read ⟨0, by decide⟩ 16]
    ∃ table s, startDevices comPorts 3 = .ok (table, s) ∧
      ∃ s' machineAnswers answers,
        trace (machineStep comPorts table MmioTable.zero) s events = .ok (s', machineAnswers) ∧
        answersOf comPorts .disk events machineAnswers =
          List.zipWith MachineEvent.answered (eventsOf comPorts .disk events) answers ∧
        ((cmd.accesses.zip answers).filter (!interposed ·.1)).map Prod.snd = cmd.answers image ∧
        s'.atapi.Idle := by
  intro image disk cmd events
  have hlen : image.length ≤ 2 ^ 32 := by
    rw [List.length_replicate]
    decide
  have hd : Delivers disk 3 image := fun _ _ => rfl
  have hvalid : cmd.Valid image := by
    refine ⟨rfl, ?_, by decide⟩
    rw [List.length_replicate]
    decide
  obtain ⟨table, s, hstart, hall⟩ := vm_read12_interleaved comPorts_valid comPorts_apart
    comPorts_avoidsDisk MmioTable.zero hd hlen
  have hports : ∀ a ∈ cmd.accesses, a.port ≠ 0xFFFF := by decide
  have hevents : ∀ e ∈ events, e.Promised ∧ e.InTable ∧ e.Reads disk := by
    intro e he
    obtain ⟨a, ha, hmem⟩ := List.mem_flatMap.mp he
    simp only [List.mem_cons, List.not_mem_nil, or_false] at hmem
    rcases hmem with rfl | rfl | rfl
    · exact ⟨(PortAccess.outb 0x3F8 65).asExit_promised,
        (PortAccess.outb 0x3F8 65).asExit_inTable (by decide), rfl⟩
    · exact ⟨a.asExit_promised, a.asExit_inTable (hports a ha), rfl⟩
    · exact ⟨trivial, trivial, trivial⟩
  obtain ⟨s', machineAnswers, answers, htrace, houts, hanswers, hidle⟩ :=
    hall events cmd.accesses [cmd] (fun e he => (hevents e he).1) (fun e he => (hevents e he).2.1)
      (fun e he => (hevents e he).2.2) (List.forall_mem_singleton.mpr hvalid) (by decide)
      (by decide)
  refine ⟨table, s, hstart, s', machineAnswers, answers, htrace, houts, ?_, hidle⟩
  rw [hanswers, List.flatMap_singleton]

end BlackHV
