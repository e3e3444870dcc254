import BlackHV.Flows
import BlackHV.MachineRuns
import Mathlib.Data.List.TakeWhile

/-! # The console

`examples/k` and `examples/linux` have a thread beside the virtual CPU, `serial_thread`, that
prints what the guest writes to a serial port: it reads what is in the queue, 1024 bytes at
most, and hands it to `printf` with `%.*s`, which ends at a NUL.  The guest writes with `outb`
and `rep outsb`; the other devices and threads of the process are there as well.

The user sees what the guest has written, in order, and all of it exactly if every string is
of one byte, none meets a full queue, and no chunk that is read has a NUL in it.
-/
namespace BlackHV

open Runs

/-- What `printf` prints of `%.*s`: the bytes before the first NUL. -/
def printed (bytes : List UInt8) : List UInt8 := bytes.takeWhile fun b => b ≠ 0

/-- The devices, and what `serial_thread` has printed. -/
structure Console where
  devices : Devices
  shown : List UInt8

/-- What an event prints, if port `i` is the one of `serial_thread`. -/
def MachineEvent.shows {n : Nat} (i : Fin n) : MachineEvent n → MachineAnswer → List UInt8
  | .read j _, .read bytes => if j = i then printed bytes else []
  | _, _ => []

/-- One event of the process; the calls of `serial_read` on port `i` are the turns of
`serial_thread`. -/
def consoleStep (configs : List SerialConfig) (table : HandlerTable Disk Devices)
    (regions : MmioTable) (i : Fin configs.length) (s : Console)
    (e : MachineEvent configs.length) : Except Fault (Console × MachineAnswer) := do
  let (devices, answer) ← machineStep configs table regions s.devices e
  .ok ({ devices, shown := s.shown ++ e.shows i answer }, answer)

/-- The bytes that the guest writes to the data register of a port. -/
def MachineEvent.sent {n : Nat} (c : SerialConfig) : MachineEvent n → List UInt8
  | .exit _ (.io io run) =>
      if io.direction = kvmExitIoOut ∧ io.size = 1 ∧ io.port = c.port then
        (List.range io.count.toNat).map fun k => run[io.offset k]?.getD 0
      else []
  | _ => []

namespace Console

/-- What has been printed, and what is in the queue. -/
def carried (c : SerialConfig) (s : Console) : List UInt8 :=
  match s.devices.serials c.address with
  | none => s.shown
  | some port => s.shown ++ port.guestQueue.contents

/-- A chunk with a NUL is read, a string of several bytes is written, or a byte meets a full
queue. -/
def Loses {n : Nat} (c : SerialConfig) (i : Fin n) (s : Console) : MachineEvent n → Prop
  | .read j len => j = i ∧
      ∃ port, s.devices.serials c.address = some port ∧ 0 ∈ port.guestQueue.contents.take len
  | e => 1 < (e.sent c).length ∨ e.sent c ≠ [] ∧
      ∃ port, s.devices.serials c.address = some port ∧ port.guestQueue.isFull = 1

end Console

/-! ## What an event does to the queue -/

section Printed
variable {bytes : List UInt8}

theorem printed_sublist (bytes : List UInt8) : (printed bytes).Sublist bytes :=
  List.takeWhile_sublist _

/-- All of it is printed if there is no NUL in it, and less otherwise. -/
theorem printed_eq (h : 0 ∉ bytes) : printed bytes = bytes :=
  List.takeWhile_eq_self_iff.mpr fun _ hb => decide_eq_true fun hzero => h (hzero ▸ hb)

theorem printed_length_lt (h : 0 ∈ bytes) : (printed bytes).length < bytes.length := by
  refine Nat.lt_of_le_of_ne (printed_sublist bytes).length_le fun heq => ?_
  have hself := (printed_sublist bytes).eq_of_length heq
  have hnonzero := List.takeWhile_eq_self_iff.mp hself 0 h
  exact absurd rfl (of_decide_eq_true hnonzero)

end Printed

namespace SerialConfig
variable {c : SerialConfig}

theorem register_zero (c : SerialConfig) : c.register 0 = c.port := UInt16.add_zero c.port

theorem register_eq_port_iff (c : SerialConfig) (reg : Fin 8) :
    c.register reg = c.port ↔ reg = 0 := by
  constructor
  · intro h
    rw [← c.register_zero] at h
    have hreg := congrArg c.regOf h
    rwa [regOf_register, regOf_register] at hreg
  · rintro rfl
    exact c.register_zero

end SerialConfig

/-- Only a byte for the data register gets into the queue, and a string its first. -/
theorem SerialFifos.exit_guest {n : Nat} {c : SerialConfig} (f : SerialFifos n) {io : KvmIo}
    (run : List UInt8) {reg : Fin 8} (hport : io.port = c.register reg) :
    (f.exit c io run).1.guest =
      if io.direction = kvmExitIoOut ∧ io.size = 1 ∧ reg = 0 then
        (f.guest.push [run[io.offset 0]?.getD 0]).1
      else f.guest := by
  by_cases h4 : io.size = 4
  · have h1 : ¬ io.size = 1 := by
      rw [h4]
      decide
    rw [exit, if_pos h4, if_neg fun h => h1 h.2.1]
  · rw [exit, if_neg h4]
    dsimp only
    by_cases hout : io.direction = kvmExitIoOut
    · by_cases hone : io.size = 1
      · have haccess : io.access run 0 = .outb io.port (run[io.offset 0]?.getD 0) := by
          rw [KvmIo.access, if_pos hout, if_pos hone]
        rw [haccess, access, hport, SerialConfig.regOf_register, command]
        by_cases hreg : reg = 0
        · rw [if_pos hreg, if_pos ⟨hout, hone, hreg⟩]
        · rw [if_neg hreg, if_neg fun h => hreg h.2.2]
      · have haccess : ∃ data, io.access run 0 = .outw io.port data := by
          rw [KvmIo.access, if_pos hout, if_neg hone]
          exact ⟨_, rfl⟩
        obtain ⟨data, haccess⟩ := haccess
        rw [haccess, if_neg fun h => hone h.2.1]
        rfl
    · have haccess : io.access run 0 = .inb io.port ∨ io.access run 0 = .inw io.port := by
        rw [KvmIo.access, if_neg hout]
        split
        · exact Or.inl rfl
        · exact Or.inr rfl
      rw [if_neg fun h => hout h.1]
      rcases haccess with haccess | haccess
      · rw [haccess, access, command]
        dsimp only
        split
        · rfl
        · rfl
      · rw [haccess]
        rfl

/-! ## What an event of the process does -/

section Sim
variable {configs : List SerialConfig} {diskFd : Int32} {regions : MmioTable}
  {table : HandlerTable Disk Devices} {i : Fin configs.length} {s s' : Console}
  {e : MachineEvent configs.length} {o : MachineAnswer}

/-- The invariant: each device holds what it would alone. -/
def Console.Good (configs : List SerialConfig) (s : Console) : Prop :=
  ∀ who, ∃ a, Related configs who s.devices a ∧ Sound configs who a

/-- From one pair of FIFOs to the next: a chunk is read, the first byte of a string is
written, or neither. -/
inductive ConsoleMove (i : Fin configs.length) (s s' : Console)
    (f f' : SerialFifos (configs.get i).size) (e : MachineEvent configs.length) : Prop where
  | read (len : Nat) (event : e = .read i len) (items : f'.guest = (f.guest.pop len).1)
      (shown : s'.shown = s.shown ++ printed (f.guest.pop len).2)
  | sent (b : UInt8) (rest : List UInt8) (event : e.sent (configs.get i) = b :: rest)
      (items : f'.guest = (f.guest.push [b]).1) (shown : s'.shown = s.shown)
  | other (event : e.sent (configs.get i) = []) (unread : ∀ len, e ≠ .read i len)
      (items : f'.guest = f.guest) (shown : s'.shown = s.shown)

/-- An event of another device shows nothing, and is not for the data register. -/
theorem other_event (hv : ∀ c ∈ configs, c.Valid) (ha : configs.Pairwise SerialConfig.Apart)
    (howner : e.owner configs ≠ .serial i) (o : MachineAnswer) :
    e.sent (configs.get i) = [] ∧ e.shows i o = [] ∧ ∀ len, e ≠ .read i len := by
  rcases e with ⟨disk, cause⟩ | ⟨j, len⟩ | ⟨j, buffer⟩
  · refine ⟨?_, rfl, fun _ => nofun⟩
    rcases cause with ⟨io, run⟩ | exit | ⟨result, regs⟩ | reason
    · refine if_neg fun hdata => howner ?_
      have hport : io.port = (configs.get i).register 0 :=
        hdata.2.2.trans (configs.get i).register_zero.symm
      show portOwner configs io.port = .serial i
      rw [hport, portOwner_register hv ha]
    · rfl
    · rfl
    · rfl
  · have hne : j ≠ i := fun hj => howner (hj ▸ rfl)
    refine ⟨rfl, ?_, fun len' h => hne (MachineEvent.read.inj h).1⟩
    unfold MachineEvent.shows
    split
    · rename_i hread
      cases hread
      exact if_neg hne
    · rfl
  · exact ⟨rfl, rfl, fun _ => nofun⟩

/-- What an exit is for the queue. -/
theorem exit_moves {disk : Disk} {io : KvmIo} {run : List UInt8} {reg : Fin 8}
    (he : io.Promised run) (hport : io.port = (configs.get i).register reg)
    (f : SerialFifos (configs.get i).size) {s s' : Console} (hshown : s'.shown = s.shown) :
    ConsoleMove i s s' f (f.exit (configs.get i) io run).1 (.exit disk (.io io run)) := by
  have hguest := f.exit_guest run hport
  by_cases hdata : io.direction = kvmExitIoOut ∧ io.size = 1 ∧ reg = 0
  · have hzero : io.port = (configs.get i).port := by
      rw [hport]
      exact ((configs.get i).register_eq_port_iff reg).mpr hdata.2.2
    obtain ⟨n, hn⟩ := Nat.exists_eq_add_of_le' he.count
    have hsent : (MachineEvent.exit disk (.io io run) : MachineEvent configs.length).sent
        (configs.get i) = run[io.offset 0]?.getD 0 ::
          (List.range n).map fun k => run[io.offset (k + 1)]?.getD 0 := by
      show (if _ then _ else _) = _
      rw [if_pos ⟨hdata.1, hdata.2.1, hzero⟩, hn, List.range_succ_eq_map, List.map_cons,
        List.map_map]
      rfl
    rw [if_pos hdata] at hguest
    exact .sent _ _ hsent hguest hshown
  · rw [if_neg hdata] at hguest
    refine .other (if_neg fun h => hdata ⟨h.1, h.2.1, ?_⟩) (fun _ => nofun) hguest hshown
    exact ((configs.get i).register_eq_port_iff reg).mp (hport.symm.trans h.2.2)

/-- **An event moves the queue on**, and leaves every device as it would be alone. -/
theorem consoleStep_moves (hv : ∀ c ∈ configs, c.Valid)
    (ha : configs.Pairwise SerialConfig.Apart) (ht : DeviceTable configs diskFd table)
    (he : e.Promised ∧ e.InTable) (hs : s.Good configs)
    (h : consoleStep configs table regions i s e = .ok (s', o)) :
    s'.Good configs ∧ ∃ f f', (configs.get i).Holds s.devices.serials f ∧
      (configs.get i).Holds s'.devices.serials f' ∧ ConsoleMove i s s' f f' e := by
  obtain ⟨⟨devices, answer⟩, hstep, hret⟩ := bind_eq_ok.mp h
  cases hret
  obtain ⟨a, hR, hsound⟩ := hs (e.owner configs)
  obtain ⟨a', o', halone, hsound'⟩ : ∃ a' o', alone configs diskFd regions (e.owner configs) a e =
    .ok (a', o') ∧ Sound configs _ a' := alone_ok he hsound
  obtain ⟨devices', hstep', hR', hothers⟩ := machine_follows hv ha ht he hR halone
  obtain ⟨rfl, rfl⟩ := Prod.mk.inj (Except.ok.inj (hstep.symm.trans hstep'))
  refine ⟨fun who => ?_, ?_⟩
  · by_cases hwho : who = e.owner configs
    · subst hwho
      exact ⟨a', hR', hsound'⟩
    · obtain ⟨b, hb, hbs⟩ := hs who
      exact ⟨b, hothers who hwho b hb, hbs⟩
  obtain ⟨f, hf, -⟩ := hs (.serial i)
  by_cases howner : e.owner configs = .serial i
  · rcases e with ⟨disk, cause⟩ | ⟨j, len⟩ | ⟨j, buffer⟩
    · rcases cause with ⟨io, run⟩ | exit | ⟨result, regs⟩ | reason
      · obtain ⟨devices', hown, hf', -⟩ := exit_follows hv ha ht he howner hf rfl
        obtain ⟨rfl, -⟩ := Prod.mk.inj (Except.ok.inj (hstep.symm.trans hown))
        obtain ⟨reg, hreg⟩ := portOwner_serial howner
        exact ⟨f, _, hf, hf', exit_moves he.1 hreg f (List.append_nil _)⟩
      all_goals cases howner
    · cases howner
      obtain ⟨devices', hown, hf', -⟩ := machine_follows hv ha ht he hf rfl
      obtain ⟨rfl, rfl⟩ := Prod.mk.inj (Except.ok.inj (hstep.symm.trans hown))
      exact ⟨f, _, hf, hf', .read len rfl rfl (congrArg (s.shown ++ ·) (if_pos rfl))⟩
    · cases howner
      obtain ⟨devices', hown, hf', -⟩ := machine_follows hv ha ht he hf rfl
      obtain ⟨rfl, rfl⟩ := Prod.mk.inj (Except.ok.inj (hstep.symm.trans hown))
      exact ⟨f, _, hf, hf', .other rfl (fun _ => nofun) rfl (List.append_nil _)⟩
  · obtain ⟨hsent, hshows, hunread⟩ := other_event hv ha howner o
    refine ⟨f, f, hf, hothers (.serial i) (Ne.symm howner) f hf, .other hsent hunread rfl ?_⟩
    show s.shown ++ e.shows i o = s.shown
    rw [hshows, List.append_nil]

variable (regions) in
/-- It does not fault. -/
theorem consoleStep_ok (hv : ∀ c ∈ configs, c.Valid)
    (ha : configs.Pairwise SerialConfig.Apart) (ht : DeviceTable configs diskFd table)
    (he : e.Promised ∧ e.InTable) (hs : s.Good configs) :
    ∃ s' o, consoleStep configs table regions i s e = .ok (s', o) ∧ s'.Good configs := by
  obtain ⟨a, hR, hsound⟩ := hs (e.owner configs)
  obtain ⟨a', o, halone, -⟩ : ∃ a' o, alone configs diskFd regions (e.owner configs) a e =
    .ok (a', o) ∧ Sound configs _ a' := alone_ok he hsound
  obtain ⟨devices, hstep, -⟩ := machine_follows hv ha ht he hR halone
  have h : consoleStep configs table regions i s e =
      .ok (⟨devices, s.shown ++ e.shows i o⟩, o) := by
    rw [consoleStep, hstep, ok_bind]
  exact ⟨_, o, h, (consoleStep_moves hv ha ht he hs h).1⟩

/-! ## What is carried -/

section Carried
variable {f f' : SerialFifos (configs.get i).size}

theorem Console.carried_eq (h : (configs.get i).Holds s.devices.serials f) :
    s.carried (configs.get i) = s.shown ++ f.guest.items := by
  obtain ⟨port, hport, -, ⟨-, hguest⟩, -⟩ := h
  rw [carried, hport]
  dsimp only
  rw [hguest.contents_eq]

/-- A chunk that is read loses something if there is a NUL in it. -/
theorem Console.loses_read (h : (configs.get i).Holds s.devices.serials f) (len : Nat) :
    s.Loses (configs.get i) i (.read i len) ↔ 0 ∈ f.guest.items.take len := by
  obtain ⟨port, hport, -, ⟨-, hguest⟩, -⟩ := h
  rw [← hguest.contents_eq]
  constructor
  · rintro ⟨-, port', hport', hzero⟩
    cases hport.symm.trans hport'
    exact hzero
  · exact fun hzero => ⟨rfl, port, hport, hzero⟩

/-- A string loses something if it has more than one byte, or there is no room. -/
theorem Console.loses_sent (h : (configs.get i).Holds s.devices.serials f) {b : UInt8}
    {rest : List UInt8} (hsent : e.sent (configs.get i) = b :: rest) :
    s.Loses (configs.get i) i e ↔ rest ≠ [] ∨ f.guest.items.length = (configs.get i).size := by
  obtain ⟨port, hport, -, ⟨hsize, hguest⟩, -⟩ := h
  have hfull := hguest.full_iff
  rw [hsize] at hfull
  have hlong : 1 < (b :: rest).length ↔ rest ≠ [] := by
    rw [← List.length_pos_iff, List.length_cons]
    omega
  rw [← hfull, ← hlong, ← hsent]
  have hexists : (e.sent (configs.get i) ≠ [] ∧ ∃ port, s.devices.serials (configs.get i).address =
      some port ∧ port.guestQueue.isFull = 1) ↔ port.guestQueue.isFull = 1 := by
    constructor
    · rintro ⟨-, port', hport', hisFull⟩
      cases hport.symm.trans hport'
      exact hisFull
    · exact fun hisFull => ⟨by rw [hsent]; exact List.cons_ne_nil b rest, port, hport, hisFull⟩
  rw [← hexists]
  rcases e with ⟨disk, cause⟩ | ⟨j, len⟩ | ⟨j, buffer⟩
  · exact Iff.rfl
  · cases hsent
  · cases hsent

/-- Nothing else does. -/
theorem Console.not_loses (hsent : e.sent (configs.get i) = []) (hunread : ∀ len, e ≠ .read i len) :
    ¬ s.Loses (configs.get i) i e := by
  have hnone : ¬ (1 < (e.sent (configs.get i)).length ∨ e.sent (configs.get i) ≠ [] ∧
      ∃ port, s.devices.serials (configs.get i).address = some port ∧
        port.guestQueue.isFull = 1) := by
    rw [hsent]
    rintro (hlt | ⟨hne, -⟩)
    · exact absurd hlt (Nat.not_lt_zero 1)
    · exact hne rfl
  rcases e with ⟨disk, cause⟩ | ⟨j, len⟩ | ⟨j, buffer⟩
  · exact hnone
  · rintro ⟨rfl, -⟩
    exact hunread len rfl
  · exact hnone

/-- A move that loses nothing. -/
theorem ConsoleMove.keeps (h : ConsoleMove i s s' f f' e)
    (hf : (configs.get i).Holds s.devices.serials f)
    (hf' : (configs.get i).Holds s'.devices.serials f')
    (hkeeps : ¬ s.Loses (configs.get i) i e) :
    s'.carried (configs.get i) = s.carried (configs.get i) ++ e.sent (configs.get i) := by
  rw [Console.carried_eq hf, Console.carried_eq hf']
  rcases h with ⟨len, rfl, hitems, hshown⟩ | ⟨b, rest, hsent, hitems, hshown⟩ |
    ⟨hsent, -, hitems, hshown⟩
  · have hzero := mt (Console.loses_read hf len).mpr hkeeps
    have hchunk : printed (f.guest.pop len).2 = f.guest.items.take len := printed_eq hzero
    have hrest : f'.guest.items = f.guest.items.drop len := congrArg BoundedFifo.items hitems
    have hsent : (MachineEvent.read i len).sent (configs.get i) = [] := rfl
    rw [hshown, hchunk, hrest, hsent, List.append_nil, List.append_assoc, List.take_append_drop]
  · obtain ⟨hone, hroom⟩ := not_or.mp (mt (Console.loses_sent hf hsent).mpr hkeeps)
    have hlt := Nat.lt_of_le_of_ne f.guest.bounded hroom
    have htake : [b].take f.guest.room = [b] :=
      List.take_of_length_le (by unfold BoundedFifo.room; rw [List.length_singleton]; omega)
    have hin : f'.guest.items = f.guest.items ++ [b].take f.guest.room :=
      congrArg BoundedFifo.items hitems
    rw [hshown, hin, htake, hsent, Classical.not_not.mp hone, List.append_assoc]
  · rw [hshown, hitems, hsent, List.append_nil]

/-- A move that loses something: the rest of a chunk, the rest of a string, or a byte. -/
theorem ConsoleMove.loses (h : ConsoleMove i s s' f f' e)
    (hf : (configs.get i).Holds s.devices.serials f)
    (hf' : (configs.get i).Holds s'.devices.serials f')
    (hloses : s.Loses (configs.get i) i e) :
    (s'.carried (configs.get i)).Sublist
        (s.carried (configs.get i) ++ e.sent (configs.get i)) ∧
      (s'.carried (configs.get i)).length <
        (s.carried (configs.get i) ++ e.sent (configs.get i)).length := by
  rw [Console.carried_eq hf, Console.carried_eq hf']
  rcases h with ⟨len, rfl, hitems, hshown⟩ | ⟨b, rest, hsent, hitems, hshown⟩ |
    ⟨hsent, hunread, -, -⟩
  · have hzero := (Console.loses_read hf len).mp hloses
    have hrest : f'.guest.items = f.guest.items.drop len := congrArg BoundedFifo.items hitems
    have hsent : (MachineEvent.read i len).sent (configs.get i) = [] := rfl
    have hall : f.guest.items = f.guest.items.take len ++ f.guest.items.drop len :=
      (List.take_append_drop len f.guest.items).symm
    have hsub : (printed (f.guest.items.take len)).Sublist (f.guest.items.take len) :=
      printed_sublist _
    have hlt : (printed (f.guest.items.take len)).length < (f.guest.items.take len).length :=
      printed_length_lt hzero
    have hpop : (f.guest.pop len).2 = f.guest.items.take len := rfl
    rw [hshown, hpop, hrest, hsent, List.append_nil, List.append_assoc]
    constructor
    · refine List.Sublist.append_left ?_ s.shown
      conv => rhs; rw [hall]
      exact hsub.append_right _
    · have hlen := congrArg List.length hall
      rw [List.length_append] at hlen
      simp only [List.length_append]
      omega
  · have hin : f'.guest.items = f.guest.items ++ [b].take f.guest.room :=
      congrArg BoundedFifo.items hitems
    rw [hshown, hin, hsent, ← List.append_assoc]
    constructor
    · refine List.Sublist.append_left ?_ _
      exact (List.take_sublist _ _).trans ((List.nil_sublist rest).cons_cons b)
    · have hless : ([b].take f.guest.room).length < (b :: rest).length := by
        rcases (Console.loses_sent hf hsent).mp hloses with hlong | hfull
        · have hpos := List.length_pos_iff.mpr hlong
          rw [List.length_take, List.length_singleton, List.length_cons]
          omega
        · rw [BoundedFifo.room, hfull, Nat.sub_self, List.take_zero]
          exact Nat.succ_pos _
      simp only [List.length_append]
      omega
  · exact absurd hloses (Console.not_loses hsent hunread)

end Carried

variable (regions) in
/-- **Only these lose bytes.** -/
theorem console_carries (hv : ∀ c ∈ configs, c.Valid)
    (ha : configs.Pairwise SerialConfig.Apart) (ht : DeviceTable configs diskFd table) :
    Flows.Carries (consoleStep configs table regions i) (Console.Good configs)
      (fun e => e.Promised ∧ e.InTable) (Console.carried (configs.get i))
      (fun e _ => e.sent (configs.get i)) (fun s e => ¬ s.Loses (configs.get i) i e) where
  inv := fun s e s' o hs he h => (consoleStep_moves hv ha ht he hs h).1
  keeps := by
    intro s e s' o hs he h hkeeps
    obtain ⟨-, f, f', hf, hf', hmove⟩ := consoleStep_moves hv ha ht he hs h
    exact hmove.keeps hf hf' hkeeps
  loses := by
    intro s e s' o hs he h hloses
    obtain ⟨-, f, f', hf, hf', hmove⟩ := consoleStep_moves hv ha ht he hs h
    exact hmove.loses hf hf' (Classical.not_not.mp hloses)

end Sim

/-! ## Runs -/

/-- **The user sees what the guest writes, in order.**  In every run of a process with serial
ports and the disk, with `serial_thread` on one of the ports, one exit or call after the other:
nothing faults; what has been printed, and what is in the queue behind it, are bytes that the
guest has written to the port, without a byte twice and none before another; and they are all
of them exactly if every string is of one byte, none meets a full queue, and no chunk that is
read has a NUL in it. -/
theorem console_shows_iff {configs : List SerialConfig} (hv : ∀ c ∈ configs, c.Valid)
    (ha : configs.Pairwise SerialConfig.Apart) (hdisk : ∀ c ∈ configs, c.AvoidsDisk)
    (diskFd : Int32) (regions : MmioTable) (i : Fin configs.length) :
    ∃ table s, startDevices configs diskFd = .ok (table, s) ∧
      ∀ events : List (MachineEvent configs.length), (∀ e ∈ events, e.Promised) →
        (∀ e ∈ events, e.InTable) →
        ∃ s' answers, trace (consoleStep configs table regions i) ⟨s, []⟩ events =
            .ok (s', answers) ∧
          s'.shown <+: s'.carried (configs.get i) ∧
          (s'.carried (configs.get i)).Sublist (events.flatMap (·.sent (configs.get i))) ∧
          (s'.carried (configs.get i) = events.flatMap (·.sent (configs.get i)) ↔
            EachStep (fun s e => (consoleStep configs table regions i s e).map Prod.fst)
              (fun s e => ¬ s.Loses (configs.get i) i e) ⟨s, []⟩ events) := by
  obtain ⟨table, s, hstart, ht, hatapi, hserials⟩ := startDevices_spec hv ha hdisk diskFd
  refine ⟨table, s, hstart, fun events hp hin => ?_⟩
  have hgood : Console.Good configs ⟨s, []⟩ :=
    fun who => ⟨who.fresh configs, related_fresh hatapi hserials who, sound_fresh who⟩
  have he : ∀ e ∈ events, e.Promised ∧ e.InTable := fun e hmem => ⟨hp e hmem, hin e hmem⟩
  obtain ⟨s', answers, htrace, hgood'⟩ := Families.exists_trace
    (fun e hmem _ hs => consoleStep_ok regions (i := i) hv ha ht (he e hmem) hs) hgood
  have hcarries := console_carries regions (i := i) hv ha ht
  have hheld : (configs.get i).Holds s.serials (.empty (configs.get i).size) :=
    hserials _ (List.get_mem configs i)
  have hempty : Console.carried (configs.get i) ⟨s, []⟩ = [] :=
    Console.carried_eq (s := ⟨s, []⟩) hheld
  have htaken := Flows.taken_of_trace htrace fun e => e.sent (configs.get i)
  refine ⟨s', answers, htrace, ?_, ?_, ?_⟩
  · obtain ⟨f, hf, -⟩ := hgood' (.serial i)
    rw [Console.carried_eq hf]
    exact List.prefix_append _ _
  · have hsub := hcarries.carried_sublist hgood he htrace
    rwa [htaken, hempty, List.nil_append] at hsub
  · have hiff := hcarries.carried_eq_iff hgood he htrace
    rwa [htaken, hempty, List.nil_append] at hiff

/-- The byte that the guest sends through COM1. -/
theorem console_shows_iff_com :
    let disk : Disk := fun _ _ => []
    ∃ table s, startDevices comPorts 3 = .ok (table, s) ∧
      ∃ s' answers, trace (consoleStep comPorts table MmioTable.zero ⟨0, by decide⟩) ⟨s, []⟩
          (comEvents disk) = .ok (s', answers) ∧
        s'.shown <+: s'.carried comPorts[0] ∧ (s'.carried comPorts[0]).Sublist [65] ∧
        (s'.carried comPorts[0] = [65] ↔
          EachStep (fun s e =>
              (consoleStep comPorts table MmioTable.zero ⟨0, by decide⟩ s e).map Prod.fst)
            (fun s e => ¬ s.Loses comPorts[0] ⟨0, by decide⟩ e) ⟨s, []⟩ (comEvents disk)) := by
  intro disk
  obtain ⟨table, s, hstart, hall⟩ := console_shows_iff comPorts_valid comPorts_apart
    comPorts_avoidsDisk 3 MmioTable.zero ⟨0, by decide⟩
  exact ⟨table, s, hstart, hall (comEvents disk) (comEvents_promised disk)
    (comEvents_inTable disk)⟩

end BlackHV
