import BlackHV.Serial

/-! # The lifetime of serial ports

A handler of a serial port carries the address of its device, and `serial_destroy` frees
the device.  What keeps the table free of dangling pointers is where a device's handlers
can be: only at the eight ports of its own window, which `serial_destroy` clears before
it frees, whoever has registered there since.
-/
namespace BlackHV

variable {Env : Type}

/-- The heap without the block at an address. -/
def Serials.remove (devs : Serials) (address : UInt64) : Serials :=
  fun a => if a = address then none else devs a

theorem Serials.remove_ne {a address : UInt64} (h : a ≠ address) (devs : Serials) :
    devs.remove address a = devs a := if_neg h

/-- `serial_destroy`.  The two queues are part of the device here, and go with it. -/
def serialDestroy (table : HandlerTable Env Serials) (devs : Serials) (address : UInt64) :
    Except Fault (HandlerTable Env Serials × Serials) :=
  if address = 0 then
    .ok (table, devs)
  else do
    let serial ← devs.deref address
    let table ← (List.range 8).foldlM
      (fun t i => ioUnregisterHandler t (serial.port + UInt16.ofNat i)) table
    .ok (table, devs.remove address)

/-- The table of handlers, and the live devices. -/
structure SerialHost (Env : Type) where
  table : HandlerTable Env Serials
  devs : Serials

/-- A call that creates or destroys a serial port, or registers a handler of some other
device. -/
inductive SerialPortCall (Env : Type) where
  | new (port : UInt16) (size : Nat) (blocks : SerialBlocks size)
  | destroy (address : UInt64)
  | register (port : UInt16) (hdl : Handler Env Serials)

namespace SerialHost

/-- Before the first call. -/
def start : SerialHost Env := ⟨HandlerTable.zero, fun _ => none⟩

/-- One call. -/
def step (host : SerialHost Env) : SerialPortCall Env → Except Fault (SerialHost Env)
  | .new port size blocks => do
      let (_, table, devs) ← serialNew host.table host.devs port size blocks
      .ok ⟨table, devs⟩
  | .destroy address => do
      let (table, devs) ← serialDestroy host.table host.devs address
      .ok ⟨table, devs⟩
  | .register port hdl => do
      let table ← ioRegisterHandler host.table port hdl
      .ok { host with table }

/-- The entry at a port reaches no device that is gone: the pointer it carries, if it is
one to a serial port, is to a live one, and no access to the port faults on it. -/
structure Sound (serials : List UInt64) (host : SerialHost Env) : Prop where
  live : ∀ port, (host.table port).params ∈ serials →
    (host.devs (host.table port).params).isSome = true
  access : ∀ env a, (host.table a.port).params ∈ serials →
    ioHandle host.table env host.devs a ≠ .error .notAllocated

/-- What is asked of a call in the state before it: `malloc` has returned a block that is
not in use, and a port is destroyed once only. -/
def Allows (host : SerialHost Env) : SerialPortCall Env → Prop
  | .new _ _ blocks => ∀ address, blocks.serial = some address → host.devs address = none
  | .destroy address => (host.devs address).isSome = true
  | .register _ _ => True

end SerialHost

namespace SerialPortCall

/-- The block that `malloc` has returned for a `serial_t`, whether or not the creation
succeeds. -/
def block : SerialPortCall Env → Option UInt64
  | .new _ _ blocks => blocks.serial
  | .destroy _ => none
  | .register _ _ => none

/-- The blocks of all serial ports of a run. -/
def serials (events : List (SerialPortCall Env)) : List UInt64 := events.filterMap block

/-- A window of eight ports with an entry each, and handlers of other devices: what they
carry is none of the serial ports. -/
def WellFormed (serials : List UInt64) : SerialPortCall Env → Prop
  | .new port _ _ => port.toNat + 7 ≤ 0xFFFE
  | .destroy _ => True
  | .register port hdl => port ≠ 0xFFFF ∧ hdl.params ∉ serials

end SerialPortCall

/-! ## Windows -/

/-- The eight registers of a serial port. -/
def serialWindow (port : UInt16) : List UInt16 :=
  (List.range 8).map fun i => port + UInt16.ofNat i

theorem ne_of_mem_serialWindow {base port : UInt16} (hbase : base.toNat + 7 ≤ 0xFFFE)
    (h : port ∈ serialWindow base) : port ≠ 0xFFFF := by
  obtain ⟨i, hi, rfl⟩ := List.mem_map.mp h
  have hlt : i < 8 := List.mem_range.mp hi
  intro he
  have hnat := congrArg UInt16.toNat he
  rw [UInt16.toNat_add, UInt16.toNat_ofNat'] at hnat
  change (base.toNat + i % 65536) % 65536 = 0xFFFF at hnat
  omega

theorem serialRegistrations_map_fst (Env : Type) (base : UInt16) (address : UInt64) :
    (serialRegistrations base address : List (UInt16 × Handler Env Serials)).map Prod.fst =
      serialWindow base := by
  rw [serialRegistrations, List.map_map]
  rfl

section Calls
variable {table : HandlerTable Env Serials} {devs : Serials} {base : UInt16}

/-- A call of `serial_new` whose window is in the table changes nothing, or puts a device
at its block and its handler into the window. -/
theorem serialNew_cases (table : HandlerTable Env Serials) (devs : Serials)
    (hbase : base.toNat + 7 ≤ 0xFFFE) (size : Nat) (blocks : SerialBlocks size) :
    (∃ r, serialNew table devs base size blocks = .ok (r, table, devs)) ∨
    ∃ address serial, blocks.serial = some address ∧ serial.port = base ∧
      serialNew table devs base size blocks = .ok (some address,
        (serialRegistrations base address).foldl (fun t r => t.update r.1 r.2) table,
        devs.put address serial) := by
  have hports : ∀ address, ∀ r ∈ (serialRegistrations base address :
      List (UInt16 × Handler Env Serials)), r.1 ≠ 0xFFFF := by
    intro address r hr
    refine ne_of_mem_serialWindow hbase ?_
    rw [← serialRegistrations_map_fst Env base address]
    exact List.mem_map_of_mem hr
  unfold serialNew
  cases blocks.serial with
  | none => exact Or.inl ⟨none, rfl⟩
  | some address =>
      cases queueNew size blocks.guestQueue.1 blocks.guestQueue.2 with
      | none => exact Or.inl ⟨none, rfl⟩
      | some guestQueue =>
          cases queueNew size blocks.hostQueue.1 blocks.hostQueue.2 with
          | none => exact Or.inl ⟨none, rfl⟩
          | some hostQueue =>
              refine Or.inr ⟨address, ⟨base, guestQueue, hostQueue⟩, rfl, rfl, ?_⟩
              simp only [HandlerTable.register_all (hports address), ok_bind]

/-- `serial_destroy` clears the window of the device, and frees it. -/
theorem serialDestroy_ok {address : UInt64} {serial : Serial} (ha : address ≠ 0)
    (hd : devs address = some serial) (hbase : serial.port.toNat + 7 ≤ 0xFFFE) :
    serialDestroy table devs address = .ok
      (((serialWindow serial.port).map (·, {})).foldl (fun t r => t.update r.1 r.2) table,
        devs.remove address) := by
  have hports : ∀ r ∈ ((serialWindow serial.port).map (·, {}) :
      List (UInt16 × Handler Env Serials)), r.1 ≠ 0xFFFF := by
    intro r hr
    obtain ⟨port, hport, rfl⟩ := List.mem_map.mp hr
    exact ne_of_mem_serialWindow hbase hport
  have hclear := HandlerTable.register_all hports table
  rw [List.foldlM_map, serialWindow, List.foldlM_map] at hclear
  rw [serialDestroy, if_neg ha, Serials.deref_ok hd, ok_bind]
  exact congrArg (· >>= fun t => Except.ok (t, devs.remove address)) hclear

/-- The entry at a port after `serial_new` has registered its device. -/
theorem registered_cases (table : HandlerTable Env Serials) (base : UInt16) (address : UInt64)
    (port : UInt16) :
    (port ∈ serialWindow base ∧ (serialRegistrations base address).foldl
        (fun t r => t.update r.1 r.2) table port = serialHandler address) ∨
    (serialRegistrations base address).foldl (fun t r => t.update r.1 r.2) table port =
      table port := by
  rw [← serialRegistrations_map_fst Env base address]
  by_cases hport : port ∈ (serialRegistrations base address :
      List (UInt16 × Handler Env Serials)).map Prod.fst
  · refine Or.inl ⟨hport, HandlerTable.foldl_update_same (fun r hr => ?_) (Or.inl hport)⟩
    obtain ⟨_, -, rfl⟩ := List.mem_map.mp hr
    rfl
  · exact Or.inr (HandlerTable.foldl_update_other hport)

/-- The entry at a port after `serial_destroy` has cleared the window. -/
theorem cleared_cases (table : HandlerTable Env Serials) (base : UInt16) (port : UInt16) :
    ((serialWindow base).map (·, {})).foldl (fun t r => t.update r.1 r.2) table port = {} ∨
    port ∉ serialWindow base ∧
      ((serialWindow base).map (·, {})).foldl (fun t r => t.update r.1 r.2) table port =
        table port := by
  have hfst : ((serialWindow base).map (·, ({} : Handler Env Serials))).map Prod.fst =
      serialWindow base := by
    rw [List.map_map]
    exact List.map_id _
  by_cases hport : port ∈ serialWindow base
  · refine Or.inl (HandlerTable.foldl_update_same (fun r hr => ?_) (Or.inl (hfst.symm ▸ hport)))
    obtain ⟨_, -, rfl⟩ := List.mem_map.mp hr
    rfl
  · exact Or.inr ⟨hport, HandlerTable.foldl_update_other (hfst.symm ▸ hport)⟩

end Calls

/-! ## Accesses -/

/-- The loop of `queue_write` faults on an index or on the remainder only. -/
theorem Queue.writeLoop_fault {q : Queue} {buffer : List UInt8} {e : Fault}
    (h : q.writeLoop buffer = .error e) : e = .outOfBounds ∨ e = .remainderByZero := by
  induction buffer generalizing q with
  | nil =>
      cases h
      exact Or.inl rfl
  | cons b rest ih =>
      rcases bind_eq_error.mp h with hstore | ⟨q₁, -, h⟩
      · unfold store at hstore
        split at hstore <;> cases hstore
        exact Or.inl rfl
      · rcases bind_eq_error.mp h with hnext | ⟨rear, -, h⟩
        · unfold next at hnext
          split at hnext <;> cases hnext
          exact Or.inr rfl
        · dsimp only at h
          split at h
          · rcases bind_eq_error.mp h with hrest | ⟨r, -, h⟩
            · exact ih hrest
            · cases h
          · cases h

/-- The loop of `queue_read` faults on an index or on the remainder only. -/
theorem Queue.readLoop_fault {q : Queue} {left : Nat} {e : Fault}
    (h : q.readLoop left = .error e) : e = .outOfBounds ∨ e = .remainderByZero := by
  induction left generalizing q with
  | zero =>
      cases h
      exact Or.inl rfl
  | succ left ih =>
      rcases bind_eq_error.mp h with hload | ⟨b, -, h⟩
      · unfold load at hload
        split at hload <;> cases hload
        exact Or.inl rfl
      · rcases bind_eq_error.mp h with hnext | ⟨front, -, h⟩
        · unfold next at hnext
          split at hnext <;> cases hnext
          exact Or.inr rfl
        · dsimp only at h
          split at h
          · rcases bind_eq_error.mp h with hrest | ⟨r, -, h⟩
            · exact ih hrest
            · cases h
          · cases h

theorem queueWrite_fault {q : Queue} {buffer : List UInt8} {e : Fault}
    (h : queueWrite q buffer = .error e) : e = .outOfBounds ∨ e = .remainderByZero := by
  unfold queueWrite at h
  split at h
  · rcases bind_eq_error.mp h with hloop | ⟨r, -, h⟩
    · exact Queue.writeLoop_fault hloop
    · cases h
  · cases h

theorem queueRead_fault {q : Queue} {size : Nat} {e : Fault}
    (h : queueRead q size = .error e) : e = .outOfBounds ∨ e = .remainderByZero := by
  unfold queueRead at h
  split at h
  · rcases bind_eq_error.mp h with hloop | ⟨r, -, h⟩
    · exact Queue.readLoop_fault hloop
    · cases h
  · cases h

section Registers
variable {devs : Serials} {address : UInt64} {serial : Serial} {env : Env} {port : UInt16}

theorem serialOutb_live (hd : devs address = some serial) (data : UInt8) :
    serialOutb env port data address devs ≠ .error .notAllocated := by
  intro h
  unfold serialOutb at h
  split at h
  · cases h
  · rw [Serials.deref_ok hd, ok_bind] at h
    dsimp only at h
    split at h
    · rw [writeData, Serials.deref_ok hd, ok_bind] at h
      rcases bind_eq_error.mp h with hq | ⟨r, -, h⟩
      · rcases queueWrite_fault hq with he | he <;> cases he
      · cases h
    · cases h

theorem serialInb_live (hd : devs address = some serial) :
    serialInb env port address devs ≠ .error .notAllocated := by
  intro h
  unfold serialInb at h
  split at h
  · cases h
  · rw [Serials.deref_ok hd, ok_bind] at h
    dsimp only at h
    split at h
    · rcases bind_eq_error.mp h with hq | ⟨r, -, h⟩
      · rcases queueRead_fault hq with he | he <;> cases he
      · cases h
    · split at h <;> cases h

/-- An access to a port of a live device does not fault on its block. -/
theorem ioHandle_serial_live {table : HandlerTable Env Serials} (hd : devs address = some serial)
    (a : PortAccess) (ht : table a.port = serialHandler address) :
    ioHandle table env devs a ≠ .error .notAllocated := by
  have hat : table.at a.port = .ok (serialHandler address) ∨
      table.at a.port = .error .outOfBounds := by
    unfold HandlerTable.at
    split
    · exact Or.inl (congrArg _ ht)
    · exact Or.inr rfl
  intro h
  cases a with
  | outb port data =>
      rcases hat with hat | hat <;> simp only [PortAccess.port] at hat <;>
        simp only [ioHandle, ioHandleOutb, hat, ok_bind, error_bind] at h
      · rcases bind_eq_error.mp h with h | ⟨r, -, h⟩
        · rcases bind_eq_error.mp h with h | ⟨s, -, h⟩
          · exact serialOutb_live hd data h
          · cases h
        · cases h
      · cases h
  | inb port =>
      rcases hat with hat | hat <;> simp only [PortAccess.port] at hat <;>
        simp only [ioHandle, ioHandleInb, hat, ok_bind, error_bind] at h
      · rcases bind_eq_error.mp h with h | ⟨r, -, h⟩
        · rcases bind_eq_error.mp h with h | ⟨s, -, h⟩
          · exact serialInb_live hd h
          · cases h
        · cases h
      · cases h
  | outw port data =>
      rcases hat with hat | hat <;> simp only [PortAccess.port] at hat <;>
        simp only [ioHandle, ioHandleOutw, hat, ok_bind, error_bind] at h <;> cases h
  | inw port =>
      rcases hat with hat | hat <;> simp only [PortAccess.port] at hat <;>
        simp only [ioHandle, ioHandleInw, hat, ok_bind, error_bind] at h <;> cases h

end Registers

/-! ## Runs -/

namespace SerialHost

/-- The handlers of a serial port are in the window of a live device.  The windows of
different devices may overlap: then the one registered last has the ports they share. -/
structure Attached (serials : List UInt64) (host : SerialHost Env) : Prop where
  device : ∀ address serial, host.devs address = some serial →
    address ≠ 0 ∧ serial.port.toNat + 7 ≤ 0xFFFE
  entry : ∀ port, (host.table port).params ∈ serials →
    host.table port = serialHandler (host.table port).params ∧
    ∃ serial, host.devs (host.table port).params = some serial ∧ port ∈ serialWindow serial.port

variable {serials : List UInt64} {host : SerialHost Env}

theorem attached_start (hnull : 0 ∉ serials) : (start : SerialHost Env).Attached serials where
  device := fun _ _ h => by cases h
  entry := fun _ h => absurd h hnull

theorem Attached.sound (h : host.Attached serials) : host.Sound serials where
  live := by
    intro port hport
    obtain ⟨-, serial, hd, -⟩ := h.entry port hport
    rw [hd]
    rfl
  access := by
    intro env a ha
    obtain ⟨ht, serial, hd, -⟩ := h.entry a.port ha
    exact ioHandle_serial_live hd a ht

/-- A new device, in a block that was not in use: what was registered keeps its device,
as no entry carried the block before. -/
theorem Attached.new (h : host.Attached serials) {address : UInt64} {serial : Serial}
    (ha : address ≠ 0) (hfresh : host.devs address = none)
    (hbase : serial.port.toNat + 7 ≤ 0xFFFE) :
    Attached serials ⟨(serialRegistrations serial.port address).foldl
      (fun t r => t.update r.1 r.2) host.table, host.devs.put address serial⟩ where
  device := by
    intro a s hs
    by_cases he : a = address
    · subst he
      cases (Serials.put_self ..).symm.trans hs
      exact ⟨ha, hbase⟩
    · exact h.device a s ((Serials.put_ne he ..).symm.trans hs)
  entry := by
    intro port hport
    rcases registered_cases host.table serial.port address port with ⟨hmem, he⟩ | he
    · simp only [he] at hport ⊢
      exact ⟨rfl, serial, Serials.put_self .., hmem⟩
    · simp only [he] at hport ⊢
      obtain ⟨ht, s, hs, hmem⟩ := h.entry port hport
      refine ⟨ht, s, (Serials.put_ne (fun he => ?_) ..).trans hs, hmem⟩
      rw [he, hfresh] at hs
      cases hs

/-- A device destroyed: the entries outside its window carry other blocks. -/
theorem Attached.destroy (h : host.Attached serials) (hnull : 0 ∉ serials) {address : UInt64}
    {serial : Serial} (hd : host.devs address = some serial) :
    Attached serials ⟨((serialWindow serial.port).map (·, {})).foldl
      (fun t r => t.update r.1 r.2) host.table, host.devs.remove address⟩ where
  device := by
    intro a s hs
    by_cases ha : a = address
    · cases (if_pos ha).symm.trans hs
    · exact h.device a s ((Serials.remove_ne ha _).symm.trans hs)
  entry := by
    intro port hport
    rcases cleared_cases host.table serial.port port with he | ⟨hmem, he⟩
    · simp only [he] at hport
      exact absurd hport hnull
    · simp only [he] at hport ⊢
      obtain ⟨ht, s, hs, hwindow⟩ := h.entry port hport
      refine ⟨ht, s, (Serials.remove_ne (fun ha => ?_) _).trans hs, hwindow⟩
      rw [ha, hd] at hs
      cases hs
      exact hmem hwindow

/-- The handler of another device at a port. -/
theorem Attached.register (h : host.Attached serials) {hdl : Handler Env Serials}
    (hother : hdl.params ∉ serials) (port : UInt16) :
    Attached serials { host with table := host.table.update port hdl } where
  device := h.device
  entry := by
    intro p hp
    by_cases he : p = port
    · simp only [HandlerTable.update, if_pos he] at hp
      exact absurd hp hother
    · simp only [HandlerTable.update, if_neg he] at hp ⊢
      exact h.entry p hp

/-- Every call leaves the handlers of serial ports in the windows of live devices. -/
theorem step_attached (hnull : 0 ∉ serials) (h : host.Attached serials) {e : SerialPortCall Env}
    (hallows : host.Allows e) (hwell : e.WellFormed serials)
    (hblock : ∀ address, e.block = some address → address ∈ serials) :
    ∃ host', host.step e = .ok host' ∧ host'.Attached serials := by
  cases e with
  | new port size blocks =>
      rcases serialNew_cases host.table host.devs hwell size blocks with
        ⟨r, he⟩ | ⟨address, serial, hb, hport, he⟩
      · refine ⟨host, ?_, h⟩
        simp only [step, he, ok_bind]
      · subst hport
        have hnonnull : address ≠ 0 := fun he => hnull (he ▸ hblock address hb)
        refine ⟨_, ?_, h.new hnonnull (hallows address hb) hwell⟩
        simp only [step, he, ok_bind]
  | destroy address =>
      obtain ⟨serial, hd⟩ := Option.isSome_iff_exists.mp hallows
      obtain ⟨hnonnull, hbase⟩ := h.device address serial hd
      refine ⟨_, ?_, h.destroy hnull hd⟩
      simp only [step, serialDestroy_ok hnonnull hd hbase, ok_bind]
  | register port hdl =>
      refine ⟨_, ?_, h.register hwell.2 port⟩
      simp only [step, ioRegisterHandler, HandlerTable.set_ok hwell.1, ok_bind]

end SerialHost

/-- **No entry of the table reaches a serial port that is gone.**  Serial ports are created
in any windows, overlapping or not, and destroyed in any order, and the handlers of other
devices are registered at any ports in between.  In every state on the way an entry
that carries the block of a serial port carries that of a live one, and an access to it
does not fault on freed memory. -/
theorem no_entry_dangles {events : List (SerialPortCall Env)}
    (hnull : 0 ∉ SerialPortCall.serials events)
    (hwell : ∀ e ∈ events, e.WellFormed (SerialPortCall.serials events))
    (hallows : Runs.EachStep SerialHost.step SerialHost.Allows SerialHost.start events) :
    Runs.AlwaysAlong SerialHost.step (SerialHost.Sound (SerialPortCall.serials events))
      SerialHost.start events := by
  have hevents : ∀ e ∈ events, e.WellFormed (SerialPortCall.serials events) ∧
      ∀ address, e.block = some address → address ∈ SerialPortCall.serials events := by
    intro e he
    exact ⟨hwell e he, fun address hb => List.mem_filterMap.mpr ⟨e, he, hb⟩⟩
  refine Runs.alwaysAlong_of_eachStep ?_ (fun _ h => h.sound) (SerialHost.attached_start hnull)
    (hallows.and (Runs.eachStep_of_forall hevents))
  rintro host e h ⟨hallows, hwell, hblock⟩
  exact SerialHost.step_attached hnull h hallows hwell hblock

/-- Two ports whose windows overlap, the first destroyed while the second has three of its
ports, and a handler of another device in between. -/
theorem no_entry_dangles_overlap :
    let block : Vector UInt8 1 := Vector.replicate 1 0
    let events : List (SerialPortCall Unit) :=
      [.new 0x3F8 1 ⟨some 0x1000, (true, some block), (true, some block)⟩,
        .new 0x3FD 1 ⟨some 0x2000, (true, some block), (true, some block)⟩,
        .register 0x3FA {}, .destroy 0x1000]
    Runs.AlwaysAlong SerialHost.step (SerialHost.Sound (SerialPortCall.serials events))
      SerialHost.start events := by
  intro block events
  refine no_entry_dangles (by decide) ?_ ?_
  · intro e he
    simp only [events, List.mem_cons, List.not_mem_nil, or_false] at he
    rcases he with rfl | rfl | rfl | rfl
    · exact (by decide : (0x3F8 : UInt16).toNat + 7 ≤ 0xFFFE)
    · exact (by decide : (0x3FD : UInt16).toNat + 7 ≤ 0xFFFE)
    · exact ⟨by decide, by decide⟩
    · trivial
  · refine Runs.EachStep.cons ?_ rfl (Runs.EachStep.cons ?_ rfl (Runs.EachStep.cons trivial rfl
      (Runs.EachStep.cons ?_ rfl trivial)))
    · exact fun _ _ => rfl
    · rintro _ ⟨⟩
      rfl
    · rfl

end BlackHV
