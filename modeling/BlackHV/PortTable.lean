import BlackHV.Io
import BlackHV.Runs

/-! # The port table as a map

What the table of handlers is for: a map from all 65536 ports to the handler registered
there last.  The array has an entry less than there are ports, so a call or an access at
the last port is out of its bounds; everywhere else the dispatcher is that map.
-/
namespace BlackHV

/-- A call on the table. -/
inductive PortCall (Env State : Type) where
  | register (port : UInt16) (hdl : Handler Env State)
  | unregister (port : UInt16)

variable {Env State : Type}

namespace PortCall

/-- The port of a call. -/
def port : PortCall Env State → UInt16
  | .register port _ => port
  | .unregister port => port

/-- One call. -/
def step (table : HandlerTable Env State) :
    PortCall Env State → Except Fault (HandlerTable Env State)
  | .register port hdl => ioRegisterHandler table port hdl
  | .unregister port => ioUnregisterHandler table port

/-- The handler registered at `p` after a call, where `held` was before it. -/
def next (p : UInt16) (held : Option (Handler Env State)) :
    PortCall Env State → Option (Handler Env State)
  | .register port hdl => if p = port then some hdl else held
  | .unregister port => if p = port then none else held

end PortCall

/-- The last handler registered at `p` by the calls, if it has not been unregistered
since. -/
def lastHandler (calls : List (PortCall Env State)) (p : UInt16) : Option (Handler Env State) :=
  calls.foldl (PortCall.next p) none

namespace PortAccess

/-- The call of the handler's function for this kind of access, with the port and the
handler's `params`, if it has that function. -/
def called (hdl : Handler Env State) (env : Env) (s : State) :
    PortAccess → Option (Except Fault (State × PortAnswer))
  | .outb port data => hdl.outbHandler.map fun f => do
      let s ← f env port data hdl.params s
      .ok (s, .out true)
  | .outw port data => hdl.outwHandler.map fun f => do
      let s ← f env port data hdl.params s
      .ok (s, .out true)
  | .inb port => hdl.inbHandler.map fun f => do
      let (output, s) ← f env port hdl.params s
      .ok (s, .inb (some output))
  | .inw port => hdl.inwHandler.map fun f => do
      let (output, s) ← f env port hdl.params s
      .ok (s, .inw (some output))

/-- The answer to an access that nothing handles: 0, with the output left as it is. -/
def unhandled : PortAccess → PortAnswer
  | .outb _ _ => .out false
  | .outw _ _ => .out false
  | .inb _ => .inb none
  | .inw _ => .inw none

/-- What an access should do where `held` is registered. -/
def expected (held : Option (Handler Env State)) (env : Env) (s : State) (a : PortAccess) :
    Except Fault (State × PortAnswer) :=
  (held.bind fun hdl => a.called hdl env s).getD (.ok (s, a.unhandled))

/-- A handler without functions is as good as none. -/
theorem expected_getD (held : Option (Handler Env State)) (env : Env) (s : State)
    (a : PortAccess) :
    (a.called (held.getD {}) env s).getD (.ok (s, a.unhandled)) = a.expected held env s := by
  cases held with
  | some hdl => rfl
  | none => cases a <;> rfl

end PortAccess

namespace PortCall
variable {table : HandlerTable Env State} {c : PortCall Env State}

/-- A call at a port that has an entry sets this entry. -/
theorem step_ok (h : c.port ≠ 0xFFFF) (table : HandlerTable Env State) :
    ∃ table', c.step table = .ok table' ∧
      ∀ p held, table p = held.getD {} → table' p = (next p held c).getD {} := by
  cases c with
  | register port hdl =>
      refine ⟨table.update port hdl, HandlerTable.set_ok h hdl, fun p held hp => ?_⟩
      by_cases hpp : p = port
      · simp [HandlerTable.update, next, hpp]
      · simp [HandlerTable.update, next, hpp, hp]
  | unregister port =>
      refine ⟨table.update port {}, HandlerTable.set_ok h {}, fun p held hp => ?_⟩
      by_cases hpp : p = port
      · simp [HandlerTable.update, next, hpp]
      · simp [HandlerTable.update, next, hpp, hp]

/-- A call at the last port is out of the bounds of the array. -/
theorem step_outOfBounds (h : c.port = 0xFFFF) (table : HandlerTable Env State) :
    c.step table = .error .outOfBounds := by
  cases c with
  | register port hdl =>
      rw [show port = 0xFFFF from h]
      rfl
  | unregister port =>
      rw [show port = 0xFFFF from h]
      rfl

/-- Calls at ports that have an entry leave the last handlers in the table. -/
theorem run_ok {calls : List (PortCall Env State)} (h : ∀ c ∈ calls, c.port ≠ 0xFFFF)
    (table : HandlerTable Env State) :
    ∃ table', Runs.run step table calls = .ok table' ∧
      ∀ p held, table p = held.getD {} → table' p = (calls.foldl (next p) held).getD {} := by
  induction calls generalizing table with
  | nil => exact ⟨table, rfl, fun _ _ hp => hp⟩
  | cons c calls ih =>
      obtain ⟨table₁, he, h₁⟩ := step_ok (h c List.mem_cons_self) table
      obtain ⟨table', hrun, h'⟩ := ih (fun c' hc' => h c' (List.mem_cons_of_mem _ hc')) table₁
      exact ⟨table', (Runs.run_cons_ok he).trans hrun, fun p held hp => h' p _ (h₁ p held hp)⟩

/-- Calls that do not fault were at ports that have an entry. -/
theorem ports_of_run {calls : List (PortCall Env State)} {table' : HandlerTable Env State}
    (h : Runs.run step table calls = .ok table') : ∀ c ∈ calls, c.port ≠ 0xFFFF := by
  induction calls generalizing table with
  | nil => exact fun _ hc => absurd hc List.not_mem_nil
  | cons c calls ih =>
      intro c' hc' hport
      by_cases hc : c.port = 0xFFFF
      · simp only [Runs.run, step_outOfBounds hc] at h
        cases h
      · obtain ⟨table₁, he, -⟩ := step_ok hc table
        rw [Runs.run_cons_ok he] at h
        rcases List.mem_cons.mp hc' with rfl | hmem
        · exact hc hport
        · exact ih h c' hmem hport

end PortCall

/-- The dispatcher makes the call of the entry at the port. -/
theorem ioHandle_eq {table : HandlerTable Env State} {a : PortAccess} (ha : a.port ≠ 0xFFFF)
    (env : Env) (s : State) : ioHandle table env s a =
      (a.called (table a.port) env s).getD (.ok (s, a.unhandled)) := by
  have hat : table.at a.port = .ok (table a.port) := HandlerTable.at_ok ha
  cases a with
  | outb port data =>
      simp only [PortAccess.port] at hat
      simp only [ioHandle, ioHandleOutb, hat, ok_bind, PortAccess.called, PortAccess.port]
      cases (table port).outbHandler with
      | none => rfl
      | some f => cases hs : f env port data (table port).params s <;> simp [hs]
  | outw port data =>
      simp only [PortAccess.port] at hat
      simp only [ioHandle, ioHandleOutw, hat, ok_bind, PortAccess.called, PortAccess.port]
      cases (table port).outwHandler with
      | none => rfl
      | some f => cases hs : f env port data (table port).params s <;> simp [hs]
  | inb port =>
      simp only [PortAccess.port] at hat
      simp only [ioHandle, ioHandleInb, hat, ok_bind, PortAccess.called, PortAccess.port]
      cases (table port).inbHandler with
      | none => rfl
      | some f => cases hs : f env port (table port).params s <;> simp [hs]
  | inw port =>
      simp only [PortAccess.port] at hat
      simp only [ioHandle, ioHandleInw, hat, ok_bind, PortAccess.called, PortAccess.port]
      cases (table port).inwHandler with
      | none => rfl
      | some f => cases hs : f env port (table port).params s <;> simp [hs]

/-- Where the entry is that of the last handler, the access does what is expected. -/
theorem ioHandle_expected {table : HandlerTable Env State} {a : PortAccess}
    {held : Option (Handler Env State)} (ha : a.port ≠ 0xFFFF) (h : table a.port = held.getD {})
    (env : Env) (s : State) : ioHandle table env s a = a.expected held env s := by
  rw [ioHandle_eq ha, h, PortAccess.expected_getD]

/-- After the calls, the dispatcher is the map of the last handlers at the port of the
access, no table access was out of bounds, and a call at another port changes nothing
for it. -/
structure ActsAsMap (calls : List (PortCall Env State)) (a : PortAccess) : Prop where
  dispatch : ∃ table, Runs.run PortCall.step HandlerTable.zero calls = .ok table ∧
    (∃ hdl, table.at a.port = .ok hdl) ∧
    ∀ env s, ioHandle table env s a = a.expected (lastHandler calls a.port) env s
  frame : ∀ (c : PortCall Env State) table table', c.port ≠ a.port →
    Runs.run PortCall.step HandlerTable.zero calls = .ok table → c.step table = .ok table' →
    ∀ env s, ioHandle table' env s a = ioHandle table env s a

/-- **The dispatcher is a map of all ports but the last.**  For any calls and any access,
the dispatcher acts as the map of the last handlers, inside the array, if and only if
neither the calls nor the access are at port `0xFFFF`. -/
theorem port_table_map_iff (calls : List (PortCall Env State)) (a : PortAccess) :
    ActsAsMap calls a ↔ (∀ c ∈ calls, c.port ≠ 0xFFFF) ∧ a.port ≠ 0xFFFF := by
  constructor
  · rintro ⟨⟨table, hrun, ⟨hdl, hat⟩, -⟩, -⟩
    refine ⟨PortCall.ports_of_run hrun, fun hport => ?_⟩
    rw [hport, HandlerTable.at, if_neg (by decide)] at hat
    cases hat
  · rintro ⟨hcalls, ha⟩
    obtain ⟨table, hrun, htable⟩ := PortCall.run_ok hcalls HandlerTable.zero
    have hlast : table a.port = (lastHandler calls a.port).getD {} := htable a.port none rfl
    refine ⟨⟨table, hrun, ⟨_, HandlerTable.at_ok ha⟩, ioHandle_expected ha hlast⟩, ?_⟩
    intro c table₁ table₂ hne hrun₁ hstep env s
    rw [hrun] at hrun₁
    cases hrun₁
    have hc : c.port ≠ 0xFFFF := by
      intro hport
      rw [PortCall.step_outOfBounds hport] at hstep
      cases hstep
    obtain ⟨table', he, h'⟩ := PortCall.step_ok hc table
    rw [hstep] at he
    cases he
    -- the call leaves the entry of the access as it is
    have hsame : PortCall.next a.port (lastHandler calls a.port) c = lastHandler calls a.port := by
      cases c with
      | register port hdl => exact if_neg hne.symm
      | unregister port => exact if_neg hne.symm
    have hlast' := h' a.port _ hlast
    rw [hsame] at hlast'
    rw [ioHandle_expected ha hlast', ioHandle_expected ha hlast]

/-- An access at the last port of a table without registrations should find no handler; it
reads past the array.  So does a registration there. -/
theorem port_table_last_port :
    ioHandle (HandlerTable.zero : HandlerTable Unit Unit) () () (.outb 0xFFFF 0) =
        .error .outOfBounds ∧
      PortAccess.expected (lastHandler ([] : List (PortCall Unit Unit)) 0xFFFF) () ()
        (.outb 0xFFFF 0) = .ok ((), .out false) ∧
      ¬ ActsAsMap ([] : List (PortCall Unit Unit)) (.outb 0xFFFF 0) ∧
      Runs.run PortCall.step (HandlerTable.zero : HandlerTable Unit Unit)
        [.register 0xFFFF {}] = .error .outOfBounds := by
  refine ⟨rfl, rfl, ?_, rfl⟩
  rintro ⟨⟨table, hrun, ⟨hdl, hat⟩, -⟩, -⟩
  cases hat

end BlackHV
