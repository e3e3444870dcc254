import BlackHV.Fault

/-! # Port dispatch

`io.c`: a table of handlers, one for each I/O port, and the functions that hand a
guest's access to the handler registered at its port.

The state of the devices is a parameter `State`; what the operating system answers
while a handler runs (the contents of a disk, say) is a parameter `Env`.  A function
pointer is `none` where it is `NULL`, and `params` is the pointer the handler is
given back.
-/
namespace BlackHV

/-- `struct handler`. -/
structure Handler (Env State : Type) where
  params : UInt64 := 0
  outbHandler : Option (Env → UInt16 → UInt8 → UInt64 → State → Except Fault State) := none
  outwHandler : Option (Env → UInt16 → UInt16 → UInt64 → State → Except Fault State) := none
  inbHandler : Option (Env → UInt16 → UInt64 → State → Except Fault (UInt8 × State)) := none
  inwHandler : Option (Env → UInt16 → UInt64 → State → Except Fault (UInt16 × State)) := none

/-- The table `handlers`. -/
abbrev HandlerTable (Env State : Type) := UInt16 → Handler Env State

variable {Env State : Type}

/-- The table as it is before any registration: all zeros. -/
def HandlerTable.zero : HandlerTable Env State := fun _ => {}

/-- The number of entries of `handlers`.  There is none for port `0xFFFF`. -/
def handlersLength : Nat := 0xFFFF

/-- `handlers[port]`. -/
def HandlerTable.at (table : HandlerTable Env State) (port : UInt16) :
    Except Fault (Handler Env State) :=
  if port.toNat < handlersLength then .ok (table port) else .error .outOfBounds

/-- The table with another entry at `port`. -/
def HandlerTable.update (table : HandlerTable Env State) (port : UInt16)
    (hdl : Handler Env State) : HandlerTable Env State :=
  fun p => if p = port then hdl else table p

/-- `handlers[port] = hdl`. -/
def HandlerTable.set (table : HandlerTable Env State) (port : UInt16) (hdl : Handler Env State) :
    Except Fault (HandlerTable Env State) :=
  if port.toNat < handlersLength then .ok (table.update port hdl) else .error .outOfBounds

/-- `io_register_handler`. -/
def ioRegisterHandler (table : HandlerTable Env State) (port : UInt16)
    (hdl : Handler Env State) : Except Fault (HandlerTable Env State) := table.set port hdl

/-- `io_unregister_handler`. -/
def ioUnregisterHandler (table : HandlerTable Env State) (port : UInt16) :
    Except Fault (HandlerTable Env State) := table.set port {}

/-- `io_handle_outb`: whether it returns 1. -/
def ioHandleOutb (table : HandlerTable Env State) (env : Env) (port : UInt16) (data : UInt8)
    (s : State) : Except Fault (State × Bool) := do
  let hdl ← table.at port
  match hdl.outbHandler with
  | some f => do
      let s ← f env port data hdl.params s
      .ok (s, true)
  | none => .ok (s, false)

/-- `io_handle_inb`: the byte it stores into `*output` where it returns 1, and
nothing where it returns 0. -/
def ioHandleInb (table : HandlerTable Env State) (env : Env) (port : UInt16) (s : State) :
    Except Fault (State × Option UInt8) := do
  let hdl ← table.at port
  match hdl.inbHandler with
  | some f => do
      let (b, s) ← f env port hdl.params s
      .ok (s, some b)
  | none => .ok (s, none)

/-- `io_handle_outw`: whether it returns 1. -/
def ioHandleOutw (table : HandlerTable Env State) (env : Env) (port : UInt16) (data : UInt16)
    (s : State) : Except Fault (State × Bool) := do
  let hdl ← table.at port
  match hdl.outwHandler with
  | some f => do
      let s ← f env port data hdl.params s
      .ok (s, true)
  | none => .ok (s, false)

/-- `io_handle_inw`: the word it stores into `*output` where it returns 1, and
nothing where it returns 0. -/
def ioHandleInw (table : HandlerTable Env State) (env : Env) (port : UInt16) (s : State) :
    Except Fault (State × Option UInt16) := do
  let hdl ← table.at port
  match hdl.inwHandler with
  | some f => do
      let (w, s) ← f env port hdl.params s
      .ok (s, some w)
  | none => .ok (s, none)

/-! ## Accesses -/

/-- An access of the guest to a port. -/
inductive PortAccess where
  | outb (port : UInt16) (data : UInt8)
  | outw (port : UInt16) (data : UInt16)
  | inb (port : UInt16)
  | inw (port : UInt16)
  deriving DecidableEq

/-- The port of an access. -/
def PortAccess.port : PortAccess → UInt16
  | .outb port _ => port
  | .outw port _ => port
  | .inb port => port
  | .inw port => port

/-- What the dispatcher answers: whether a write was handled, and what a read
stored. -/
inductive PortAnswer where
  | out (handled : Bool)
  | inb (output : Option UInt8)
  | inw (output : Option UInt16)
  deriving DecidableEq

/-- Hand an access to the dispatcher. -/
def ioHandle (table : HandlerTable Env State) (env : Env) (s : State) :
    PortAccess → Except Fault (State × PortAnswer)
  | .outb port data => do
      let (s, handled) ← ioHandleOutb table env port data s
      .ok (s, .out handled)
  | .outw port data => do
      let (s, handled) ← ioHandleOutw table env port data s
      .ok (s, .out handled)
  | .inb port => do
      let (s, output) ← ioHandleInb table env port s
      .ok (s, .inb output)
  | .inw port => do
      let (s, output) ← ioHandleInw table env port s
      .ok (s, .inw output)

namespace HandlerTable
variable {table : HandlerTable Env State}

/-- The ports that have an entry. -/
theorem lt_handlersLength {port : UInt16} (h : port ≠ 0xFFFF) : port.toNat < handlersLength := by
  have hlt := port.toNat_lt
  have hne : port.toNat ≠ 0xFFFF := fun he => h (UInt16.toNat_inj.mp he)
  unfold handlersLength
  omega

theorem at_ok {port : UInt16} (h : port ≠ 0xFFFF) : table.at port = .ok (table port) :=
  if_pos (lt_handlersLength h)

theorem set_ok {port : UInt16} (h : port ≠ 0xFFFF) (hdl : Handler Env State) :
    table.set port hdl = .ok (table.update port hdl) :=
  if_pos (lt_handlersLength h)

/-- Registering a list of handlers at ports that have an entry updates the table in
the order of the list. -/
theorem register_all {rs : List (UInt16 × Handler Env State)} (h : ∀ r ∈ rs, r.1 ≠ 0xFFFF)
    (table : HandlerTable Env State) :
    rs.foldlM (fun t r => ioRegisterHandler t r.1 r.2) table =
      .ok (rs.foldl (fun t r => t.update r.1 r.2) table) := by
  induction rs generalizing table with
  | nil => rfl
  | cons r rs ih =>
      rw [List.foldlM_cons, ioRegisterHandler, set_ok (h r List.mem_cons_self), ok_bind]
      exact ih (fun r' hr' => h r' (List.mem_cons_of_mem _ hr')) _

/-- Registrations that return were at ports that have an entry. -/
theorem register_all_ok {rs : List (UInt16 × Handler Env State)} {table' : HandlerTable Env State}
    (h : rs.foldlM (fun t r => ioRegisterHandler t r.1 r.2) table = .ok table') :
    (∀ r ∈ rs, r.1 ≠ 0xFFFF) ∧ table' = rs.foldl (fun t r => t.update r.1 r.2) table := by
  have hports : ∀ r ∈ rs, r.1 ≠ 0xFFFF := by
    induction rs generalizing table with
    | nil => exact fun _ hr => absurd hr List.not_mem_nil
    | cons r rs ih =>
        rw [List.foldlM_cons] at h
        obtain ⟨t, ht, hrest⟩ := bind_eq_ok.mp h
        intro r' hr' hport
        -- the first registration did not fault, so it was not at the port without entry
        rcases List.mem_cons.mp hr' with rfl | hmem
        · rw [ioRegisterHandler, HandlerTable.set, hport, if_neg (by decide)] at ht
          cases ht
        · exact ih hrest r' hmem hport
  refine ⟨hports, ?_⟩
  rw [register_all hports] at h
  exact (Except.ok.inj h).symm

/-- Where one handler is registered at several ports, each of them dispatches to it. -/
theorem foldl_update_same {rs : List (UInt16 × Handler Env State)} {hdl : Handler Env State}
    (h : ∀ r ∈ rs, r.2 = hdl) {port : UInt16}
    (hport : port ∈ rs.map Prod.fst ∨ table port = hdl) :
    rs.foldl (fun t r => t.update r.1 r.2) table port = hdl := by
  induction rs generalizing table with
  | nil => exact hport.resolve_left List.not_mem_nil
  | cons r rs ih =>
      refine ih (fun r' hr' => h r' (List.mem_cons_of_mem _ hr')) ?_
      by_cases hr : port = r.1
      · exact Or.inr ((if_pos hr).trans (h r List.mem_cons_self))
      · rcases hport with hmem | ht
        · exact Or.inl ((List.mem_cons.mp hmem).resolve_left hr)
        · exact Or.inr ((if_neg hr).trans ht)

/-- A port at which nothing is registered keeps its entry. -/
theorem foldl_update_other {rs : List (UInt16 × Handler Env State)} {port : UInt16}
    (h : port ∉ rs.map Prod.fst) :
    rs.foldl (fun t r => t.update r.1 r.2) table port = table port := by
  induction rs generalizing table with
  | nil => rfl
  | cons r rs ih =>
      rw [List.map_cons, List.mem_cons, not_or] at h
      exact (ih h.2).trans (if_neg h.1)

/-- An entry of the resulting table is one of the registered handlers, or was there before. -/
theorem foldl_update_mem (table : HandlerTable Env State)
    (rs : List (UInt16 × Handler Env State)) (port : UInt16) :
    rs.foldl (fun t r => t.update r.1 r.2) table port = table port ∨
      (port, rs.foldl (fun t r => t.update r.1 r.2) table port) ∈ rs := by
  induction rs generalizing table with
  | nil => exact Or.inl rfl
  | cons r rs ih =>
      rcases ih (table.update r.1 r.2) with h | h
      · rw [List.foldl_cons, h]
        by_cases hr : port = r.1
        · subst hr
          rw [show table.update r.1 r.2 r.1 = r.2 from if_pos rfl]
          exact Or.inr List.mem_cons_self
        · exact Or.inl (if_neg hr)
      · exact Or.inr (List.mem_cons_of_mem _ h)

end HandlerTable

/-- An access that returns was at a port that has an entry. -/
theorem ioHandle_port_ne {table : HandlerTable Env State} {env : Env} {s : State} {a : PortAccess}
    {r : State × PortAnswer} (h : ioHandle table env s a = .ok r) : a.port ≠ 0xFFFF := by
  intro hport
  have hat : table.at a.port = .error .outOfBounds := by
    rw [hport]
    rfl
  cases a with
  | outb port data => simp [ioHandle, ioHandleOutb, show table.at port = _ from hat] at h
  | outw port data => simp [ioHandle, ioHandleOutw, show table.at port = _ from hat] at h
  | inb port => simp [ioHandle, ioHandleInb, show table.at port = _ from hat] at h
  | inw port => simp [ioHandle, ioHandleInw, show table.at port = _ from hat] at h

/-- Every function of the handler, called on any arguments in a state with `I`,
returns in a state with `I`. -/
structure Handler.Keeps (I : State → Prop) (hdl : Handler Env State) : Prop where
  outb : ∀ f, hdl.outbHandler = some f → ∀ env port data s, I s →
    ∃ s', f env port data hdl.params s = .ok s' ∧ I s'
  outw : ∀ f, hdl.outwHandler = some f → ∀ env port data s, I s →
    ∃ s', f env port data hdl.params s = .ok s' ∧ I s'
  inb : ∀ f, hdl.inbHandler = some f → ∀ env port s, I s →
    ∃ b s', f env port hdl.params s = .ok (b, s') ∧ I s'
  inw : ∀ f, hdl.inwHandler = some f → ∀ env port s, I s →
    ∃ w s', f env port hdl.params s = .ok (w, s') ∧ I s'

/-- A handler without functions keeps everything. -/
theorem Handler.keeps_zero (I : State → Prop) : ({} : Handler Env State).Keeps I where
  outb := fun _ hf => by cases hf
  outw := fun _ hf => by cases hf
  inb := fun _ hf => by cases hf
  inw := fun _ hf => by cases hf

/-- **What every registered handler keeps, every access keeps**, at any port the
table has an entry for. -/
theorem ioHandle_keeps {I : State → Prop} {table : HandlerTable Env State}
    (ht : ∀ port, (table port).Keeps I) (env : Env) {s : State} (hs : I s) (a : PortAccess)
    (ha : a.port ≠ 0xFFFF) : ∃ s' answer, ioHandle table env s a = .ok (s', answer) ∧ I s' := by
  cases a with
  | outb port data =>
      have hat : table.at port = .ok (table port) := HandlerTable.at_ok ha
      simp only [ioHandle, ioHandleOutb, hat, ok_bind]
      cases hf : (table port).outbHandler with
      | none => exact ⟨s, _, rfl, hs⟩
      | some f =>
          obtain ⟨s', he, hI⟩ := (ht port).outb f hf env port data s hs
          exact ⟨s', _, by simp only [he]; rfl, hI⟩
  | outw port data =>
      have hat : table.at port = .ok (table port) := HandlerTable.at_ok ha
      simp only [ioHandle, ioHandleOutw, hat, ok_bind]
      cases hf : (table port).outwHandler with
      | none => exact ⟨s, _, rfl, hs⟩
      | some f =>
          obtain ⟨s', he, hI⟩ := (ht port).outw f hf env port data s hs
          exact ⟨s', _, by simp only [he]; rfl, hI⟩
  | inb port =>
      have hat : table.at port = .ok (table port) := HandlerTable.at_ok ha
      simp only [ioHandle, ioHandleInb, hat, ok_bind]
      cases hf : (table port).inbHandler with
      | none => exact ⟨s, _, rfl, hs⟩
      | some f =>
          obtain ⟨b, s', he, hI⟩ := (ht port).inb f hf env port s hs
          exact ⟨s', _, by simp only [he]; rfl, hI⟩
  | inw port =>
      have hat : table.at port = .ok (table port) := HandlerTable.at_ok ha
      simp only [ioHandle, ioHandleInw, hat, ok_bind]
      cases hf : (table port).inwHandler with
      | none => exact ⟨s, _, rfl, hs⟩
      | some f =>
          obtain ⟨w, s', he, hI⟩ := (ht port).inw f hf env port s hs
          exact ⟨s', _, by simp only [he]; rfl, hI⟩

end BlackHV
