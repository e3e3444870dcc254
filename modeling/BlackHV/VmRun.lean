import BlackHV.IoExit
import BlackHV.MmioProcess
import BlackHV.VmT

/-! # The run loop

`vm_run`: the virtual CPU runs until KVM has something for the program to do, an exit; the
loop does it and lets the CPU run on.  What KVM answers to each `KVM_RUN` is an argument, and
with an exit come the answers of the operating system while it is handled.

The loop has no way out but a `KVM_RUN` that fails and an exit it does not know.
-/
namespace BlackHV

/-- `struct kvm_regs`. -/
structure KvmRegs where
  rax : UInt64
  rbx : UInt64
  rcx : UInt64
  rdx : UInt64
  rsi : UInt64
  rdi : UInt64
  rsp : UInt64
  rbp : UInt64
  r8 : UInt64
  r9 : UInt64
  r10 : UInt64
  r11 : UInt64
  r12 : UInt64
  r13 : UInt64
  r14 : UInt64
  r15 : UInt64
  rip : UInt64
  rflags : UInt64
  deriving DecidableEq

/-- `vm_dump_regs`, where `KVM_GET_REGS` returns `result` and fills in `regs`: what it
returns, and the names and values it prints. -/
def vmDumpRegs (result : Int32) (regs : KvmRegs) : Int32 × List (String × UInt64) :=
  if result = -1 then
    (0, [])
  else
    (1, [("rax", regs.rax), ("rbx", regs.rbx), ("rcx", regs.rcx), ("rdx", regs.rdx),
      ("rsi", regs.rsi), ("rsp", regs.rsp), ("r8", regs.r8), ("r9", regs.r9), ("r10", regs.r10),
      ("r11", regs.r11), ("r12", regs.r12), ("r13", regs.r13), ("r14", regs.r14),
      ("r15", regs.r15), ("rip", regs.rip), ("rflags", regs.rflags)])

/-- `kvm_run` after an exit: its reason, and what the reason comes with.  At a halt the
program asks for the registers, and this is what it is told. -/
inductive KvmExit where
  | io (io : KvmIo) (run : List UInt8)
  | mmio (exit : MmioExit)
  | hlt (result : Int32) (regs : KvmRegs)
  | unknown (reason : UInt32)

/-- What is seen of an exit that has been handled: the block that `kvm_run` points to, the
handlers that have been called, the registers that have been printed. -/
inductive ExitEffect where
  | io (run : List UInt8)
  | mmio (calls : List MmioCall)
  | hlt (lines : List (String × UInt64))
  deriving DecidableEq

/-- What KVM answers to `KVM_RUN`: `none` where it returns -1. -/
abbrev KvmAnswer (Env : Type) := Option (Env × KvmExit)

variable {Env State : Type}

/-- The `switch` of `vm_run`: no effect where the reason is not known. -/
def handleExit (table : HandlerTable Env State) (regions : MmioTable) (s : State)
    (answer : Env × KvmExit) : Except Fault (State × Option ExitEffect) :=
  match answer.2 with
  | .io io run => do
      let (s, run) ← handleExitIo table answer.1 io run s
      .ok (s, some (.io run))
  | .mmio exit => .ok (s, some (.mmio (handleExitMmio regions exit)))
  | .hlt result regs => .ok (s, some (.hlt (vmDumpRegs result regs).2))
  | .unknown _ => .ok (s, none)

/-- The loop of `vm_run`: the state it leaves, the effects of the exits, and what it returns,
`none` while it runs.  `kvmRun` is dereferenced after every `KVM_RUN`. -/
def vmRunLoop (kvmRun : UInt64) (table : HandlerTable Env State) (regions : MmioTable)
    (s : State) : List (KvmAnswer Env) → Except Fault (State × List ExitEffect × Option Int32)
  | [] => .ok (s, [], none)
  | none :: _ => .ok (s, [], some 0)
  | some answer :: rest =>
      if kvmRun = mapFailed then
        .error .outOfBounds
      else do
        let (s, effect) ← handleExit table regions s answer
        match effect with
        | none => .ok (s, [], some 0)
        | some effect => do
            let (s, effects, result) ← vmRunLoop kvmRun table regions s rest
            .ok (s, effect :: effects, result)

/-- `vm_run`. -/
def vmRun (vm : Option VmT) (table : HandlerTable Env State) (regions : MmioTable) (s : State)
    (answers : List (KvmAnswer Env)) : Except Fault (State × List ExitEffect × Option Int32) :=
  match vm with
  | none => .ok (s, [], some 0)
  | some vm =>
      if vm.kvmRun = 0 then .ok (s, [], some 0) else vmRunLoop vm.kvmRun table regions s answers

/-- The exit is one that `vm_run` knows. -/
def KvmExit.known : KvmExit → Bool
  | .unknown _ => false
  | _ => true

/-- The loop goes on after such an answer: an exit, and one that it knows. -/
def goesOn : KvmAnswer Env → Bool
  | none => false
  | some answer => answer.2.known

/-- The exits that the loop handles: those before the first `KVM_RUN` that fails and the
first exit it does not know. -/
def handledExits (answers : List (KvmAnswer Env)) : List (Env × KvmExit) :=
  (answers.takeWhile goesOn).filterMap id

section Handled
variable {answer : Env × KvmExit} {answers : List (KvmAnswer Env)}

theorem mem_handledExits (h : answer ∈ handledExits answers) : some answer ∈ answers := by
  obtain ⟨answer', hmem, he⟩ := List.mem_filterMap.mp h
  obtain rfl : answer' = some answer := he
  exact (List.takeWhile_sublist _).mem hmem

theorem handledExits_known (h : answer.2.known = true) :
    handledExits (some answer :: answers) = answer :: handledExits answers := by
  have hgoes : goesOn (some answer) = true := h
  rw [handledExits, List.takeWhile_cons_of_pos hgoes]
  rfl

theorem handledExits_unknown (h : answer.2.known = false) :
    handledExits (some answer :: answers) = [] := by
  have hends : ¬ goesOn (some answer) = true := Bool.eq_false_iff.mp h
  rw [handledExits, List.takeWhile_cons_of_neg hends]
  rfl

end Handled

section Loop
variable {kvmRun : UInt64} {table : HandlerTable Env State} {regions : MmioTable} {s : State}
  {answers : List (KvmAnswer Env)}

/-- A known exit has an effect, an unknown one none and changes nothing. -/
theorem handleExit_known (table : HandlerTable Env State) (regions : MmioTable) (s : State)
    (answer : Env × KvmExit) :
    (answer.2.known = true ∧ ∀ s' effect, handleExit table regions s answer = .ok (s', effect) →
        effect.isSome = true) ∨
      (answer.2.known = false ∧ handleExit table regions s answer = .ok (s, none)) := by
  obtain ⟨env, exit⟩ := answer
  cases exit with
  | io io run =>
      refine Or.inl ⟨rfl, fun s' effect he => ?_⟩
      obtain ⟨r, -, hr⟩ := bind_eq_ok.mp he
      cases hr
      rfl
  | mmio exit => exact Or.inl ⟨rfl, fun s' effect he => by cases he; rfl⟩
  | hlt result regs => exact Or.inl ⟨rfl, fun s' effect he => by cases he; rfl⟩
  | unknown reason => exact Or.inr ⟨rfl, rfl⟩

/-- **The loop is a run of the exits it handles**, with a result where it ends. -/
theorem vmRunLoop_eq (hmapped : kvmRun ≠ mapFailed) :
    vmRunLoop kvmRun table regions s answers =
      (Runs.trace (handleExit table regions) s (handledExits answers) >>= fun r =>
        .ok (r.1, r.2.filterMap id, if answers.all goesOn then none else some 0)) := by
  induction answers generalizing s with
  | nil => rfl
  | cons answer rest ih =>
      cases answer with
      | none => rfl
      | some answer =>
          rcases handleExit_known table regions s answer with
            ⟨hknown, hsome⟩ | ⟨hunknown, he⟩
          · rw [vmRunLoop, if_neg hmapped, handledExits_known hknown, List.all_cons,
              show goesOn (some answer) = true from hknown, Bool.true_and]
            cases he : handleExit table regions s answer with
            | error f => simp [Runs.trace, he]
            | ok r =>
                obtain ⟨s₁, effect⟩ := r
                obtain ⟨effect, rfl⟩ := Option.isSome_iff_exists.mp (hsome s₁ effect he)
                simp only [ok_bind, Runs.trace, he, ih]
                cases Runs.trace (handleExit table regions) s₁ (handledExits rest) <;> rfl
          · rw [vmRunLoop, if_neg hmapped, he, handledExits_unknown hunknown, List.all_cons,
              show goesOn (some answer) = false from hunknown]
            rfl

end Loop

end BlackHV
