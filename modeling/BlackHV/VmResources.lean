import BlackHV.Ledgers
import BlackHV.VcpuState

/-! # Descriptors and mappings of the VMs

A run of `vm_new`, `vm_vcpu_init_state` and `vm_destroy` over any number of VMs, with a
ledger of the file descriptors and the mappings of `kvm_run`.  `vm_new` acquires two
descriptors, `vm_vcpu_init_state` a third one and the mapping; `vm_destroy` closes the two.
-/
namespace BlackHV

/-- A file descriptor, or a mapping of `kvm_run`. -/
inductive Resource where
  | descriptor (fd : Int32)
  | mapping (address : UInt64) (size : Int32)
  deriving DecidableEq

/-- What a call of `vm_new` acquires or releases.  A descriptor that is closed is released,
whatever `close` returns. -/
def VmCall.changes (host : VmAnswers) : VmCall → List (Ledger.Change Resource)
  | .openKvm => if host.openKvm < 0 then [] else [.acquired (.descriptor host.openKvm)]
  | .createVm _ => if host.createVm < 0 then [] else [.acquired (.descriptor host.createVm)]
  | .close fd => [.released (.descriptor fd)]

/-- What a call of `vm_vcpu_init_state` acquires. -/
def VcpuCall.acquires (host : VcpuAnswers) : VcpuCall → List Resource
  | .createVcpu _ _ => if host.createVcpu < 0 then [] else [.descriptor host.createVcpu]
  | .mmap size _ => if host.mmap = mapFailed then [] else [.mapping host.mmap size]
  | _ => []

def VcpuOutcome.acquires (host : VcpuAnswers) (outcome : VcpuOutcome) : List Resource :=
  outcome.calls.flatMap (·.acquires host)

/-- A VM from `vm_new` to `vm_destroy`: the object and its address, what has been acquired for
it, and the calls of `vm_vcpu_init_state` on it. -/
structure LiveVm where
  block : Nat
  vm : VmT
  acquired : List Resource
  inits : List (UInt32 × VcpuAnswers)

/-- The VM after a call of `vm_vcpu_init_state`. -/
def LiveVm.initState (live : LiveVm) (tssAddress identityMapAddr : UInt64) (mode : UInt32)
    (host : VcpuAnswers) : LiveVm :=
  let outcome := vmVcpuInitState live.vm tssAddress identityMapAddr mode host
  { live with
    vm := outcome.vm
    acquired := live.acquired ++ outcome.acquires host
    inits := live.inits ++ [(mode, host)] }

/-- The program's VMs, and its descriptors and mappings. -/
structure VmWorld where
  ledger : Ledger Resource
  alive : List LiveVm

/-- A call, with the answers to its system calls.  A VM is named by its address. -/
inductive VmEvent where
  | new (host : VmAnswers)
  | init (block : Nat) (tssAddress identityMapAddr : UInt64) (mode : UInt32) (host : VcpuAnswers)
  | destroy (block : Option Nat)

namespace VmWorld

/-- No VM yet. -/
def start : VmWorld := { ledger := Ledger.empty, alive := [] }

/-- The VM at an address. -/
def find (w : VmWorld) (block : Nat) : Option LiveVm := w.alive.find? (·.block = block)

/-- The other VMs. -/
def others (w : VmWorld) (block : Nat) : List LiveVm := w.alive.eraseP (·.block = block)

def step (fuel : Nat) (w : VmWorld) : VmEvent → Except Fault VmWorld
  | .new host => do
      let (result, calls) ← vmNew host
      let changes := calls.flatMap (·.changes host)
      let ledger := w.ledger.recordAll changes
      match result with
      | none => .ok { w with ledger }
      | some (block, vm) =>
          let live := { block, vm, acquired := Ledger.acquisitions changes, inits := [] }
          .ok { ledger, alive := w.alive ++ [live] }
  | .init block tssAddress identityMapAddr mode host =>
      match w.find block with
      | none => .error .notAllocated
      | some live =>
          let outcome := vmVcpuInitState live.vm tssAddress identityMapAddr mode host
          .ok { ledger := w.ledger.recordAll ((outcome.acquires host).map .acquired)
                alive := w.others block ++
                  [live.initState tssAddress identityMapAddr mode host] }
  | .destroy none => do
      let closed ← vmDestroy none fuel
      .ok { w with ledger := w.ledger.recordAll (closed.map (.released <| .descriptor ·)) }
  | .destroy (some block) =>
      match w.find block with
      | none => .error .notAllocated
      | some live => do
          let closed ← vmDestroy (some live.vm) fuel
          .ok { ledger := w.ledger.recordAll (closed.map (.released <| .descriptor ·))
                alive := w.others block }

/-- What has been acquired for the VMs that are alive. -/
def owed (w : VmWorld) : List Resource := w.alive.flatMap (·.acquired)

/-- The open descriptors and mappings are those of the VMs that are alive, each once, and
nothing has been released twice. -/
def Accounted (w : VmWorld) : Prop := w.ledger.Balanced w.owed

/-- A pointer that is passed is `NULL` or a VM's that is alive. -/
def Allowed (w : VmWorld) : VmEvent → Prop
  | .new _ | .destroy none => True
  | .init block .. | .destroy (some block) => (w.find block).isSome

/-- `vm_new` fails at `open` or not at all, and `vm_destroy` is called on a VM without a virtual
CPU: none of the calls of `vm_vcpu_init_state` on it gets past `KVM_CREATE_VCPU`. -/
def NothingLeaks (w : VmWorld) : VmEvent → Prop
  | .new host => host.openKvm < 0 ∨
      (0 ≤ host.createVm ∧ host.block.isSome ∧ host.memory = true ∧ host.memoryEntries = true)
  | .init .. | .destroy none => True
  | .destroy (some block) => ∀ live ∈ w.find block, ∀ call ∈ live.inits, ¬ GetsVcpu call.1 call.2

instance decidableAllowed (w : VmWorld) : (e : VmEvent) → Decidable (w.Allowed e)
  | .new _ => .isTrue trivial
  | .destroy none => .isTrue trivial
  | .init block _ _ _ _ => inferInstanceAs (Decidable ((w.find block).isSome = true))
  | .destroy (some block) => inferInstanceAs (Decidable ((w.find block).isSome = true))

instance decidableNothingLeaks (w : VmWorld) : (e : VmEvent) → Decidable (w.NothingLeaks e)
  | .new host => inferInstanceAs (Decidable (host.openKvm < 0 ∨ (0 ≤ host.createVm ∧
      host.block.isSome ∧ host.memory = true ∧ host.memoryEntries = true)))
  | .init .. => .isTrue trivial
  | .destroy none => .isTrue trivial
  | .destroy (some block) => inferInstanceAs (Decidable
      (∀ live ∈ w.find block, ∀ call ∈ live.inits, ¬ GetsVcpu call.1 call.2))

end VmWorld

/-! ## The three functions -/

section Calls
variable {vm : VmT} {tss identityMap : UInt64} {mode : UInt32} {host : VcpuAnswers}

/-- A call that fails acquires nothing. -/
theorem VcpuCall.acquires_of_failed {call : VcpuCall}
    (h : ∀ tests, ¬ call.Succeeded tests host) : call.acquires host = [] := by
  have h' := h SuccessTests.notNegative
  cases call with
  | createVcpu fd id => exact if_pos (Int32.not_le.mp h')
  | mmap size fd => exact if_pos (not_not.mp h')
  | _ => rfl

theorem acquires_of_mem_setupCalls {call : VcpuCall}
    (h : call ∈ setupCalls vm tss identityMap mode) : call.acquires host = [] := by
  rw [mem_setupCalls] at h
  rcases h with rfl | rfl | ⟨-, rfl⟩ | ⟨-, rfl⟩ <;> rfl

/-- With a virtual CPU, the calls have been made up to `KVM_CREATE_VCPU` at least. -/
theorem vcpuCalls_subset_calls (h : GetsVcpu mode host) :
    vcpuCalls vm tss identityMap mode ⊆ (vmVcpuInitState vm tss identityMap mode host).calls := by
  intro call hcall
  rw [vmVcpuInitState_of_getsVcpu h]
  dsimp only
  have hsize := List.mem_append_left [VcpuCall.getVcpuMmapSize vm.kvmFd] hcall
  split
  · exact hsize
  have hmap := List.mem_append_left [VcpuCall.mmap host.getVcpuMmapSize host.createVcpu] hsize
  split
  · exact hmap
  split
  · exact List.mem_append_left _ hmap
  · exact List.mem_append_left _ (List.mem_append_left _ hmap)

/-- `vm_vcpu_init_state` acquires something exactly if it gets a virtual CPU. -/
theorem acquires_vmVcpuInitState :
    (vmVcpuInitState vm tss identityMap mode host).acquires host = [] ↔ ¬ GetsVcpu mode host := by
  constructor
  · intro hnil h
    have hcall : VcpuCall.createVcpu vm.vmFd 0 ∈
        (vmVcpuInitState vm tss identityMap mode host).calls :=
      vcpuCalls_subset_calls h (List.mem_append_right _ List.mem_cons_self)
    have hvcpu := List.flatMap_eq_nil_iff.mp hnil _ hcall
    rw [VcpuCall.acquires, if_neg (Int32.not_lt.mpr h.vcpu)] at hvcpu
    exact absurd hvcpu (List.cons_ne_nil _ _)
  · intro h
    obtain ⟨_, before, call, heq, hbefore, hfailed⟩ :=
      vmVcpuInitState_of_not_getsVcpu vm tss identityMap h
    rw [heq, VcpuOutcome.acquires, List.flatMap_eq_nil_iff]
    intro c hc
    rcases List.mem_append.mp hc with hc | hc
    · exact acquires_of_mem_setupCalls (hbefore c hc)
    · rw [List.mem_singleton.mp hc]
      exact VcpuCall.acquires_of_failed hfailed

/-- `vm_vcpu_init_state` changes two members of the object. -/
theorem vmVcpuInitState_vm (vm : VmT) (tss identityMap : UInt64) (mode : UInt32)
    (host : VcpuAnswers) : ∃ vcpuFd kvmRun,
    (vmVcpuInitState vm tss identityMap mode host).vm = { vm with vcpuFd, kvmRun } := by
  by_cases h : GetsVcpu mode host
  · rw [vmVcpuInitState_of_getsVcpu h]
    dsimp only
    split
    · exact ⟨_, _, rfl⟩
    split
    · exact ⟨_, _, rfl⟩
    split <;> exact ⟨_, _, rfl⟩
  · obtain ⟨vcpuFd, _, _, heq, -⟩ := vmVcpuInitState_of_not_getsVcpu vm tss identityMap h
    rw [heq]
    exact ⟨vcpuFd, vm.kvmRun, rfl⟩

end Calls

/-! ## Runs -/

/-- What is known of a VM: the first two resources are the descriptors of `vm_new`, there are
others exactly if it got a virtual CPU, and its memory map is empty. -/
structure LiveVm.Known (live : LiveVm) : Prop where
  acquired : ∃ extra, live.acquired =
      [.descriptor live.vm.kvmFd, .descriptor live.vm.vmFd] ++ extra ∧
    (extra = [] ↔ ∀ call ∈ live.inits, ¬ GetsVcpu call.1 call.2)
  empty : live.vm.mem.memoryEntries.head = none

namespace VmWorld
variable {fuel : Nat} {w w' : VmWorld} {block : Nat} {live : LiveVm}

def Known (w : VmWorld) : Prop := ∀ live ∈ w.alive, live.Known

theorem perm_of_find (h : w.find block = some live) : w.alive.Perm (live :: w.others block) := by
  obtain ⟨hp, before, after, heq, hbefore⟩ := List.find?_eq_some_iff_append.mp h
  have hothers : w.others block = before ++ after := by
    rw [others, heq, List.eraseP_append_right _ fun b hb => by simpa using hbefore b hb,
      List.eraseP_cons_of_pos (p := fun l : LiveVm => l.block = block) hp]
  rw [heq, hothers]
  exact List.perm_middle

theorem owed_append (ledger : Ledger Resource) (alive : List LiveVm) (live : LiveVm) :
    owed { ledger, alive := alive ++ [live] } = alive.flatMap (·.acquired) ++ live.acquired := by
  rw [owed, List.flatMap_append, List.flatMap_singleton]

theorem owed_perm (h : w.find block = some live) :
    w.owed.Perm (live.acquired ++ (w.others block).flatMap (·.acquired)) :=
  (perm_of_find h).flatMap_right _

theorem Known.find (hw : w.Known) (h : w.find block = some live) : live.Known :=
  hw live ((perm_of_find h).mem_iff.mpr List.mem_cons_self)

theorem Known.others (hw : w.Known) (block : Nat) : ∀ live ∈ w.others block, live.Known :=
  fun live hlive => hw live (List.mem_of_mem_eraseP hlive)

theorem Known.append {alive : List LiveVm} (halive : ∀ live ∈ alive, live.Known)
    (hlive : live.Known) : ∀ l ∈ alive ++ [live], l.Known := by
  rw [List.forall_mem_append]
  refine ⟨halive, fun l hl => ?_⟩
  rw [List.mem_singleton.mp hl]
  exact hlive

/-! ### `vm_new` -/

section New
variable {host : VmAnswers}

/-- `open` fails. -/
theorem step_new_unopened (h : host.openKvm < 0) : step fuel w (.new host) = .ok w := by
  have hchanges : [VmCall.openKvm].flatMap (·.changes host) = [] := by
    rw [List.flatMap_singleton, VmCall.changes, if_pos h]
  simp only [step, vmNew, if_pos h, ok_bind, hchanges]
  rfl

/-- The changes of `open` and `KVM_CREATE_VM`. -/
theorem changes_createVm (hopen : 0 ≤ host.openKvm) :
    [VmCall.openKvm, .createVm host.openKvm].flatMap (·.changes host) =
      [.acquired (.descriptor host.openKvm)] ++
        if host.createVm < 0 then [] else [.acquired (.descriptor host.createVm)] := by
  simp only [List.flatMap_cons, List.flatMap_nil, List.append_nil, VmCall.changes,
    if_neg (Int32.not_lt.mpr hopen)]

theorem memoryNew_made : ∃ mem, memoryNew true true = some mem ∧ mem.memoryEntries.head = none :=
  ⟨_, rfl, rfl⟩

/-- Every call succeeds. -/
theorem step_new_made (fuel : Nat) (w : VmWorld) (hopen : 0 ≤ host.openKvm)
    (hcreate : 0 ≤ host.createVm) {block : Nat} (hblock : host.block = some block)
    (hmemory : host.memory = true) (hentries : host.memoryEntries = true) :
    ∃ live : LiveVm, live.Known ∧
      step fuel w (.new host) =
        .ok { ledger := w.ledger.recordAll (live.acquired.map .acquired)
              alive := w.alive ++ [live] } := by
  obtain ⟨mem, hmem, hempty⟩ := memoryNew_made
  have hchanges := changes_createVm hopen
  rw [if_neg (Int32.not_lt.mpr hcreate)] at hchanges
  let live : LiveVm :=
    { block, vm := { kvmFd := host.openKvm, vmFd := host.createVm, vcpuFd := 0, kvmRun := 0, mem }
      acquired := [.descriptor host.openKvm, .descriptor host.createVm], inits := [] }
  refine ⟨live, ⟨⟨[], rfl, fun _ call hcall => absurd hcall List.not_mem_nil, fun _ => rfl⟩,
    hempty⟩, ?_⟩
  simp only [step, vmNew, if_neg (Int32.not_lt.mpr hopen), if_neg (Int32.not_lt.mpr hcreate),
    hblock, hmemory, hentries, hmem, ok_bind, hchanges]
  rfl

/-- `KVM_CREATE_VM` or `malloc` fails: a descriptor stays open, if the call returns at all. -/
theorem step_new_leaks (hopen : 0 ≤ host.openKvm)
    (hfails : ¬ (0 ≤ host.createVm ∧ host.block.isSome ∧ host.memory = true ∧
      host.memoryEntries = true)) (hstep : step fuel w (.new host) = .ok w') :
    ∃ changes, w' = { w with ledger := w.ledger.recordAll changes } ∧
      (Ledger.releases changes).length < (Ledger.acquisitions changes).length := by
  have hchanges := changes_createVm hopen
  by_cases hcreate : host.createVm < 0
  · rw [if_pos hcreate] at hchanges
    simp only [step, vmNew, if_neg (Int32.not_lt.mpr hopen), if_pos hcreate, ok_bind,
      hchanges] at hstep
    exact ⟨_, (Except.ok.inj hstep).symm, Nat.zero_lt_one⟩
  rw [if_neg hcreate] at hchanges
  rcases hblock : host.block with _ | block
  · simp only [step, vmNew, if_neg (Int32.not_lt.mpr hopen), if_neg hcreate, hblock,
      error_bind] at hstep
    cases hstep
  have hmem : memoryNew host.memory host.memoryEntries = none := by
    rw [memoryNew, linkedListNew]
    by_cases hmemory : host.memory = true
    · rw [if_pos hmemory, if_neg, Option.map_none]
      exact fun hentries => hfails ⟨Int32.not_lt.mp hcreate, hblock ▸ rfl, hmemory, hentries⟩
    · exact if_neg hmemory
  simp only [step, vmNew, if_neg (Int32.not_lt.mpr hopen), if_neg hcreate, hblock, hmem, ok_bind,
    List.flatMap_append, hchanges] at hstep
  exact ⟨_, (Except.ok.inj hstep).symm, Nat.lt_succ_self 1⟩

end New

/-! ### `vm_vcpu_init_state` -/

section Init
variable {tss identityMap : UInt64} {mode : UInt32} {host : VcpuAnswers}

theorem known_initState (h : live.Known) : (live.initState tss identityMap mode host).Known := by
  obtain ⟨⟨extra, hacquired, hextra⟩, hempty⟩ := h
  obtain ⟨vcpuFd, kvmRun, hvm⟩ := vmVcpuInitState_vm live.vm tss identityMap mode host
  refine ⟨⟨extra ++ (vmVcpuInitState live.vm tss identityMap mode host).acquires host, ?_, ?_⟩, ?_⟩
  · simp only [LiveVm.initState, hvm, hacquired, List.append_assoc]
  · rw [LiveVm.initState, List.forall_mem_append, List.forall_mem_singleton, ← hextra,
      ← acquires_vmVcpuInitState, List.append_eq_nil_iff]
  · rw [LiveVm.initState, hvm]
    exact hempty

theorem step_init (hfind : w.find block = some live) :
    step fuel w (.init block tss identityMap mode host) =
      .ok { ledger := w.ledger.recordAll
              (((vmVcpuInitState live.vm tss identityMap mode host).acquires host).map .acquired)
            alive := w.others block ++ [live.initState tss identityMap mode host] } := by
  rw [step, hfind]

end Init

/-! ### `vm_destroy` -/

theorem memoryDestroy_empty {mem : MemoryHeap} (h : mem.memoryEntries.head = none) (fuel : Nat) :
    ∃ left, memoryDestroy mem fuel = .ok left := by
  rw [memoryDestroy, linkedListFree, h, linkedListFreeLoop]
  exact ⟨_, rfl⟩

theorem step_destroy (hw : w.Known) (hfind : w.find block = some live) :
    step fuel w (.destroy (some block)) =
      .ok { ledger := w.ledger.recordAll (([.descriptor live.vm.kvmFd,
              .descriptor live.vm.vmFd] : List Resource).map .released)
            alive := w.others block } := by
  obtain ⟨left, hleft⟩ := memoryDestroy_empty (hw.find hfind).empty fuel
  simp only [step, hfind, vmDestroy, hleft, ok_bind]
  rfl

/-! ### Steps -/

theorem keep {e : VmEvent} (hw : w.Known) (hacc : w.Accounted) (hallowed : w.Allowed e)
    (hcond : w.NothingLeaks e) : ∃ w', step fuel w e = .ok w' ∧ w'.Known ∧ w'.Accounted := by
  rcases e with host | ⟨block, tss, identityMap, mode, host⟩ | block | block
  · rcases hcond with hopen | ⟨hcreate, hblock, hmemory, hentries⟩
    · exact ⟨w, step_new_unopened hopen, hw, hacc⟩
    by_cases hopen : host.openKvm < 0
    · exact ⟨w, step_new_unopened hopen, hw, hacc⟩
    obtain ⟨block, hblock⟩ := Option.isSome_iff_exists.mp hblock
    obtain ⟨live, hlive, hstep⟩ := step_new_made fuel w (Int32.not_lt.mp hopen) hcreate hblock
      hmemory hentries
    refine ⟨_, hstep, Known.append hw hlive, ?_⟩
    rw [Accounted, owed_append]
    exact hacc.acquire live.acquired
  · obtain ⟨live, hfind⟩ := Option.isSome_iff_exists.mp hallowed
    refine ⟨_, step_init hfind,
      Known.append (hw.others block) (known_initState (hw.find hfind)), ?_⟩
    have hacc' := hacc.acquire ((vmVcpuInitState live.vm tss identityMap mode host).acquires host)
    refine ⟨hacc'.held.trans ?_, hacc'.stray⟩
    rw [owed_append, LiveVm.initState, ← List.append_assoc]
    exact ((owed_perm hfind).trans List.perm_append_comm).append_right _
  · exact ⟨w, rfl, hw, hacc⟩
  · obtain ⟨live, hfind⟩ := Option.isSome_iff_exists.mp hallowed
    obtain ⟨extra, hacquired, hextra⟩ := (hw.find hfind).acquired
    refine ⟨_, step_destroy hw hfind, hw.others block, ?_⟩
    have howed := owed_perm hfind
    rw [hacquired, hextra.mpr (hcond live hfind), List.append_nil] at howed
    exact hacc.release howed

/-- A step that leaks leaves more open than what the VMs account for. -/
theorem breaks {e : VmEvent} (hw : w.Known) (hacc : w.Accounted) (hallowed : w.Allowed e)
    (hcond : ¬ w.NothingLeaks e) (hstep : step fuel w e = .ok w') : ¬ w'.Accounted := by
  rcases e with host | ⟨block, tss, identityMap, mode, host⟩ | block | block
  · rw [NothingLeaks, not_or] at hcond
    obtain ⟨changes, rfl, hlt⟩ := step_new_leaks (Int32.not_lt.mp hcond.1) hcond.2 hstep
    exact Ledger.not_balanced_recordAll hacc (Nat.add_lt_add_left hlt _)
  · exact absurd trivial hcond
  · exact absurd trivial hcond
  · obtain ⟨live, hfind⟩ := Option.isSome_iff_exists.mp hallowed
    obtain ⟨extra, hacquired, hextra⟩ := (hw.find hfind).acquired
    have hne : extra ≠ [] := fun hnil => hcond fun live' hfind' => by
      rw [hfind] at hfind'
      cases hfind'
      exact hextra.mp hnil
    rw [step_destroy hw hfind] at hstep
    cases hstep
    apply Ledger.not_balanced_recordAll hacc
    have hlen := (owed_perm hfind).length_eq
    have hpos := List.length_pos_iff.mpr hne
    rw [hacquired, List.length_append, List.length_append] at hlen
    rw [owed, hlen]
    show _ + 2 < 2 + extra.length + _ + 0
    dsimp only
    omega

end VmWorld

/-- **Every descriptor and mapping is accounted for** in all states of a run exactly if nothing
leaks at any of its steps. -/
theorem vm_resources_accounted_iff (fuel : Nat) (events : List VmEvent)
    (hallowed : Runs.EachStep (VmWorld.step fuel) VmWorld.Allowed VmWorld.start events) :
    Runs.AlwaysAlong (VmWorld.step fuel) VmWorld.Accounted VmWorld.start events ↔
      Runs.EachStep (VmWorld.step fuel) VmWorld.NothingLeaks VmWorld.start events :=
  Runs.alwaysAlong_iff_eachStep (I := VmWorld.Known) (fun _ _ => VmWorld.keep)
    (fun _ _ _ => VmWorld.breaks) (fun _ h => absurd h List.not_mem_nil)
    ⟨List.Perm.refl _, rfl⟩ hallowed

/-- Two VMs, one of them without a virtual CPU, and an `open` that fails. -/
theorem vm_resources_accounted_iff_two : Runs.AlwaysAlong (VmWorld.step 0) VmWorld.Accounted
    VmWorld.start
    [.new VmAnswers.granted,
     .new { VmAnswers.granted with openKvm := -1 },
     .destroy none,
     .new { VmAnswers.granted with openKvm := 5, createVm := 6, block := some 0x20 },
     .init 0x10 0xffffd000 0xffffc000 protectedMode { VcpuAnswers.granted with createVcpu := -1 },
     .init 0x20 0xffffd000 0xffffc000 protectedMode { VcpuAnswers.granted with createVcpu := 7 },
     .destroy (some 0x10)] :=
  (vm_resources_accounted_iff 0 _ (by decide)).mpr (by decide)

/-- A VM with a virtual CPU is destroyed: its descriptor and the mapping stay.
`KVM_CREATE_VM` fails: the descriptor of `/dev/kvm` stays. -/
theorem vm_destroy_leaves_vcpu :
    (Runs.EachStep (VmWorld.step 0) VmWorld.Allowed VmWorld.start
      [.new VmAnswers.granted, .init 0x10 0xffffd000 0xffffc000 protectedMode VcpuAnswers.granted,
       .destroy (some 0x10)] ∧
    ¬ Runs.AlwaysAlong (VmWorld.step 0) VmWorld.Accounted VmWorld.start
      [.new VmAnswers.granted, .init 0x10 0xffffd000 0xffffc000 protectedMode VcpuAnswers.granted,
       .destroy (some 0x10)]) ∧
    ¬ Runs.AlwaysAlong (VmWorld.step 0) VmWorld.Accounted VmWorld.start
      [.new { VmAnswers.granted with createVm := -1 }] := by
  refine ⟨⟨by decide, fun h => ?_⟩, fun h => ?_⟩
  · obtain ⟨w, hrun, hacc⟩ := h.last
    cases hrun
    exact absurd hacc.held.length_eq (by decide)
  · obtain ⟨w, hrun, hacc⟩ := h.last
    cases hrun
    exact absurd hacc.held.length_eq (by decide)

end BlackHV
