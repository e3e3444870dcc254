import BlackHV.VmT

/-! # What `vm_vcpu_init_state` returns

The calls of `vm_vcpu_init_state` are tested in different ways: `setup_cpuid` returns 0 on
a failure and what `KVM_SET_CPUID2` returned otherwise, `set_real_mode` 0 or -1,
`set_protected_mode` 1 or 0.
-/
namespace BlackHV

/-- What counts as a success, for the three calls that the library does not test for an answer
below 0.  An answer below 0 is a failure in any case. -/
structure SuccessTests where
  mmapSize : Int32 → Prop
  supportedCpuid : Int32 → Prop
  setSregs : Int32 → Prop
  mmapSize_pos : ∀ answer, 0 < answer → mmapSize answer
  mmapSize_neg : ∀ answer, answer < 0 → ¬ mmapSize answer
  supportedCpuid_zero : supportedCpuid 0
  supportedCpuid_neg : ∀ answer, answer < 0 → ¬ supportedCpuid answer
  setSregs_zero : setSregs 0
  setSregs_neg : ∀ answer, answer < 0 → ¬ setSregs answer

/-- A call succeeds if its answer is not negative. -/
def SuccessTests.notNegative : SuccessTests where
  mmapSize answer := 0 ≤ answer
  supportedCpuid answer := 0 ≤ answer
  setSregs answer := 0 ≤ answer
  mmapSize_pos _ h := Int32.le_of_lt h
  mmapSize_neg _ h := Int32.not_le.mpr h
  supportedCpuid_zero := Int32.le_refl 0
  supportedCpuid_neg _ h := Int32.not_le.mpr h
  setSregs_zero := Int32.le_refl 0
  setSregs_neg _ h := Int32.not_le.mpr h

/-- A call succeeds if its answer passes the library's own test. -/
def SuccessTests.asTested : SuccessTests where
  mmapSize answer := 0 < answer
  supportedCpuid answer := answer = 0
  setSregs answer := answer = 0
  mmapSize_pos _ h := h
  mmapSize_neg _ h := Int32.not_lt.mpr (Int32.le_of_lt h)
  supportedCpuid_zero := rfl
  supportedCpuid_neg _ h := Int32.ne_of_lt h
  setSregs_zero := rfl
  setSregs_neg _ h := Int32.ne_of_lt h

/-- The call succeeded. -/
def VcpuCall.Succeeded (tests : SuccessTests) (host : VcpuAnswers) : VcpuCall → Prop
  | .setTssAddr _ _ => 0 ≤ host.setTssAddr
  | .setIdentityMapAddr _ _ => 0 ≤ host.setIdentityMapAddr
  | .createIrqchip _ => 0 ≤ host.createIrqchip
  | .createPit2 _ _ => 0 ≤ host.createPit2
  | .createVcpu _ _ => 0 ≤ host.createVcpu
  | .getVcpuMmapSize _ => tests.mmapSize host.getVcpuMmapSize
  | .mmap _ _ => host.mmap ≠ mapFailed
  | .getSupportedCpuid _ _ => tests.supportedCpuid host.getSupportedCpuid
  | .setCpuid2 _ _ => 0 ≤ host.setCpuid2
  | .getSregs _ => 0 ≤ host.getSregs
  | .setSregs _ _ => tests.setSregs host.setSregs

/-- It returns 1 if every call it made succeeded, and only then, and 0 otherwise. -/
def VcpuOutcome.TellsSuccess (tests : SuccessTests) (host : VcpuAnswers) (outcome : VcpuOutcome) :
    Prop :=
  (outcome.result = 1 ↔ ∀ call ∈ outcome.calls, call.Succeeded tests host) ∧
    (¬ (∀ call ∈ outcome.calls, call.Succeeded tests host) → outcome.result = 0)

/-- No call up to `KVM_CREATE_VCPU` fails. -/
structure GetsVcpu (mode : UInt32) (host : VcpuAnswers) : Prop where
  tss : 0 ≤ host.setTssAddr
  identityMap : 0 ≤ host.setIdentityMapAddr
  irqchip : mode &&& createIrqchip ≠ 0 → 0 ≤ host.createIrqchip
  pit : mode &&& createPit ≠ 0 → 0 ≤ host.createPit2
  vcpu : 0 ≤ host.createVcpu

instance (mode : UInt32) (host : VcpuAnswers) : Decidable (GetsVcpu mode host) :=
  decidable_of_iff (0 ≤ host.setTssAddr ∧ 0 ≤ host.setIdentityMapAddr ∧
      (mode &&& createIrqchip ≠ 0 → 0 ≤ host.createIrqchip) ∧
      (mode &&& createPit ≠ 0 → 0 ≤ host.createPit2) ∧ 0 ≤ host.createVcpu)
    ⟨fun ⟨tss, identityMap, irqchip, pit, vcpu⟩ => ⟨tss, identityMap, irqchip, pit, vcpu⟩,
      fun h => ⟨h.tss, h.identityMap, h.irqchip, h.pit, h.vcpu⟩⟩

/-- `kvm_run` is mapped. -/
structure GetsKvmRun (mode : UInt32) (host : VcpuAnswers) : Prop extends GetsVcpu mode host where
  size : 0 < host.getVcpuMmapSize
  mapped : host.mmap ≠ mapFailed

/-- The calls before `KVM_CREATE_VCPU`, if none of them fails. -/
def setupCalls (vm : VmT) (tssAddress identityMapAddr : UInt64) (mode : UInt32) : List VcpuCall :=
  [.setTssAddr vm.vmFd tssAddress, .setIdentityMapAddr vm.vmFd identityMapAddr] ++
    (if mode &&& createIrqchip ≠ 0 then [.createIrqchip vm.vmFd] else []) ++
    (if mode &&& createPit ≠ 0 then [.createPit2 vm.vmFd 0] else [])

/-- The calls up to `KVM_CREATE_VCPU`, if none of them fails. -/
def vcpuCalls (vm : VmT) (tssAddress identityMapAddr : UInt64) (mode : UInt32) : List VcpuCall :=
  setupCalls vm tssAddress identityMapAddr mode ++ [.createVcpu vm.vmFd 0]

variable {vm : VmT} {tss identityMap : UInt64} {mode : UInt32} {host : VcpuAnswers}

/-- A call that is made or not. -/
theorem ite_append (made : Prop) [Decidable made] (calls : List VcpuCall) (call : VcpuCall) :
    (if made then calls ++ [call] else calls) = calls ++ if made then [call] else [] := by
  split
  · rfl
  · rw [List.append_nil]

theorem mem_setupCalls {call : VcpuCall} : call ∈ setupCalls vm tss identityMap mode ↔
    call = .setTssAddr vm.vmFd tss ∨ call = .setIdentityMapAddr vm.vmFd identityMap ∨
      (mode &&& createIrqchip ≠ 0 ∧ call = .createIrqchip vm.vmFd) ∨
      (mode &&& createPit ≠ 0 ∧ call = .createPit2 vm.vmFd 0) := by
  simp only [setupCalls, List.mem_append, List.mem_cons, List.not_mem_nil, or_false,
    List.mem_ite_nil_right, or_assoc]

theorem GetsVcpu.succeeded (h : GetsVcpu mode host) (tests : SuccessTests) :
    ∀ call ∈ vcpuCalls vm tss identityMap mode, call.Succeeded tests host := by
  intro call hcall
  rw [vcpuCalls, List.mem_append, List.mem_singleton, mem_setupCalls] at hcall
  rcases hcall with (rfl | rfl | ⟨hirq, rfl⟩ | ⟨hpit, rfl⟩) | rfl
  · exact h.tss
  · exact h.identityMap
  · exact h.irqchip hirq
  · exact h.pit hpit
  · exact h.vcpu

/-- A call up to `KVM_CREATE_VCPU` that fails is the last one. -/
theorem vmVcpuInitState_of_not_getsVcpu (vm : VmT) (tss identityMap : UInt64)
    (h : ¬ GetsVcpu mode host) :
    ∃ vcpuFd before call,
      vmVcpuInitState vm tss identityMap mode host =
        ⟨{ vm with vcpuFd }, 0, before ++ [call]⟩ ∧
      (∀ c ∈ before, c ∈ setupCalls vm tss identityMap mode) ∧
      ∀ tests, ¬ call.Succeeded tests host := by
  unfold vmVcpuInitState
  by_cases htss : host.setTssAddr < 0
  · rw [if_pos htss]
    exact ⟨_, [], _, rfl, fun c hc => absurd hc List.not_mem_nil, fun _ => Int32.not_le.mpr htss⟩
  rw [if_neg htss]
  by_cases hid : host.setIdentityMapAddr < 0
  · rw [if_pos hid]
    refine ⟨_, _, _, rfl, fun c hc => ?_, fun _ => Int32.not_le.mpr hid⟩
    rw [mem_setupCalls]
    exact Or.inl (List.mem_singleton.mp hc)
  rw [if_neg hid]
  by_cases hirq : mode &&& createIrqchip ≠ 0 ∧ host.createIrqchip < 0
  · rw [if_pos hirq, if_pos hirq.1]
    refine ⟨_, _, _, rfl, fun c hc => ?_, fun _ => Int32.not_le.mpr hirq.2⟩
    exact List.mem_append_left _ (List.mem_append_left _ hc)
  rw [if_neg hirq]
  rw [ite_append (mode &&& createIrqchip ≠ 0)]
  by_cases hpit : mode &&& createPit ≠ 0 ∧ host.createPit2 < 0
  · rw [if_pos hpit, if_pos hpit.1]
    refine ⟨_, _, _, rfl, fun c hc => ?_, fun _ => Int32.not_le.mpr hpit.2⟩
    exact List.mem_append_left _ hc
  rw [if_neg hpit, ite_append (mode &&& createPit ≠ 0)]
  have hvcpu : host.createVcpu < 0 := by
    by_contra hvcpu
    refine h ⟨Int32.not_lt.mp htss, Int32.not_lt.mp hid, fun hb => ?_, fun hb => ?_,
      Int32.not_lt.mp hvcpu⟩
    · exact Int32.not_lt.mp fun hc => hirq ⟨hb, hc⟩
    · exact Int32.not_lt.mp fun hc => hpit ⟨hb, hc⟩
  rw [if_pos hvcpu]
  exact ⟨_, _, _, rfl, fun c hc => hc, fun _ => Int32.not_le.mpr hvcpu⟩

/-- What follows `KVM_CREATE_VCPU`. -/
theorem vmVcpuInitState_of_getsVcpu (h : GetsVcpu mode host) :
    vmVcpuInitState vm tss identityMap mode host =
      let calls := vcpuCalls vm tss identityMap mode ++ [.getVcpuMmapSize vm.kvmFd]
      let vm := { vm with vcpuFd := host.createVcpu }
      if host.getVcpuMmapSize ≤ 0 then ⟨vm, 0, calls⟩
      else
        let calls := calls ++ [.mmap host.getVcpuMmapSize host.createVcpu]
        let vm := { vm with kvmRun := host.mmap }
        if host.mmap = mapFailed then ⟨vm, 0, calls⟩
        else
          let calls := calls ++ (setupCpuid vm host).2
          if (setupCpuid vm host).1 < 0 then ⟨vm, 0, calls⟩
          else ⟨vm, (setMode vm mode host).1, calls ++ (setMode vm mode host).2⟩ := by
  have hirq : ¬ (mode &&& createIrqchip ≠ 0 ∧ host.createIrqchip < 0) := fun hc =>
    Int32.not_le.mpr hc.2 (h.irqchip hc.1)
  have hpit : ¬ (mode &&& createPit ≠ 0 ∧ host.createPit2 < 0) := fun hc =>
    Int32.not_le.mpr hc.2 (h.pit hc.1)
  rw [vmVcpuInitState, if_neg (Int32.not_lt.mpr h.tss), if_neg (Int32.not_lt.mpr h.identityMap),
    if_neg hirq, if_neg hpit, if_neg (Int32.not_lt.mpr h.vcpu), ite_append (mode &&& createPit ≠ 0),
    ite_append (mode &&& createIrqchip ≠ 0)]
  rfl

variable {tests : SuccessTests}

namespace VcpuOutcome

/-- A call failed and the result is 0. -/
theorem TellsSuccess.of_failed {outcome : VcpuOutcome} (h : outcome.result = 0)
    (hfailed : ¬ ∀ call ∈ outcome.calls, call.Succeeded tests host) :
    outcome.TellsSuccess tests host := by
  refine ⟨⟨fun h₁ => ?_, fun hall => absurd hall hfailed⟩, fun _ => h⟩
  rw [h] at h₁
  exact absurd h₁ (by decide)

theorem tellsSuccess_iff_of_succeeded {outcome : VcpuOutcome}
    (hall : ∀ call ∈ outcome.calls, call.Succeeded tests host) :
    outcome.TellsSuccess tests host ↔ outcome.result = 1 :=
  ⟨fun h => h.1.mpr hall, fun h => ⟨⟨fun _ => hall, fun _ => h⟩, fun hnot => absurd hall hnot⟩⟩

theorem tellsSuccess_iff_of_failed {outcome : VcpuOutcome}
    (hfailed : ¬ ∀ call ∈ outcome.calls, call.Succeeded tests host) :
    outcome.TellsSuccess tests host ↔ outcome.result = 0 :=
  ⟨fun h => h.2 hfailed, fun h => TellsSuccess.of_failed h hfailed⟩

/-- Calls that succeeded before the others make no difference. -/
theorem tellsSuccess_append_iff {before calls : List VcpuCall} {result : Int32}
    (hbefore : ∀ call ∈ before, call.Succeeded tests host) :
    TellsSuccess tests host ⟨vm, result, before ++ calls⟩ ↔
      TellsSuccess tests host ⟨vm, result, calls⟩ := by
  have hall : (∀ call ∈ before ++ calls, call.Succeeded tests host) ↔
      ∀ call ∈ calls, call.Succeeded tests host := by
    rw [List.forall_mem_append]
    exact and_iff_right hbefore
  simp only [TellsSuccess, hall]

end VcpuOutcome

/-- The calls up to `mmap`, if none of them fails. -/
def kvmRunCalls (vm : VmT) (tssAddress identityMapAddr : UInt64) (mode : UInt32)
    (host : VcpuAnswers) : List VcpuCall :=
  vcpuCalls vm tssAddress identityMapAddr mode ++ [.getVcpuMmapSize vm.kvmFd] ++
    [.mmap host.getVcpuMmapSize host.createVcpu]

theorem GetsKvmRun.succeeded (h : GetsKvmRun mode host) (tests : SuccessTests) :
    ∀ call ∈ kvmRunCalls vm tss identityMap mode host, call.Succeeded tests host := by
  intro call hcall
  simp only [kvmRunCalls, List.mem_append, List.mem_singleton] at hcall
  rcases hcall with (hcall | rfl) | rfl
  · exact h.toGetsVcpu.succeeded tests call hcall
  · exact tests.mmapSize_pos _ h.size
  · exact h.mapped

/-- What follows `mmap`. -/
theorem vmVcpuInitState_of_getsKvmRun (h : GetsKvmRun mode host) :
    vmVcpuInitState vm tss identityMap mode host =
      let calls := kvmRunCalls vm tss identityMap mode host
      let vm := { vm with vcpuFd := host.createVcpu, kvmRun := host.mmap }
      let calls := calls ++ (setupCpuid vm host).2
      if (setupCpuid vm host).1 < 0 then ⟨vm, 0, calls⟩
      else ⟨vm, (setMode vm mode host).1, calls ++ (setMode vm mode host).2⟩ := by
  rw [vmVcpuInitState_of_getsVcpu h.toGetsVcpu]
  dsimp only
  rw [if_neg (Int32.not_le.mpr h.size), if_neg h.mapped]
  rfl

/-- Without `kvm_run`, the result is 0; it is a failure's unless `KVM_GET_VCPU_MMAP_SIZE`
answers 0 and that counts as a success. -/
theorem tellsSuccess_of_not_getsKvmRun (h : ¬ GetsKvmRun mode host) :
    (vmVcpuInitState vm tss identityMap mode host).TellsSuccess tests host ↔
      (GetsVcpu mode host → host.getVcpuMmapSize = 0 → ¬ tests.mmapSize 0) := by
  by_cases hvcpu : GetsVcpu mode host
  swap
  · obtain ⟨_, _, call, heq, -, hfailed⟩ :=
      vmVcpuInitState_of_not_getsVcpu vm tss identityMap hvcpu
    rw [heq]
    refine ⟨fun _ hc => absurd hc hvcpu, fun _ => .of_failed rfl fun hall => ?_⟩
    exact hfailed tests (hall call (List.mem_append_right _ List.mem_cons_self))
  rw [vmVcpuInitState_of_getsVcpu hvcpu]
  dsimp only
  by_cases hsize : host.getVcpuMmapSize ≤ 0
  · rw [if_pos hsize]
    by_cases hzero : host.getVcpuMmapSize = 0 ∧ tests.mmapSize 0
    · rw [VcpuOutcome.tellsSuccess_iff_of_succeeded]
      · exact ⟨fun (hc : (0 : Int32) = 1) => absurd hc (by decide),
          fun hc => absurd hzero.2 (hc hvcpu hzero.1)⟩
      · intro call hcall
        rcases List.mem_append.mp hcall with hcall | hcall
        · exact hvcpu.succeeded tests call hcall
        · rw [List.mem_singleton.mp hcall]
          show tests.mmapSize host.getVcpuMmapSize
          rw [hzero.1]
          exact hzero.2
    · refine ⟨fun _ _ hs ht => hzero ⟨hs, ht⟩, fun _ => .of_failed rfl fun hall => ?_⟩
      have hlast := hall _ (List.mem_append_right _ List.mem_cons_self)
      rcases Int32.lt_or_eq_of_le hsize with hneg | heq
      · exact tests.mmapSize_neg _ hneg hlast
      · exact hzero ⟨heq, heq ▸ hlast⟩
  · rw [if_neg hsize]
    have hmap : host.mmap = mapFailed := by
      by_contra hmap
      exact h ⟨hvcpu, Int32.not_le.mp hsize, hmap⟩
    rw [if_pos hmap]
    refine ⟨fun _ _ hs => absurd (Int32.le_of_eq hs) hsize, fun _ => .of_failed rfl fun hall => ?_⟩
    exact hall _ (List.mem_append_right _ List.mem_cons_self) hmap

/-- What `set_real_mode` returns is 0 or -1, and 0 is for a success. -/
theorem not_tellsSuccess_setRealMode :
    ¬ VcpuOutcome.TellsSuccess tests host
      ⟨vm, (setRealMode vm host).1, (setRealMode vm host).2⟩ := by
  rw [setRealMode]
  by_cases hget : host.getSregs < 0
  · rw [if_pos hget, VcpuOutcome.tellsSuccess_iff_of_failed]
    · exact fun (h : (-1 : Int32) = 0) => absurd h (by decide)
    · exact fun hall => Int32.not_le.mpr hget (hall _ List.mem_cons_self)
  · rw [if_neg hget, VcpuOutcome.tellsSuccess_iff_of_succeeded]
    · exact fun (h : (0 : Int32) = 1) => absurd h (by decide)
    · rintro call hcall
      rw [List.mem_singleton.mp hcall]
      exact Int32.not_lt.mp hget

theorem tellsSuccess_setProtectedMode :
    VcpuOutcome.TellsSuccess tests host
        ⟨vm, (setProtectedMode vm host).1, (setProtectedMode vm host).2⟩ ↔
      (0 ≤ host.getSregs → 0 < host.setSregs → ¬ tests.setSregs host.setSregs) := by
  rw [setProtectedMode]
  by_cases hget : host.getSregs < 0
  · rw [if_pos hget, VcpuOutcome.tellsSuccess_iff_of_failed]
    · exact ⟨fun _ h => absurd hget (Int32.not_lt.mpr h), fun _ => rfl⟩
    · exact fun hall => Int32.not_le.mpr hget (hall _ List.mem_cons_self)
  rw [if_neg hget]
  have hget' : 0 ≤ host.getSregs := Int32.not_lt.mp hget
  by_cases hset : tests.setSregs host.setSregs
  · rw [VcpuOutcome.tellsSuccess_iff_of_succeeded]
    swap
    · intro call hcall
      rcases List.mem_cons.mp hcall with rfl | hcall
      · exact hget'
      · rw [List.mem_singleton.mp hcall]
        exact hset
    by_cases hzero : host.setSregs = 0
    · rw [if_pos hzero]
      exact ⟨fun _ _ h => absurd hzero (Int32.ne_of_lt h).symm, fun _ => rfl⟩
    · rw [if_neg hzero]
      have hpos : 0 < host.setSregs := Int32.lt_of_le_of_ne
        (Int32.not_lt.mp fun hneg => tests.setSregs_neg _ hneg hset) (Ne.symm hzero)
      exact ⟨fun (h : (0 : Int32) = 1) => absurd h (by decide), fun h => absurd hset (h hget' hpos)⟩
  · have hzero : host.setSregs ≠ 0 := fun h => hset (h ▸ tests.setSregs_zero)
    rw [VcpuOutcome.tellsSuccess_iff_of_failed]
    · rw [if_neg hzero]
      exact ⟨fun _ _ _ => hset, fun _ => rfl⟩
    · exact fun hall => hset (hall _ (List.mem_cons_of_mem _ List.mem_cons_self))

/-- The modes: `REAL_MODE` never tells, whatever the other bits. -/
theorem tellsSuccess_setMode :
    VcpuOutcome.TellsSuccess tests host ⟨vm, (setMode vm mode host).1, (setMode vm mode host).2⟩ ↔
      mode &&& realMode = 0 ∧ (mode &&& protectedMode ≠ 0 → 0 ≤ host.getSregs →
        0 < host.setSregs → ¬ tests.setSregs host.setSregs) := by
  rw [setMode]
  by_cases hreal : mode &&& realMode = 0
  swap
  · rw [if_pos hreal]
    exact ⟨fun h => absurd h not_tellsSuccess_setRealMode, fun h => absurd h.1 hreal⟩
  rw [if_neg (not_not_intro hreal)]
  by_cases hprot : mode &&& protectedMode = 0
  · rw [if_neg (not_not_intro hprot)]
    refine ⟨fun _ => ⟨hreal, fun hc => absurd hprot hc⟩, fun _ => ?_⟩
    exact (VcpuOutcome.tellsSuccess_iff_of_succeeded (fun _ h => absurd h List.not_mem_nil)).mpr rfl
  · rw [if_pos hprot, tellsSuccess_setProtectedMode]
    exact ⟨fun h => ⟨hreal, fun _ => h⟩, fun h => h.2 hprot⟩

/-- What the modes return where an earlier failure has been let through. -/
theorem setMode_eq_zero_iff :
    (setMode vm mode host).1 = 0 ↔
      if mode &&& realMode ≠ 0 then 0 ≤ host.getSregs
      else mode &&& protectedMode ≠ 0 ∧ (0 ≤ host.getSregs → host.setSregs ≠ 0) := by
  rw [setMode]
  split
  · rw [setRealMode]
    by_cases hget : host.getSregs < 0
    · rw [if_pos hget]
      exact ⟨fun (h : (-1 : Int32) = 0) => absurd h (by decide),
        fun h => absurd hget (Int32.not_lt.mpr h)⟩
    · rw [if_neg hget]
      exact ⟨fun _ => Int32.not_lt.mp hget, fun _ => rfl⟩
  · by_cases hprot : mode &&& protectedMode = 0
    · rw [if_neg (not_not_intro hprot)]
      exact ⟨fun (h : (1 : Int32) = 0) => absurd h (by decide), fun h => absurd hprot h.1⟩
    · rw [if_pos hprot, setProtectedMode, and_iff_right hprot]
      by_cases hget : host.getSregs < 0
      · rw [if_pos hget]
        exact ⟨fun _ h => absurd hget (Int32.not_lt.mpr h), fun _ => rfl⟩
      · rw [if_neg hget, forall_prop_of_true (Int32.not_lt.mp hget)]
        by_cases hzero : host.setSregs = 0
        · rw [if_pos hzero]
          exact ⟨fun (h : (1 : Int32) = 0) => absurd h (by decide), fun h => absurd hzero h⟩
        · rw [if_neg hzero]
          exact ⟨fun _ h => hzero h, fun _ => rfl⟩

/-- When `vm_vcpu_init_state` tells whether its calls succeeded. -/
structure InitTells (tests : SuccessTests) (mode : UInt32) (host : VcpuAnswers) : Prop where
  /-- A size of 0 is not taken for a success. -/
  size : GetsVcpu mode host → host.getVcpuMmapSize = 0 → ¬ tests.mmapSize 0
  /-- If the calls of `setup_cpuid` succeed: the mode is not `REAL_MODE`, and in
  `PROTECTED_MODE` an answer above 0 to `KVM_SET_SREGS` is not taken for a success. -/
  supported : GetsKvmRun mode host → tests.supportedCpuid host.getSupportedCpuid →
    (host.getSupportedCpuid = 0 → 0 ≤ host.setCpuid2) →
    mode &&& realMode = 0 ∧ (mode &&& protectedMode ≠ 0 → 0 ≤ host.getSregs →
      0 < host.setSregs → ¬ tests.setSregs host.setSregs)
  /-- If `KVM_GET_SUPPORTED_CPUID` fails: `set_real_mode` reads the registers, or
  `set_protected_mode` fails as well. -/
  unsupported : GetsKvmRun mode host → ¬ tests.supportedCpuid host.getSupportedCpuid →
    if mode &&& realMode ≠ 0 then 0 ≤ host.getSregs
    else mode &&& protectedMode ≠ 0 ∧ (0 ≤ host.getSregs → host.setSregs ≠ 0)

/-- With `kvm_run` mapped and its own calls good, `setup_cpuid` leaves it to the mode. -/
theorem initTells_iff_of_supported (h : GetsKvmRun mode host)
    (ht : tests.supportedCpuid host.getSupportedCpuid)
    (hset : host.getSupportedCpuid = 0 → 0 ≤ host.setCpuid2) :
    InitTells tests mode host ↔
      mode &&& realMode = 0 ∧ (mode &&& protectedMode ≠ 0 → 0 ≤ host.getSregs →
        0 < host.setSregs → ¬ tests.setSregs host.setSregs) := by
  refine ⟨fun hc => hc.supported h ht hset, fun hmode => ⟨fun _ hs => ?_, fun _ _ _ => hmode,
    fun _ hnot => absurd ht hnot⟩⟩
  exact absurd hs.symm (Int32.ne_of_lt h.size)

theorem initTells_iff_of_unsupported (h : GetsKvmRun mode host)
    (ht : ¬ tests.supportedCpuid host.getSupportedCpuid) :
    InitTells tests mode host ↔
      if mode &&& realMode ≠ 0 then 0 ≤ host.getSregs
      else mode &&& protectedMode ≠ 0 ∧ (0 ≤ host.getSregs → host.setSregs ≠ 0) := by
  refine ⟨fun hc => hc.unsupported h ht, fun hmode => ⟨fun _ hs => ?_, fun _ hyes => absurd hyes ht,
    fun _ _ => hmode⟩⟩
  exact absurd hs.symm (Int32.ne_of_lt h.size)

/-- Where `KVM_SET_CPUID2` fails, the one test of `setup_cpuid`'s caller sees it. -/
theorem initTells_of_setCpuid2 (h : GetsKvmRun mode host) (hsup : host.getSupportedCpuid = 0)
    (hset : host.setCpuid2 < 0) : InitTells tests mode host := by
  refine ⟨fun _ hs => absurd hs.symm (Int32.ne_of_lt h.size), fun _ _ hc => ?_, fun _ hnot => ?_⟩
  · exact absurd hset (Int32.not_lt.mpr (hc hsup))
  · exact absurd (hsup ▸ tests.supportedCpuid_zero) hnot

theorem tellsSuccess_of_getsKvmRun (h : GetsKvmRun mode host) :
    (vmVcpuInitState vm tss identityMap mode host).TellsSuccess tests host ↔
      InitTells tests mode host := by
  rw [vmVcpuInitState_of_getsKvmRun h]
  dsimp only
  rw [setupCpuid]
  by_cases hsup : host.getSupportedCpuid = 0
  · have ht : tests.supportedCpuid host.getSupportedCpuid := hsup ▸ tests.supportedCpuid_zero
    rw [if_neg (not_not_intro hsup)]
    by_cases hset : host.setCpuid2 < 0
    · rw [if_pos hset, VcpuOutcome.tellsSuccess_iff_of_failed]
      · exact iff_of_true rfl (initTells_of_setCpuid2 h hsup hset)
      · refine fun hall => Int32.not_le.mpr hset ?_
        exact hall _ (List.mem_append_right _ (List.mem_cons_of_mem _ List.mem_cons_self))
    · rw [if_neg hset, VcpuOutcome.tellsSuccess_append_iff, tellsSuccess_setMode,
        initTells_iff_of_supported h ht fun _ => Int32.not_lt.mp hset]
      rw [List.forall_mem_append]
      refine ⟨h.succeeded tests, fun call hcall => ?_⟩
      rcases List.mem_cons.mp hcall with rfl | hcall
      · exact ht
      · rw [List.mem_singleton.mp hcall]
        exact Int32.not_lt.mp hset
  · -- `setup_cpuid` returns 0, which its caller takes for a success
    rw [if_pos hsup, if_neg Int32.lt_irrefl]
    by_cases ht : tests.supportedCpuid host.getSupportedCpuid
    · rw [VcpuOutcome.tellsSuccess_append_iff, tellsSuccess_setMode,
        initTells_iff_of_supported h ht fun hzero => absurd hzero hsup]
      rw [List.forall_mem_append]
      refine ⟨h.succeeded tests, fun call hcall => ?_⟩
      rw [List.mem_singleton.mp hcall]
      exact ht
    · rw [VcpuOutcome.tellsSuccess_iff_of_failed, initTells_iff_of_unsupported h ht]
      · exact setMode_eq_zero_iff
      · intro hall
        apply ht
        apply hall _ (List.mem_append_left _ (List.mem_append_right _ List.mem_cons_self))

/-- **What `vm_vcpu_init_state` returns.**  Whatever counts as a success of the calls that are
not tested for an answer below 0, the result tells whether the calls succeeded exactly where
`InitTells` says. -/
theorem vm_vcpu_init_state_tells_success_iff (tests : SuccessTests) (vm : VmT)
    (tssAddress identityMapAddr : UInt64) (mode : UInt32) (host : VcpuAnswers) :
    (vmVcpuInitState vm tssAddress identityMapAddr mode host).TellsSuccess tests host ↔
      InitTells tests mode host := by
  by_cases h : GetsKvmRun mode host
  · exact tellsSuccess_of_getsKvmRun h
  · rw [tellsSuccess_of_not_getsKvmRun h]
    exact ⟨fun hsize => ⟨hsize, fun hc => absurd hc h, fun hc => absurd hc h⟩, fun hc => hc.size⟩

/-- Answers to `vm_vcpu_init_state` that grant every call. -/
def VcpuAnswers.granted : VcpuAnswers :=
  let segment : KvmSegment :=
    { base := 0, limit := 0xffff, selector := 0, type := 3, present := 1, dpl := 0, db := 0, s := 1,
      l := 0, g := 0, avl := 0 }
  { setTssAddr := 0, setIdentityMapAddr := 0, createIrqchip := 0, createPit2 := 0, createVcpu := 5,
    getVcpuMmapSize := 0x3000, mmap := 0x7f0000000000, getSupportedCpuid := 0,
    cpuid := { entries := [], room := Nat.zero_le _ }, setCpuid2 := 0, getSregs := 0,
    sregs := { cs := segment, ds := segment, es := segment, fs := segment, gs := segment,
               ss := segment, cr0 := 0x60000010 },
    setSregs := 0 }

theorem getsKvmRun_granted (supported : Int32) {mode : UInt32} :
    GetsKvmRun mode { VcpuAnswers.granted with getSupportedCpuid := supported } :=
  { tss := Int32.le_refl 0, identityMap := Int32.le_refl 0, irqchip := fun _ => Int32.le_refl 0,
    pit := fun _ => Int32.le_refl 0, vcpu := show (0 : Int32) ≤ 5 by decide,
    size := show (0 : Int32) < 0x3000 by decide,
    mapped := show (0x7f0000000000 : UInt64) ≠ mapFailed by decide }

/-- Answers to `vm_new` that grant every call. -/
def VmAnswers.granted : VmAnswers :=
  { openKvm := 3, createVm := 4, block := some 0x10, memory := true, memoryEntries := true }

/-- `REAL_MODE`: every call succeeds and the result is 0. -/
theorem not_tellsSuccess_realMode (tests : SuccessTests) (vm : VmT) :
    ¬ (vmVcpuInitState vm 0xffffd000 0xffffc000 realMode VcpuAnswers.granted).TellsSuccess tests
      VcpuAnswers.granted := by
  intro h
  have hc := (tellsSuccess_of_getsKvmRun (getsKvmRun_granted 0)).mp h
  have hreal := hc.supported (getsKvmRun_granted 0) tests.supportedCpuid_zero
    fun _ => Int32.le_refl 0
  exact absurd hreal.1 (by decide)

/-- No mode: `KVM_GET_SUPPORTED_CPUID` fails and the result is 1. -/
theorem not_tellsSuccess_unsupported (tests : SuccessTests) (vm : VmT) :
    ¬ (vmVcpuInitState vm 0xffffd000 0xffffc000 0
        { VcpuAnswers.granted with getSupportedCpuid := -1 }).TellsSuccess tests
      { VcpuAnswers.granted with getSupportedCpuid := -1 } := by
  intro h
  have hc := (tellsSuccess_of_getsKvmRun (getsKvmRun_granted (-1))).mp h
  have hprot := hc.unsupported (getsKvmRun_granted (-1))
    (tests.supportedCpuid_neg _ (show (-1 : Int32) < 0 by decide))
  rw [if_neg (by decide)] at hprot
  exact absurd hprot.1 (by decide)

/-- Both inputs on a VM that `vm_new` has made, and for both readings of the answers. -/
theorem vm_vcpu_init_state_misreports : ∃ vm calls,
    vmNew VmAnswers.granted = .ok (some (0x10, vm), calls) ∧
    (¬ (vmVcpuInitState vm 0xffffd000 0xffffc000 realMode VcpuAnswers.granted).TellsSuccess
        SuccessTests.notNegative VcpuAnswers.granted ∧
      ¬ (vmVcpuInitState vm 0xffffd000 0xffffc000 realMode VcpuAnswers.granted).TellsSuccess
        SuccessTests.asTested VcpuAnswers.granted) ∧
    ¬ (vmVcpuInitState vm 0xffffd000 0xffffc000 0
        { VcpuAnswers.granted with getSupportedCpuid := -1 }).TellsSuccess
      SuccessTests.notNegative { VcpuAnswers.granted with getSupportedCpuid := -1 } ∧
    ¬ (vmVcpuInitState vm 0xffffd000 0xffffc000 0
        { VcpuAnswers.granted with getSupportedCpuid := -1 }).TellsSuccess
      SuccessTests.asTested { VcpuAnswers.granted with getSupportedCpuid := -1 } :=
  ⟨_, _, rfl, ⟨not_tellsSuccess_realMode _ _, not_tellsSuccess_realMode _ _⟩,
    not_tellsSuccess_unsupported _ _, not_tellsSuccess_unsupported _ _⟩

end BlackHV
