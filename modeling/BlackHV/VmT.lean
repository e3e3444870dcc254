import BlackHV.MemoryDestroy

/-! # The VM object

`vm.c`: creating a VM, setting up its virtual CPU, and destroying it.  What the kernel
answers to the system calls of a function is an argument, and the function says which of
them it makes, in order and with what arguments.  Where the kernel fills in a structure,
the structure is part of the answer.
-/
namespace BlackHV

/-- `REAL_MODE`. -/
def realMode : UInt32 := 0x1
/-- `PROTECTED_MODE`. -/
def protectedMode : UInt32 := (0x1 : UInt32) <<< 1
/-- `CREATE_IRQCHIP`. -/
def createIrqchip : UInt32 := (0x1 : UInt32) <<< 2
/-- `CREATE_PIT`. -/
def createPit : UInt32 := (0x1 : UInt32) <<< 3

/-- `vm_t`.  `kvmRun` is 0 where it is `NULL`. -/
structure VmT where
  kvmFd : Int32
  vmFd : Int32
  vcpuFd : Int32
  kvmRun : UInt64
  mem : MemoryHeap

/-- A system call of `vm_new`, with its arguments. -/
inductive VmCall where
  | openKvm
  | createVm (fd : Int32)
  | close (fd : Int32)
  deriving DecidableEq

/-- The answers to the calls of `vm_new`: what `open` and `KVM_CREATE_VM` return, the block that
`malloc` returns for the object, and whether it has blocks for the memory map and its list. -/
structure VmAnswers where
  openKvm : Int32
  createVm : Int32
  block : Option Nat
  memory : Bool
  memoryEntries : Bool

/-- `vm_new`: the pointer and the object behind it, and the calls. -/
def vmNew (host : VmAnswers) : Except Fault (Option (Nat × VmT) × List VmCall) :=
  if host.openKvm < 0 then
    .ok (none, [.openKvm])
  else
    let calls := [.openKvm, .createVm host.openKvm]
    if host.createVm < 0 then
      .ok (none, calls)
    else
      match host.block with
      -- `memset` writes to the block before the test for `NULL`
      | none => .error .nullDereference
      | some block =>
          match memoryNew host.memory host.memoryEntries with
          | none => .ok (none, calls ++ [.close host.openKvm])
          | some mem =>
              let vm := { kvmFd := host.openKvm, vmFd := host.createVm, vcpuFd := 0, kvmRun := 0,
                          mem }
              .ok (some (block, vm), calls)

/-- `vm_destroy`: the descriptors that it closes. -/
def vmDestroy (vm : Option VmT) (fuel : Nat) : Except Fault (List Int32) :=
  match vm with
  | none => .ok []
  | some vm => do
      let _ ← memoryDestroy vm.mem fuel
      .ok [vm.kvmFd, vm.vmFd]

/-- `struct kvm_segment`. -/
structure KvmSegment where
  base : UInt64
  limit : UInt32
  selector : UInt16
  type : UInt8
  present : UInt8
  dpl : UInt8
  db : UInt8
  s : UInt8
  l : UInt8
  g : UInt8
  avl : UInt8
  deriving DecidableEq

/-- The registers of `struct kvm_sregs` that the library sets. -/
structure KvmSregs where
  cs : KvmSegment
  ds : KvmSegment
  es : KvmSegment
  fs : KvmSegment
  gs : KvmSegment
  ss : KvmSegment
  cr0 : UInt64
  deriving DecidableEq

/-- `struct kvm_cpuid_entry2`. -/
structure KvmCpuidEntry2 where
  function : UInt32
  index : UInt32
  flags : UInt32
  eax : UInt32
  ebx : UInt32
  ecx : UInt32
  edx : UInt32
  deriving DecidableEq

/-- `struct mycpuid`: the `nent` entries that are in use.  KVM fills in no more than it was
given room for. -/
structure Mycpuid where
  entries : List KvmCpuidEntry2
  room : entries.length ≤ 128
  deriving DecidableEq

/-- A system call of `vm_vcpu_init_state`, with its arguments. -/
inductive VcpuCall where
  | setTssAddr (fd : Int32) (address : UInt64)
  | setIdentityMapAddr (fd : Int32) (address : UInt64)
  | createIrqchip (fd : Int32)
  | createPit2 (fd : Int32) (flags : UInt32)
  | createVcpu (fd : Int32) (id : UInt32)
  | getVcpuMmapSize (fd : Int32)
  | mmap (size : Int32) (fd : Int32)
  | getSupportedCpuid (fd : Int32) (nent : UInt32)
  | setCpuid2 (fd : Int32) (cpuid : Mycpuid)
  | getSregs (fd : Int32)
  | setSregs (fd : Int32) (sregs : KvmSregs)
  deriving DecidableEq

/-- The answers to these calls: what each of them returns, and what KVM fills in. -/
structure VcpuAnswers where
  setTssAddr : Int32
  setIdentityMapAddr : Int32
  createIrqchip : Int32
  createPit2 : Int32
  createVcpu : Int32
  getVcpuMmapSize : Int32
  mmap : UInt64
  getSupportedCpuid : Int32
  cpuid : Mycpuid
  setCpuid2 : Int32
  getSregs : Int32
  sregs : KvmSregs
  setSregs : Int32

/-- `SEGMENT_SELECTOR`. -/
def segmentSelector (index ti rpl : UInt16) : UInt16 :=
  index <<< 3 ||| (ti &&& 0x1) <<< 2 ||| rpl &&& 0x3

/-- `GDT_TYPE_WR`. -/
def gdtTypeWr : UInt8 := (0x1 : UInt8) <<< 1
/-- `GDT_TYPE_RD`. -/
def gdtTypeRd : UInt8 := (0x1 : UInt8) <<< 1
/-- `GDT_TYPE_EXEC`. -/
def gdtTypeExec : UInt8 := (0x1 : UInt8) <<< 3
/-- `CR0_PE`. -/
def cr0Pe : UInt64 := (1 : UInt64) <<< 0

/-- `set_real_mode`, and its calls.  What it does to `sregs` stays in a local variable. -/
def setRealMode (vm : VmT) (host : VcpuAnswers) : Int32 × List VcpuCall :=
  if host.getSregs < 0 then (-1, [.getSregs vm.vcpuFd]) else (0, [.getSregs vm.vcpuFd])

/-- The registers of `set_protected_mode`. -/
def protectedSregs (sregs : KvmSregs) : KvmSregs :=
  let code : KvmSegment :=
    { base := 0x0, limit := 0xFFFFFFFF, selector := segmentSelector 1 0 0,
      type := gdtTypeRd ||| gdtTypeExec, s := 1, dpl := 0, present := 1, avl := 0, l := 0, db := 1,
      g := 1 }
  let data : KvmSegment :=
    { base := 0x0, limit := 0xFFFFFFFF, selector := segmentSelector 2 0 0, type := gdtTypeWr,
      s := 1, dpl := 0, present := 1, avl := 0, l := 0, db := 1, g := 1 }
  { cr0 := sregs.cr0 ||| cr0Pe, cs := code, ss := data, ds := data, es := data, fs := data,
    gs := data }

/-- `set_protected_mode`, and its calls. -/
def setProtectedMode (vm : VmT) (host : VcpuAnswers) : Int32 × List VcpuCall :=
  if host.getSregs < 0 then
    (0, [.getSregs vm.vcpuFd])
  else
    (if host.setSregs = 0 then 1 else 0,
      [.getSregs vm.vcpuFd, .setSregs vm.vcpuFd (protectedSregs host.sregs)])

/-- `KVM_CPUID_SIGNATURE`. -/
def kvmCpuidSignature : UInt32 := 0x40000000
/-- `KVM_CPUID_FEATURES`. -/
def kvmCpuidFeatures : UInt32 := 0x40000001

/-- The loop of `setup_cpuid`. -/
def patchCpuid (cpuid : Mycpuid) : Mycpuid where
  entries := cpuid.entries.map fun entry =>
    if entry.function = kvmCpuidSignature then
      { entry with eax := kvmCpuidFeatures, ebx := 0x4b4d564b, ecx := 0x564b4d56, edx := 0x4d }
    else
      entry
  room := by
    rw [List.length_map]
    exact cpuid.room

/-- `setup_cpuid`, and its calls. -/
def setupCpuid (vm : VmT) (host : VcpuAnswers) : Int32 × List VcpuCall :=
  if host.getSupportedCpuid ≠ 0 then
    (0, [.getSupportedCpuid vm.kvmFd 128])
  else
    (host.setCpuid2,
      [.getSupportedCpuid vm.kvmFd 128, .setCpuid2 vm.vcpuFd (patchCpuid host.cpuid)])

/-- The end of `vm_vcpu_init_state`: the mode that its `mode` argument asks for. -/
def setMode (vm : VmT) (mode : UInt32) (host : VcpuAnswers) : Int32 × List VcpuCall :=
  if mode &&& realMode ≠ 0 then
    setRealMode vm host
  else if mode &&& protectedMode ≠ 0 then
    setProtectedMode vm host
  else
    (1, [])

/-- What `vm_vcpu_init_state` leaves, what it returns, and the calls it makes. -/
structure VcpuOutcome where
  vm : VmT
  result : Int32
  calls : List VcpuCall

/-- `vm_vcpu_init_state`. -/
def vmVcpuInitState (vm : VmT) (tssAddress identityMapAddr : UInt64) (mode : UInt32)
    (host : VcpuAnswers) : VcpuOutcome :=
  let calls := [VcpuCall.setTssAddr vm.vmFd tssAddress]
  if host.setTssAddr < 0 then
    ⟨vm, 0, calls⟩
  else
    let calls := calls ++ [.setIdentityMapAddr vm.vmFd identityMapAddr]
    if host.setIdentityMapAddr < 0 then
      ⟨vm, 0, calls⟩
    else
      let calls :=
        if mode &&& createIrqchip ≠ 0 then calls ++ [.createIrqchip vm.vmFd] else calls
      if mode &&& createIrqchip ≠ 0 ∧ host.createIrqchip < 0 then
        ⟨vm, 0, calls⟩
      else
        let calls := if mode &&& createPit ≠ 0 then calls ++ [.createPit2 vm.vmFd 0] else calls
        if mode &&& createPit ≠ 0 ∧ host.createPit2 < 0 then
          ⟨vm, 0, calls⟩
        else
          let calls := calls ++ [.createVcpu vm.vmFd 0]
          let vm := { vm with vcpuFd := host.createVcpu }
          if vm.vcpuFd < 0 then
            ⟨vm, 0, calls⟩
          else
            let calls := calls ++ [.getVcpuMmapSize vm.kvmFd]
            if host.getVcpuMmapSize ≤ 0 then
              ⟨vm, 0, calls⟩
            else
              let calls := calls ++ [.mmap host.getVcpuMmapSize vm.vcpuFd]
              let vm := { vm with kvmRun := host.mmap }
              if vm.kvmRun = mapFailed then
                ⟨vm, 0, calls⟩
              else
                let (cpuid, cpuidCalls) := setupCpuid vm host
                let calls := calls ++ cpuidCalls
                if cpuid < 0 then
                  ⟨vm, 0, calls⟩
                else
                  let (result, modeCalls) := setMode vm mode host
                  ⟨vm, result, calls ++ modeCalls⟩

end BlackHV
