import BlackHV.AtapiRead

/-! # Exits for port accesses

`vm.c`: when the guest accesses a port, KVM stops the CPU and describes the access in
`kvm_run->io`; the data are in the same mapped block, `data_offset` bytes from its start.
A string instruction with a repeat prefix is one exit with a `count`: that many elements
of `size` bytes each, one after the other.  `handle_exit_io` does not look at `count`.
-/
namespace BlackHV

/-- `KVM_EXIT_IO_IN`. -/
def kvmExitIoIn : UInt8 := 0
/-- `KVM_EXIT_IO_OUT`. -/
def kvmExitIoOut : UInt8 := 1

/-- `kvm_run->io`. -/
structure KvmIo where
  direction : UInt8
  size : UInt8
  port : UInt16
  count : UInt32
  dataOffset : Nat

/-- The bytes of `data` in place of those from an offset on. -/
def putBytes (block : List UInt8) (offset : Nat) : List UInt8 → List UInt8
  | [] => block
  | b :: data => putBytes (block.set offset b) (offset + 1) data

/-- `*(u8 *)(block + offset)`. -/
def loadU8 (block : List UInt8) (offset : Nat) : Except Fault UInt8 :=
  if offset < block.length then .ok (block[offset]?.getD 0) else .error .outOfBounds

/-- `*(u16 *)(block + offset)`. -/
def loadU16 (block : List UInt8) (offset : Nat) : Except Fault UInt16 :=
  if offset + 1 < block.length then
    .ok (Bytes.leWord (block[offset]?.getD 0) (block[offset + 1]?.getD 0))
  else
    .error .outOfBounds

/-- `*(u8 *)(block + offset) = b`. -/
def storeU8 (block : List UInt8) (offset : Nat) (b : UInt8) : Except Fault (List UInt8) :=
  if offset < block.length then .ok (putBytes block offset [b]) else .error .outOfBounds

/-- `*(u16 *)(block + offset) = word`. -/
def storeU16 (block : List UInt8) (offset : Nat) (word : UInt16) : Except Fault (List UInt8) :=
  if offset + 1 < block.length then
    .ok (putBytes block offset [word.toUInt8, (word >>> 8).toUInt8])
  else
    .error .outOfBounds

variable {Env State : Type}

/-- `handle_exit_io`, on the block `run` that `kvm_run` points to.  It prints a line where no
handler takes the access. -/
def handleExitIo (table : HandlerTable Env State) (env : Env) (io : KvmIo) (run : List UInt8)
    (s : State) : Except Fault (State × List UInt8) :=
  if io.direction = kvmExitIoOut then
    if io.size = 1 then do
      let data ← loadU8 run io.dataOffset
      let (s, _) ← ioHandleOutb table env io.port data s
      .ok (s, run)
    else if io.size = 2 then do
      let data ← loadU16 run io.dataOffset
      let (s, _) ← ioHandleOutw table env io.port data s
      .ok (s, run)
    else
      .ok (s, run)
  else if io.direction = kvmExitIoIn then
    if io.size = 1 then do
      let (s, output) ← ioHandleInb table env io.port s
      match output with
      | some b => do
          let run ← storeU8 run io.dataOffset b
          .ok (s, run)
      | none => .ok (s, run)
    else if io.size = 2 then do
      let (s, output) ← ioHandleInw table env io.port s
      match output with
      | some word => do
          let run ← storeU16 run io.dataOffset word
          .ok (s, run)
      | none => .ok (s, run)
    else
      .ok (s, run)
  else
    .ok (s, run)

namespace KvmIo

/-- The exit for one element alone. -/
def element (io : KvmIo) (i : Nat) : KvmIo :=
  { io with count := 1, dataOffset := io.dataOffset + i * io.size.toNat }

/-- What KVM promises of an exit: a direction, elements of one or two bytes, at least one of
them, all inside the block. -/
structure Valid (io : KvmIo) (run : List UInt8) : Prop where
  direction : io.direction = kvmExitIoOut ∨ io.direction = kvmExitIoIn
  size : io.size = 1 ∨ io.size = 2
  count : 1 ≤ io.count.toNat
  inside : io.dataOffset + io.count.toNat * io.size.toNat ≤ run.length

end KvmIo

/-- One exit for each element, in order. -/
def handleExitIoEach (table : HandlerTable Env State) (env : Env) (io : KvmIo) (run : List UInt8)
    (s : State) : Except Fault (State × List UInt8) :=
  (List.range io.count.toNat).foldlM
    (fun p i => handleExitIo table env (io.element i) p.2 p.1) (s, run)

/-! ## Bytes of the block -/

theorem length_putBytes (block : List UInt8) (offset : Nat) (data : List UInt8) :
    (putBytes block offset data).length = block.length := by
  induction data generalizing block offset with
  | nil => rfl
  | cons b data ih => rw [putBytes, ih, List.length_set]

/-- A byte of the block after a store: the one stored, or the one that was there. -/
theorem getElem?_putBytes (block : List UInt8) {offset : Nat} {data : List UInt8}
    (h : offset + data.length ≤ block.length) (i : Nat) :
    (putBytes block offset data)[i]? =
      if offset ≤ i ∧ i < offset + data.length then data[i - offset]? else block[i]? := by
  induction data generalizing block offset with
  | nil => rw [if_neg (by rw [List.length_nil]; omega), putBytes]
  | cons b data ih =>
      rw [List.length_cons] at h ⊢
      rw [putBytes, ih (block.set offset b) (by rw [List.length_set]; omega)]
      by_cases hi : i = offset
      · subst hi
        rw [if_neg (by omega), if_pos (by omega), List.getElem?_set_self (by omega), Nat.sub_self,
          List.getElem?_cons_zero]
      · rw [List.getElem?_set_ne (Ne.symm hi)]
        by_cases hin : offset + 1 ≤ i ∧ i < offset + 1 + data.length
        · obtain ⟨j, rfl⟩ := Nat.exists_eq_add_of_le hin.1
          rw [if_pos hin, if_pos (by omega), Nat.add_sub_cancel_left, Nat.add_assoc,
            Nat.add_sub_cancel_left, Nat.add_comm 1, List.getElem?_cons_succ]
        · rw [if_neg hin, if_neg (by omega)]

/-- The bytes of the block from an offset on. -/
def Shows (block : List UInt8) (offset : Nat) (data : List UInt8) : Prop :=
  ∀ j, j < data.length → block[offset + j]? = data[j]?

section Block
variable {block data : List UInt8} {offset : Nat}

theorem shows_putBytes (h : offset + data.length ≤ block.length) :
    Shows (putBytes block offset data) offset data := by
  intro j hj
  rw [getElem?_putBytes block h, if_pos (by omega), Nat.add_sub_cancel_left]

/-- A store elsewhere does not change what is shown. -/
theorem shows_putBytes_iff {offset' : Nat} {data' : List UInt8}
    (h : offset' + data'.length ≤ block.length)
    (hapart : offset + data.length ≤ offset' ∨ offset' + data'.length ≤ offset) :
    Shows (putBytes block offset' data') offset data ↔ Shows block offset data := by
  refine forall_congr' fun j => imp_congr_right fun hj => ?_
  rw [getElem?_putBytes block h, if_neg (by omega)]

/-- A store of what is there already changes nothing. -/
theorem putBytes_of_shows (hin : offset + data.length ≤ block.length)
    (h : Shows block offset data) : putBytes block offset data = block := by
  refine List.ext_getElem? fun i => ?_
  rw [getElem?_putBytes block hin]
  split
  · rename_i hi
    obtain ⟨j, rfl⟩ := Nat.exists_eq_add_of_le hi.1
    rw [Nat.add_sub_cancel_left, h j (by omega)]
  · rfl

end Block

/-! ## Elements -/

/-- The bytes that an answer is stored as. -/
def PortAnswer.bytes : PortAnswer → List UInt8
  | .inb (some b) => [b]
  | .inw (some word) => [word.toUInt8, (word >>> 8).toUInt8]
  | _ => []

namespace KvmIo
variable {io : KvmIo} {run : List UInt8} {table : HandlerTable Env State} {env : Env} {s : State}

/-- Where element `i` is. -/
def offset (io : KvmIo) (i : Nat) : Nat := io.dataOffset + i * io.size.toNat

/-- The access that element `i` is. -/
def access (io : KvmIo) (run : List UInt8) (i : Nat) : PortAccess :=
  if io.direction = kvmExitIoOut then
    if io.size = 1 then
      .outb io.port (run[io.offset i]?.getD 0)
    else
      .outw io.port (Bytes.leWord (run[io.offset i]?.getD 0) (run[io.offset i + 1]?.getD 0))
  else if io.size = 1 then
    .inb io.port
  else
    .inw io.port

/-- The block with an answer in element `i`. -/
def put (io : KvmIo) (run : List UInt8) (i : Nat) (answer : PortAnswer) : List UInt8 :=
  putBytes run (io.offset i) answer.bytes

/-- The block with the answers in the elements from `i` on. -/
def putAll (io : KvmIo) (run : List UInt8) (i : Nat) : List PortAnswer → List UInt8
  | [] => run
  | answer :: answers => putAll io (io.put run i answer) (i + 1) answers

/-- The answer fits in an element; that to a write has nothing to store. -/
structure Fits (io : KvmIo) (answer : PortAnswer) : Prop where
  length_le : answer.bytes.length ≤ io.size.toNat
  out : io.direction = kvmExitIoOut → answer.bytes = []

theorem Valid.congr (h : io.Valid run) {run' : List UInt8} (hlen : run'.length = run.length) :
    io.Valid run' := ⟨h.direction, h.size, h.count, by rw [hlen]; exact h.inside⟩

theorem length_put (io : KvmIo) (run : List UInt8) (i : Nat) (answer : PortAnswer) :
    (io.put run i answer).length = run.length := length_putBytes ..

/-- An element is inside the block. -/
theorem Valid.offset_le (h : io.Valid run) {i : Nat} (hi : i < io.count.toNat) :
    io.offset i + io.size.toNat ≤ run.length := by
  have hinside := h.inside
  have hmul : (i + 1) * io.size.toNat ≤ io.count.toNat * io.size.toNat :=
    Nat.mul_le_mul_right _ hi
  rw [Nat.succ_mul] at hmul
  unfold offset
  omega

/-- Different elements do not overlap. -/
theorem offset_apart (io : KvmIo) {i j : Nat} (h : i < j) :
    io.offset i + io.size.toNat ≤ io.offset j := by
  have hmul : (i + 1) * io.size.toNat ≤ j * io.size.toNat := Nat.mul_le_mul_right _ h
  rw [Nat.succ_mul] at hmul
  unfold offset
  omega

/-- **One element is one access**, and the answer is stored where the element is. -/
theorem handleExitIo_element (h : io.Valid run) {i : Nat} (hi : i < io.count.toNat) :
    handleExitIo table env (io.element i) run s =
      (ioHandle table env s (io.access run i) >>= fun r => .ok (r.1, io.put run i r.2)) := by
  have hle := h.offset_le hi
  have hoff : (io.element i).dataOffset = io.offset i := rfl
  have hne : (kvmExitIoIn : UInt8) ≠ kvmExitIoOut := by decide
  have hne' : (2 : UInt8) ≠ 1 := by decide
  rcases h.direction with hd | hd <;> rcases h.size with hs | hs <;>
    simp only [handleExitIo, show (io.element i).direction = io.direction from rfl,
      show (io.element i).size = io.size from rfl, show (io.element i).port = io.port from rfl,
      hoff, access, hd, hs, hne, hne', if_true, if_false, ioHandle]
  · have hload : loadU8 run (io.offset i) = .ok (run[io.offset i]?.getD 0) := by
      rw [hs] at hle
      exact if_pos hle
    rw [hload, ok_bind]
    cases ioHandleOutb table env io.port (run[io.offset i]?.getD 0) s <;> rfl
  · have hload : loadU16 run (io.offset i) =
        .ok (Bytes.leWord (run[io.offset i]?.getD 0) (run[io.offset i + 1]?.getD 0)) := by
      rw [hs] at hle
      exact if_pos hle
    rw [hload, ok_bind]
    cases ioHandleOutw table env io.port _ s <;> rfl
  · cases ioHandleInb table env io.port s with
    | error e => rfl
    | ok r =>
        obtain ⟨s', output⟩ := r
        cases output with
        | none => rfl
        | some b =>
            have hstore : storeU8 run (io.offset i) b = .ok (putBytes run (io.offset i) [b]) := by
              rw [hs] at hle
              exact if_pos hle
            simp only [ok_bind, hstore]
            rfl
  · cases ioHandleInw table env io.port s with
    | error e => rfl
    | ok r =>
        obtain ⟨s', output⟩ := r
        cases output with
        | none => rfl
        | some word =>
            have hstore : storeU16 run (io.offset i) word =
                .ok (putBytes run (io.offset i) [word.toUInt8, (word >>> 8).toUInt8]) := by
              rw [hs] at hle
              exact if_pos hle
            simp only [ok_bind, hstore]
            rfl

/-- What the dispatcher answers fits. -/
theorem fits_of_ioHandle (h : io.Valid run) {i : Nat} {s' : State} {answer : PortAnswer}
    (he : ioHandle table env s (io.access run i) = .ok (s', answer)) : io.Fits answer := by
  have hne : (kvmExitIoIn : UInt8) ≠ kvmExitIoOut := by decide
  have hne' : (2 : UInt8) ≠ 1 := by decide
  rcases h.direction with hd | hd <;> rcases h.size with hs | hs <;>
    simp only [access, hd, hs, hne, hne', if_true, if_false, ioHandle] at he <;>
    obtain ⟨⟨s₁, r⟩, -, he⟩ := bind_eq_ok.mp he <;> cases he
  · exact ⟨Nat.zero_le _, fun _ => rfl⟩
  · exact ⟨Nat.zero_le _, fun _ => rfl⟩
  · refine ⟨?_, fun hc => absurd (hd.symm.trans hc) hne⟩
    rw [hs]
    cases r with
    | none => exact Nat.zero_le _
    | some b => exact Nat.le_refl 1
  · refine ⟨?_, fun hc => absurd (hd.symm.trans hc) hne⟩
    rw [hs]
    cases r with
    | none => exact Nat.zero_le _
    | some word => exact Nat.le_refl 2

/-- Storing an answer does not change what the accesses are: a write stores nothing, and a
read does not depend on the block. -/
theorem access_put {answer : PortAnswer} (hf : io.Fits answer) (i : Nat) :
    io.access (io.put run i answer) = io.access run := by
  funext j
  by_cases hd : io.direction = kvmExitIoOut
  · rw [put, hf.out hd, putBytes]
  · simp only [access, if_neg hd]

/-- The elements one by one are the accesses one by one. -/
theorem each_eq (h : io.Valid run) {k m : Nat} (hkm : k + m ≤ io.count.toNat) :
    (List.range' k m).foldlM
        (fun p i => handleExitIo table env (io.element i) p.2 p.1) (s, run) =
      match Runs.trace (ioHandle table env) s ((List.range' k m).map (io.access run)) with
      | .error e => .error e
      | .ok (s', answers) => .ok (s', io.putAll run k answers) := by
  induction m generalizing k s run with
  | zero => rfl
  | succ m ih =>
      rw [List.range'_succ, List.foldlM_cons, handleExitIo_element h (by omega), List.map_cons]
      simp only [Runs.trace]
      cases he : ioHandle table env s (io.access run k) with
      | error e => rfl
      | ok r =>
          obtain ⟨s₁, answer⟩ := r
          have hf := fits_of_ioHandle h he
          simp only [ok_bind]
          rw [ih (h.congr (length_put ..)) (by omega), access_put hf]
          cases Runs.trace (ioHandle table env) s₁
              ((List.range' (k + 1) m).map (io.access run)) with
          | error e => rfl
          | ok r => rfl

/-- Answers to accesses of the exit, as many as there are accesses, that all fit. -/
theorem fits_of_trace (h : io.Valid run) {k m : Nat} (hkm : k + m ≤ io.count.toNat) {s' : State}
    {answers : List PortAnswer}
    (ht : Runs.trace (ioHandle table env) s ((List.range' k m).map (io.access run)) =
      .ok (s', answers)) : answers.length = m ∧ ∀ a ∈ answers, io.Fits a := by
  induction m generalizing k s answers with
  | zero =>
      cases ht
      exact ⟨rfl, fun a ha => absurd ha List.not_mem_nil⟩
  | succ m ih =>
      rw [List.range'_succ, List.map_cons] at ht
      obtain ⟨s₁, a, answers', he, ht', rfl⟩ := Runs.trace_cons_eq_ok ht
      obtain ⟨hlen, hfits⟩ := ih (by omega) ht'
      refine ⟨congrArg (· + 1) hlen, fun a' ha' => ?_⟩
      rcases List.mem_cons.mp ha' with rfl | hmem
      · exact fits_of_ioHandle h he
      · exact hfits a' hmem

/-- Answers stored in other elements do not change what an element shows. -/
theorem shows_put_iff (h : io.Valid run) {i j : Nat} (hi : i < io.count.toNat) (hij : i ≠ j)
    {answer : PortAnswer} (hf : io.Fits answer) {data : List UInt8}
    (hdata : data.length ≤ io.size.toNat) :
    Shows (io.put run i answer) (io.offset j) data ↔ Shows run (io.offset j) data := by
  have hin := h.offset_le hi
  have hlen := hf.length_le
  refine shows_putBytes_iff (by omega) ?_
  rcases Nat.lt_or_gt_of_ne hij with hlt | hgt
  · have hapart := offset_apart io hlt
    omega
  · have hapart := offset_apart io hgt
    omega

theorem shows_putAll_iff (h : io.Valid run) {k j : Nat} (hjk : j < k) {answers : List PortAnswer}
    (hk : k + answers.length ≤ io.count.toNat) (hf : ∀ a ∈ answers, io.Fits a)
    {data : List UInt8} (hdata : data.length ≤ io.size.toNat) :
    Shows (io.putAll run k answers) (io.offset j) data ↔ Shows run (io.offset j) data := by
  induction answers generalizing run k with
  | nil => exact Iff.rfl
  | cons a answers ih =>
      rw [List.length_cons] at hk
      rw [putAll, ih (h.congr (length_put ..)) (by omega) (by omega)
        fun a' ha' => hf a' (List.mem_cons_of_mem _ ha')]
      exact shows_put_iff h (by omega) (by omega) (hf a List.mem_cons_self) hdata

/-- **Stores that change nothing.**  Storing answers one element after the other leaves the
block as it is exactly when each element has its answer already. -/
theorem putAll_eq_self_iff (h : io.Valid run) {k : Nat} {answers : List PortAnswer}
    (hk : k + answers.length ≤ io.count.toNat) (hf : ∀ a ∈ answers, io.Fits a) :
    io.putAll run k answers = run ↔
      ∀ i a, answers[i]? = some a → Shows run (io.offset (k + i)) a.bytes := by
  induction answers generalizing k with
  | nil => exact ⟨(fun _ _ _ ha => nomatch ha), fun _ => rfl⟩
  | cons a answers ih =>
      rw [List.length_cons] at hk
      have hfa := hf a List.mem_cons_self
      have hfs : ∀ a' ∈ answers, io.Fits a' := fun a' ha' => hf a' (List.mem_cons_of_mem _ ha')
      have hin : io.offset k + a.bytes.length ≤ run.length :=
        Nat.le_trans (Nat.add_le_add_left hfa.length_le _) (h.offset_le (by omega))
      constructor
      · intro he
        -- the later stores leave element `k` alone, so it has its answer in `run` already
        have hshow : Shows run (io.offset k) a.bytes := by
          rw [← he, putAll, shows_putAll_iff (h.congr (length_put ..)) (Nat.lt_succ_self k)
            (by omega) hfs hfa.length_le]
          exact shows_putBytes hin
        rw [putAll, show io.put run k a = run from putBytes_of_shows hin hshow,
          ih (by omega) hfs] at he
        rintro (_ | i) a' ha'
        · cases ha'
          exact hshow
        · rw [← Nat.add_assoc, Nat.add_right_comm]
          exact he i a' ha'
      · intro hall
        rw [putAll, show io.put run k a = run from putBytes_of_shows hin (hall 0 a rfl),
          ih (by omega) hfs]
        intro i a' ha'
        rw [Nat.add_right_comm]
        exact hall (i + 1) a' ha'

/-- The handler of the exit's width is registered at its port. -/
def Registered (io : KvmIo) (table : HandlerTable Env State) : Prop :=
  if io.direction = kvmExitIoOut then
    if io.size = 1 then (table io.port).outbHandler.isSome else (table io.port).outwHandler.isSome
  else if io.size = 1 then
    (table io.port).inbHandler.isSome
  else
    (table io.port).inwHandler.isSome

/-- The elements after the first, handed to the handler in the state that the first leaves,
leave that state as it is, and the answers are in the block already. -/
def RestQuiet (io : KvmIo) (table : HandlerTable Env State) (env : Env) (run : List UInt8)
    (s : State) : Prop :=
  ∀ s₁ answer, ioHandle table env s (io.access run 0) = .ok (s₁, answer) →
    ∃ answers, Runs.trace (ioHandle table env) s₁
        ((List.range' 1 (io.count.toNat - 1)).map (io.access run)) = .ok (s₁, answers) ∧
      ∀ i a, answers[i]? = some a → Shows run (io.offset (i + 1)) a.bytes

/-- The exit is handled as its first element. -/
theorem handleExitIo_eq_first (h : io.Valid run) :
    handleExitIo table env io run s =
      (ioHandle table env s (io.access run 0) >>= fun r => .ok (r.1, io.put run 0 r.2)) := by
  rw [← handleExitIo_element h h.count]
  have hoff : (io.element 0).dataOffset = io.dataOffset := by
    show io.dataOffset + 0 * io.size.toNat = _
    rw [Nat.zero_mul, Nat.add_zero]
  unfold handleExitIo
  rw [hoff]
  rfl

/-- For one device, in one state: the exit is the sequence of its elements exactly when the
elements after the first do nothing. -/
theorem handleExitIo_eq_each_iff (h : io.Valid run) :
    handleExitIo table env io run s = handleExitIoEach table env io run s ↔
      io.RestQuiet table env run s := by
  obtain ⟨m, hm⟩ := Nat.exists_eq_add_of_le' h.count
  rw [handleExitIo_eq_first h, handleExitIoEach, List.range_eq_range', hm, List.range'_succ,
    List.foldlM_cons, handleExitIo_element h h.count]
  unfold RestQuiet
  rw [hm, Nat.add_sub_cancel]
  cases he : ioHandle table env s (io.access run 0) with
  | error e => exact ⟨(fun _ _ _ ho => nomatch ho), fun _ => rfl⟩
  | ok r =>
      obtain ⟨s₁, answer⟩ := r
      have hf := fits_of_ioHandle h he
      simp only [ok_bind]
      rw [each_eq (h.congr (length_put ..)) (by omega), access_put hf]
      have hput : ∀ {answers}, answers.length = m → (∀ a ∈ answers, io.Fits a) →
          (io.putAll (io.put run 0 answer) 1 answers = io.put run 0 answer ↔
            ∀ i a, answers[i]? = some a → Shows run (io.offset (i + 1)) a.bytes) := by
        intro answers hlen hfits
        rw [putAll_eq_self_iff (h.congr (length_put ..)) (by omega) hfits]
        refine forall_congr' fun i => forall_congr' fun a => imp_congr_right fun ha => ?_
        rw [Nat.add_comm 1 i]
        exact shows_put_iff h (by omega) (by omega) hf (hfits a (List.mem_of_getElem? ha)).length_le
      constructor
      · intro heq s₂ answer₂ ho
        cases ho
        cases ht : Runs.trace (ioHandle table env) s₁ ((List.range' 1 m).map (io.access run)) with
        | error e =>
            rw [ht] at heq
            cases heq
        | ok q =>
            obtain ⟨s₂, answers⟩ := q
            rw [ht] at heq
            obtain ⟨hlen, hfits⟩ := fits_of_trace h (by omega) ht
            obtain ⟨rfl, hall⟩ := Prod.mk.inj (Except.ok.inj heq)
            exact ⟨answers, rfl, (hput hlen hfits).mp hall.symm⟩
      · intro hquiet
        obtain ⟨answers, ht, hall⟩ := hquiet s₁ answer rfl
        obtain ⟨hlen, hfits⟩ := fits_of_trace h (by omega) ht
        rw [ht]
        simp only [Nat.zero_add, (hput hlen hfits).mpr hall]

end KvmIo

/-! ## A device that counts -/

/-- A handler whose functions count their calls. -/
def countingHandler : Handler Unit Nat where
  outbHandler := some fun _ _ _ _ n => .ok (n + 1)
  outwHandler := some fun _ _ _ _ n => .ok (n + 1)
  inbHandler := some fun _ _ _ n => .ok (0, n + 1)
  inwHandler := some fun _ _ _ n => .ok (0, n + 1)

theorem counting_ioHandle {a : PortAccess} (ha : a.port ≠ 0xFFFF) (n : Nat) :
    ∃ answer, ioHandle (fun _ => countingHandler) () n a = .ok (n + 1, answer) := by
  have hat : HandlerTable.at (fun _ => countingHandler) a.port = .ok countingHandler :=
    HandlerTable.at_ok ha
  cases a with
  | outb port data =>
      refine ⟨.out true, ?_⟩
      simp only [ioHandle, ioHandleOutb, show HandlerTable.at _ port = _ from hat]
      rfl
  | outw port data =>
      refine ⟨.out true, ?_⟩
      simp only [ioHandle, ioHandleOutw, show HandlerTable.at _ port = _ from hat]
      rfl
  | inb port =>
      refine ⟨.inb (some 0), ?_⟩
      simp only [ioHandle, ioHandleInb, show HandlerTable.at _ port = _ from hat]
      rfl
  | inw port =>
      refine ⟨.inw (some 0), ?_⟩
      simp only [ioHandle, ioHandleInw, show HandlerTable.at _ port = _ from hat]
      rfl

/-- The count after a run of accesses is the number of them. -/
theorem counting_trace {as : List PortAccess} (has : ∀ a ∈ as, a.port ≠ 0xFFFF) {n n' : Nat}
    {answers : List PortAnswer}
    (h : Runs.trace (ioHandle (fun _ => countingHandler) ()) n as = .ok (n', answers)) :
    n' = n + as.length := by
  induction as generalizing n answers with
  | nil =>
      cases h
      rfl
  | cons a as ih =>
      obtain ⟨n₁, answer, answers', he, hrest, -⟩ := Runs.trace_cons_eq_ok h
      obtain ⟨answer', he'⟩ := counting_ioHandle (has a List.mem_cons_self) n
      rw [he] at he'
      cases he'
      rw [ih (fun a' ha' => has a' (List.mem_cons_of_mem _ ha')) hrest, List.length_cons]
      omega

theorem KvmIo.access_port (io : KvmIo) (run : List UInt8) (i : Nat) :
    (io.access run i).port = io.port := by
  unfold access
  split
  · split <;> rfl
  · split <;> rfl

/-- **Only the first element of an exit is handled.**  An exit at a port that has an entry is
what its elements are one by one

* for every device registered there, in every state, exactly when it has one element, and
* for one device in one state exactly when, after the first element, the others would leave
  the device as it is and get the answers that are in the block already. -/
theorem handle_exit_io_each_iff {io : KvmIo} {run : List UInt8} (h : io.Valid run)
    (hport : io.port ≠ 0xFFFF) :
    ((∀ (Env State : Type) (table : HandlerTable Env State) (env : Env) (s : State),
        io.Registered table →
        handleExitIo table env io run s = handleExitIoEach table env io run s) ↔ io.count = 1) ∧
    ∀ (Env State : Type) (table : HandlerTable Env State) (env : Env) (s : State),
      handleExitIo table env io run s = handleExitIoEach table env io run s ↔
        io.RestQuiet table env run s := by
  refine ⟨⟨fun hall => ?_, fun hone => ?_⟩, fun _ _ _ _ _ => KvmIo.handleExitIo_eq_each_iff h⟩
  · -- the device that counts its calls sees every element
    have hreg : io.Registered (fun _ => countingHandler) := by
      unfold KvmIo.Registered
      split
      · split <;> rfl
      · split <;> rfl
    have hquiet := KvmIo.handleExitIo_eq_each_iff h |>.mp (hall Unit Nat _ () 0 hreg)
    have haccess : ∀ i, (io.access run i).port ≠ 0xFFFF := by
      intro i
      rwa [io.access_port]
    obtain ⟨answer, he⟩ := counting_ioHandle (haccess 0) 0
    obtain ⟨answers, ht, -⟩ := hquiet _ _ he
    have hcount := counting_trace (fun a ha => by
      obtain ⟨i, -, rfl⟩ := List.mem_map.mp ha
      exact haccess i) ht
    rw [List.length_map, List.length_range'] at hcount
    have hpos := h.count
    apply UInt32.toNat_inj.mp
    show io.count.toNat = 1
    omega
  · intro Env State table env s _
    refine (KvmIo.handleExitIo_eq_each_iff h).mpr ?_
    refine fun s₁ answer _ => ⟨[], ?_, fun _ _ ha => nomatch ha⟩
    rw [hone]
    rfl

/-- Two words read from the data port of the disk. -/
def insw : KvmIo :=
  { direction := kvmExitIoIn, size := 2, port := 0x1F0, count := 2, dataOffset := 0 }

theorem handle_exit_io_each_iff_insw :
    ((∀ (Env State : Type) (table : HandlerTable Env State) (env : Env) (s : State),
        insw.Registered table →
        handleExitIo table env insw [1, 1, 1, 1] s =
          handleExitIoEach table env insw [1, 1, 1, 1] s) ↔ insw.count = 1) ∧
    ∀ (Env State : Type) (table : HandlerTable Env State) (env : Env) (s : State),
      handleExitIo table env insw [1, 1, 1, 1] s =
          handleExitIoEach table env insw [1, 1, 1, 1] s ↔
        insw.RestQuiet table env [1, 1, 1, 1] s :=
  handle_exit_io_each_iff ⟨Or.inr rfl, Or.inr rfl, by decide, by decide⟩ (by decide)

/-- The second word is not read: the guest finds its own bytes there, and the disk goes on
with it next. -/
theorem handle_exit_io_drops :
    let disk : Disk := fun _ _ => []
    insw.Valid [1, 1, 1, 1] ∧ insw.Registered (atapiTable 3) ∧
      (∃ s, handleExitIo (atapiTable 3) disk insw [1, 1, 1, 1] Atapi.start =
        .ok (s, [0, 0, 1, 1]) ∧ s.byteSent = 2) ∧
      ∃ s, handleExitIoEach (atapiTable 3) disk insw [1, 1, 1, 1] Atapi.start =
        .ok (s, [0, 0, 0, 0]) ∧ s.byteSent = 4 := by
  intro disk
  have hreg : (atapiTable 3 0x1F0).inwHandler.isSome = true := rfl
  refine ⟨⟨Or.inr rfl, Or.inr rfl, by decide, by decide⟩, hreg, ?_, ?_⟩
  · exact ⟨_, rfl, rfl⟩
  · exact ⟨_, rfl, rfl⟩

end BlackHV
