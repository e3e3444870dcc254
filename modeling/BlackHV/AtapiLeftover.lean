import BlackHV.AtapiPhases
import BlackHV.AtapiRead

/-! # What a command tells of the commands before it

The buffer of the block is never cleared: a READ(12) overwrites as many bytes of it as
the disk delivers, and a packet with any other op code overwrites none, but both are
answered as if the block were theirs.  Two histories that leave the device idle are
told apart by a command exactly where their buffers differ in a byte that the command
leaves as it is and the guest reads.
-/
namespace BlackHV

namespace Atapi

/-- The answers to a command's packet and its reads where the words are those of `block`. -/
def delivery (block : Vector UInt8 cdBlockSz) (words : Nat) : List PortAnswer :=
  (List.range 6).map (fun _ => .out true) ++
    (.inb (some packetDataTransmit) ::
      (List.range words).map (fun j => .inw (some (blockWord block j))))

/-- How many bytes of the block a packet overwrites. -/
def overwritten (disk : Disk) (diskFd : Int32) (p : ScsiPacket) : Nat :=
  if p.opCode = read12 then (disk diskFd (p.lba * UInt32.ofNat cdBlockSz)).length else 0

section Run
variable {disk : Disk} {diskFd : Int32} {c : ReadCommand} {s : Atapi}

/-- A command delivers the block as the packet leaves it. -/
theorem command_runs (disk : Disk) (diskFd : Int32) (hs : s.Idle)
    (hsent : c.packet.opCode = read12 ∨ s.byteSent = 0) :
    ∃ s', Runs.trace (ioHandle (atapiTable diskFd) disk) s c.request =
        .ok (s', delivery (blockAfter disk diskFd c.packet s.toSend) c.words) ∧
      Sending (blockAfter disk diskFd c.packet s.toSend) c.words s' := by
  obtain ⟨s₁, ht₁, h₁, hblock₁, hsent₁⟩ := received_packet disk diskFd hs c.packet
  rw [← hsent₁] at hsent
  obtain ⟨s₂, he₂, h₂, -⟩ := sending_start h₁ hsent
  rw [hblock₁] at h₂
  obtain ⟨s₃, ht₃, h₃⟩ := Runs.trace_range (n := c.words)
    (fun j s _ h => sending_word disk diskFd j s h) h₂
  rw [List.map_const', List.length_range] at ht₃
  exact ⟨s₃, Runs.trace_append_ok ht₁ (Runs.trace_cons_ok he₂ ht₃), h₃⟩

/-- The trace of some accesses is a history. -/
theorem run_of_trace {accesses : List PortAccess} {s' : Atapi} {answers : List PortAnswer}
    (h : Runs.trace (ioHandle (atapiTable diskFd) disk) s accesses = .ok (s', answers)) :
    Runs.run (step (atapiTable diskFd)) s (accesses.map (disk, ·)) = .ok s' :=
  Runs.run_of_trace (step_eq_answer _) ((Runs.trace_map _).trans h)

/-- A command that is read from and completed leaves the device idle, with its block in
the buffer. -/
theorem command_leaves (disk : Disk) (diskFd : Int32) (hs : s.Idle)
    (hsent : c.packet.opCode = read12 ∨ s.byteSent = 0) (hw : 0 < c.words) :
    ∃ s', Runs.run (step (atapiTable diskFd)) s (c.accesses.map (disk, ·)) = .ok s' ∧
      s'.Idle ∧ s'.toSend = blockAfter disk diskFd c.packet s.toSend := by
  obtain ⟨s₁, ht₁, h₁⟩ := command_runs disk diskFd hs hsent
  obtain ⟨s₂, he₂, hidle, hblock⟩ := sending_end disk diskFd hw h₁
  refine ⟨s₂, ?_, hidle, hblock⟩
  rw [c.accesses_eq]
  exact run_of_trace (Runs.trace_append_ok ht₁ (Runs.trace_cons_ok he₂ rfl))

end Run

/-! ## Two buffers -/

section Two
variable {block₁ block₂ : Vector UInt8 cdBlockSz}

/-- A packet leaves two buffers with the same byte where it overwrites it, and where
they had the same before. -/
theorem blockAfter_eq_iff (disk : Disk) (diskFd : Int32) (p : ScsiPacket) (i : Nat)
    (hi : i < cdBlockSz) :
    (blockAfter disk diskFd p block₁)[i] = (blockAfter disk diskFd p block₂)[i] ↔
      i < overwritten disk diskFd p ∨ block₁[i] = block₂[i] := by
  unfold blockAfter overwritten
  by_cases hop : p.opCode = read12
  · simp only [if_pos hop, stored, Vector.getElem_ofFn]
    by_cases hlt : i < (disk diskFd (p.lba * UInt32.ofNat cdBlockSz)).length
    · simp [hlt]
    · simp [hlt]
  · simp [if_neg hop]

/-- A word is its two bytes, as far as the block goes. -/
theorem blockWord_eq_iff {j : Nat} :
    blockWord block₁ j = blockWord block₂ j ↔
      (∀ _ : 2 * j < cdBlockSz, block₁[2 * j] = block₂[2 * j]) ∧
        ∀ _ : 2 * j + 1 < cdBlockSz, block₁[2 * j + 1] = block₂[2 * j + 1] := by
  have hbyte : ∀ i, block₁[i]?.getD 0 = block₂[i]?.getD 0 ↔
      ∀ _ : i < cdBlockSz, block₁[i] = block₂[i] := by
    intro i
    by_cases hi : i < cdBlockSz
    · rw [Vector.getElem?_eq_getElem hi, Vector.getElem?_eq_getElem hi]
      exact ⟨fun h _ => h, fun h => h hi⟩
    · have hge := Nat.le_of_not_lt hi
      rw [Vector.getElem?_eq_none hge, Vector.getElem?_eq_none hge]
      exact ⟨fun _ h => absurd h hi, fun _ => rfl⟩
  rw [blockWord, blockWord, Bytes.leWord_inj, hbyte, hbyte]

/-- Two deliveries are the same exactly where the bytes read are. -/
theorem delivery_eq_iff {words : Nat} :
    delivery block₁ words = delivery block₂ words ↔
      ∀ i (_ : i < cdBlockSz), i < 2 * words → block₁[i] = block₂[i] := by
  have hwords : delivery block₁ words = delivery block₂ words ↔
      ∀ j, j < words → blockWord block₁ j = blockWord block₂ j := by
    rw [delivery, delivery, List.append_cancel_left_eq, List.cons.injEq, List.map_inj_left]
    simp
  simp only [hwords, blockWord_eq_iff]
  rw [Bytes.forall_words_iff (P := fun i => ∀ _ : i < cdBlockSz, block₁[i] = block₂[i])]
  exact ⟨fun h i hi hread => h i hread hi, fun h i hread hi => h i hi hread⟩

/-- Two idle devices answer a command alike exactly when their buffers agree on the bytes
that it does not overwrite and the guest reads. -/
theorem command_agree_iff {s₁ s₂ : Atapi} (diskFd : Int32) (hi₁ : s₁.Idle) (hi₂ : s₂.Idle)
    (hsent₁ : s₁.byteSent = 0) (hsent₂ : s₂.byteSent = 0) (disk : Disk) (c : ReadCommand) :
    (∃ t₁ t₂ answers,
        Runs.trace (ioHandle (atapiTable diskFd) disk) s₁ c.request = .ok (t₁, answers) ∧
        Runs.trace (ioHandle (atapiTable diskFd) disk) s₂ c.request = .ok (t₂, answers)) ↔
      ∀ i (_ : i < cdBlockSz), overwritten disk diskFd c.packet ≤ i → i < 2 * c.words →
        s₁.toSend[i] = s₂.toSend[i] := by
  obtain ⟨t₁, ht₁, -⟩ := command_runs disk diskFd (c := c) hi₁ (Or.inr hsent₁)
  obtain ⟨t₂, ht₂, -⟩ := command_runs disk diskFd (c := c) hi₂ (Or.inr hsent₂)
  have hsame : (∃ t₁ t₂ answers,
        Runs.trace (ioHandle (atapiTable diskFd) disk) s₁ c.request = .ok (t₁, answers) ∧
        Runs.trace (ioHandle (atapiTable diskFd) disk) s₂ c.request = .ok (t₂, answers)) ↔
      delivery (blockAfter disk diskFd c.packet s₁.toSend) c.words =
        delivery (blockAfter disk diskFd c.packet s₂.toSend) c.words := by
    constructor
    · rintro ⟨u₁, u₂, answers, hu₁, hu₂⟩
      rw [ht₁] at hu₁
      rw [ht₂] at hu₂
      have h₁ := (Prod.mk.inj (Except.ok.inj hu₁)).2
      have h₂ := (Prod.mk.inj (Except.ok.inj hu₂)).2
      exact h₁.trans h₂.symm
    · intro h
      rw [← h] at ht₂
      exact ⟨t₁, t₂, _, ht₁, ht₂⟩
  rw [hsame, delivery_eq_iff]
  constructor
  · intro h i hi hkept hread
    rcases (blockAfter_eq_iff disk diskFd c.packet i hi).mp (h i hi hread) with hlt | heq
    · omega
    · exact heq
  · intro h i hi hread
    rw [blockAfter_eq_iff]
    by_cases hlt : i < overwritten disk diskFd c.packet
    · exact Or.inl hlt
    · exact Or.inr (h i hi (Nat.le_of_not_lt hlt) hread)

end Two

end Atapi

/-- **What a command tells of the commands before it.**  After any two histories that
leave the device idle, the same packet of any kind, a read of the interrupt reason and
any number of reads of data are answered alike exactly when the two buffers agree on the bytes
that the packet does not overwrite and the guest reads.  A READ(12) that the disk
delivers in full overwrites all of them; any other op code overwrites none. -/
theorem atapi_histories_agree_iff {diskFd : Int32} {table : HandlerTable Disk Atapi}
    (ht : atapiInit HandlerTable.zero diskFd = .ok table)
    {history₁ history₂ : List (Disk × PortAccess)} {s₁ s₂ : Atapi}
    (hr₁ : Runs.run (Atapi.step table) Atapi.start history₁ = .ok s₁)
    (hr₂ : Runs.run (Atapi.step table) Atapi.start history₂ = .ok s₂)
    (hi₁ : s₁.Idle) (hi₂ : s₂.Idle) (disk : Disk) (c : ReadCommand) :
    (∃ t₁ t₂ answers,
        Runs.trace (ioHandle table disk) s₁ c.request = .ok (t₁, answers) ∧
        Runs.trace (ioHandle table disk) s₂ c.request = .ok (t₂, answers)) ↔
      ∀ i (_ : i < cdBlockSz), Atapi.overwritten disk diskFd c.packet ≤ i → i < 2 * c.words →
        s₁.toSend[i] = s₂.toSend[i] := by
  rw [atapiInit_zero] at ht
  cases ht
  -- with no transfer open, both histories leave the offset at the start of the block
  have hsent₁ := (Atapi.flagged_of_run hr₁).byteSent_zero hi₁.sending
  have hsent₂ := (Atapi.flagged_of_run hr₂).byteSent_zero hi₂.sending
  exact Atapi.command_agree_iff diskFd hi₁ hi₂ hsent₁ hsent₂ disk c

/-- A fresh device, and one that has delivered a word of a block and completed the
command; a READ(12) that the disk delivers in full, and all of it read. -/
theorem atapi_histories_agree_full :
    let disk : Disk := fun _ _ => List.replicate cdBlockSz 7
    let read : ScsiPacket := #v[0xA8, 0, 0, 0, 0, 0, 0, 0, 0, 1, 0, 0]
    let first : ReadCommand := ⟨read, 1⟩
    let second : ReadCommand := ⟨read, 1024⟩
    ∃ s, Runs.run (Atapi.step (atapiTable 3)) Atapi.start (first.accesses.map (disk, ·)) = .ok s ∧
      ∃ t₁ t₂ answers,
        Runs.trace (ioHandle (atapiTable 3) disk) Atapi.start second.request =
            .ok (t₁, answers) ∧
          Runs.trace (ioHandle (atapiTable 3) disk) s second.request = .ok (t₂, answers) := by
  intro disk read first second
  have hstart : Atapi.start.Idle := ⟨rfl, rfl, rfl, rfl⟩
  obtain ⟨s, hrun, hidle, -⟩ := Atapi.command_leaves disk 3 (c := first) hstart
    (Or.inl rfl) Nat.one_pos
  have hnil : Runs.run (Atapi.step (atapiTable 3)) Atapi.start [] = .ok Atapi.start := rfl
  refine ⟨s, hrun, (atapi_histories_agree_iff (atapiInit_zero 3) hnil hrun hstart hidle disk
    second).mpr fun i hi hkept => ?_⟩
  have hall : Atapi.overwritten disk 3 read = cdBlockSz := by
    rw [Atapi.overwritten, if_pos (show read.opCode = read12 from rfl), List.length_replicate]
  rw [show second.packet = read from rfl, hall] at hkept
  omega

/-- The same two devices; a packet with no op code, and one word read. -/
theorem atapi_histories_agree_stale :
    let disk : Disk := fun _ _ => List.replicate cdBlockSz 7
    let read : ScsiPacket := #v[0xA8, 0, 0, 0, 0, 0, 0, 0, 0, 1, 0, 0]
    let first : ReadCommand := ⟨read, 1⟩
    let second : ReadCommand := ⟨Vector.replicate _ 0, 1⟩
    ∃ s, Runs.run (Atapi.step (atapiTable 3)) Atapi.start (first.accesses.map (disk, ·)) = .ok s ∧
      Atapi.start.Idle ∧ s.Idle ∧
      ¬ ∃ t₁ t₂ answers,
        Runs.trace (ioHandle (atapiTable 3) disk) Atapi.start second.request =
            .ok (t₁, answers) ∧
          Runs.trace (ioHandle (atapiTable 3) disk) s second.request = .ok (t₂, answers) := by
  intro disk read first second
  have hstart : Atapi.start.Idle := ⟨rfl, rfl, rfl, rfl⟩
  obtain ⟨s, hrun, hidle, hblock⟩ := Atapi.command_leaves disk 3 (c := first) hstart
    (Or.inl rfl) Nat.one_pos
  refine ⟨s, hrun, hstart, hidle, fun hagree => ?_⟩
  have hsent := (Atapi.flagged_of_run hrun).byteSent_zero hidle.sending
  -- the packet overwrites nothing, so the word comes out of the two buffers
  have hbyte := (Atapi.command_agree_iff 3 hstart hidle rfl hsent disk second).mp hagree 0
    (by decide) (Nat.le_refl 0) (by decide)
  have hseven : s.toSend[0] = 7 := by
    simp only [hblock, Atapi.blockAfter, show first.packet.opCode = read12 from rfl, if_true,
      stored, Vector.getElem_ofFn]
    rfl
  rw [hseven] at hbyte
  exact absurd hbyte (by decide)

end BlackHV
