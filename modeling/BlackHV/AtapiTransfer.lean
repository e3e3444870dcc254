import BlackHV.AtapiRead

/-! # The transfer length

A READ(12) asks for a number of blocks, its transfer length, in four bytes of the packet.
The device never looks at them: a packet reads one block into the buffer, the words after
it are 0, and the command is complete when the guest, having read a word at least, reads
the interrupt reason.
-/
namespace BlackHV

namespace ScsiPacket

def transferLengthHi (p : ScsiPacket) : UInt8 := p[6]
def transferLengthMihi (p : ScsiPacket) : UInt8 := p[7]
def transferLengthMilo (p : ScsiPacket) : UInt8 := p[8]
def transferLengthLo (p : ScsiPacket) : UInt8 := p[9]

/-- How many blocks the packet asks for. -/
def transferLength (p : ScsiPacket) : Nat :=
  Bytes.be32 p.transferLengthHi p.transferLengthMihi p.transferLengthMilo p.transferLengthLo

end ScsiPacket

namespace ReadCommand

/-- Word `j` of the image from the block asked for on. -/
def imageWord (c : ReadCommand) (image : List UInt8) (j : Nat) : UInt16 :=
  Bytes.leWord (image[c.lba * cdBlockSz + 2 * j]?.getD 0)
    (image[c.lba * cdBlockSz + 2 * j + 1]?.getD 0)

/-- The answers to `request` if all blocks that are asked for were transferred. -/
def requested (c : ReadCommand) (image : List UInt8) : List PortAnswer :=
  (List.range 6).map (fun _ => .out true) ++
    (.inb (some packetDataTransmit) ::
      (List.range c.words).map (fun j => .inw (some (c.imageWord image j))))

/-- The answer to the last access of a command: complete, where a word has been read. -/
def lastReason (c : ReadCommand) : UInt8 :=
  if c.words = 0 then atapiSigSc else packetCommandComplete

variable {c : ReadCommand} {image : List UInt8}

/-- What is delivered is what was requested exactly where the words after the first block
are 0. -/
theorem delivered_eq_iff : c.delivered image = c.requested image ↔
    ∀ j, cdBlockSz / 2 ≤ j → j < c.words → c.imageWord image j = 0 := by
  have hwords : c.delivered image = c.requested image ↔
      ∀ j, j < c.words → c.dataWord image j = c.imageWord image j := by
    rw [delivered, requested, List.append_cancel_left_eq, List.cons.injEq, List.map_inj_left]
    simp
  rw [hwords]
  constructor
  · intro h j hblock hj
    rw [← h j hj, dataWord, if_neg (Nat.not_lt.mpr hblock)]
  · intro h j hj
    by_cases hblock : j < cdBlockSz / 2
    · rw [dataWord, if_pos hblock, imageWord]
    · rw [dataWord, if_neg hblock, h j (Nat.not_lt.mp hblock) hj]

/-- In bytes. -/
theorem imageWord_zero_iff {blocks : Nat} (hwords : c.words = blocks * (cdBlockSz / 2))
    (hrange : (c.lba + blocks) * cdBlockSz ≤ image.length) :
    (∀ j, cdBlockSz / 2 ≤ j → j < c.words → c.imageWord image j = 0) ↔
      ∀ i, cdBlockSz ≤ i → i < blocks * cdBlockSz → image[c.lba * cdBlockSz + i]? = some 0 := by
  have hbyte : ∀ i, i < blocks * cdBlockSz →
      (image[c.lba * cdBlockSz + i]?.getD 0 = 0 ↔ image[c.lba * cdBlockSz + i]? = some 0) := by
    intro i hi
    rw [Nat.add_mul] at hrange
    rw [List.getElem?_eq_getElem (by omega), Option.getD_some, Option.some_inj]
  have hword : ∀ j, c.imageWord image j = 0 ↔ image[c.lba * cdBlockSz + 2 * j]?.getD 0 = 0 ∧
      image[c.lba * cdBlockSz + (2 * j + 1)]?.getD 0 = 0 := by
    intro j
    rw [imageWord, show (0 : UInt16) = Bytes.leWord 0 0 from rfl, Bytes.leWord_inj, Nat.add_assoc]
  have hsize : 2 * c.words = blocks * cdBlockSz := by
    rw [hwords]
    simp only [cdBlockSz]
    omega
  have hbytes := Bytes.forall_words_iff (n := c.words)
    (P := fun i => cdBlockSz ≤ i → image[c.lba * cdBlockSz + i]?.getD 0 = 0)
  rw [hsize] at hbytes
  constructor
  · intro h i hblock hi
    refine (hbyte i hi).mp (hbytes.mp (fun j hj => ?_) i hi hblock)
    by_cases hfirst : cdBlockSz / 2 ≤ j
    · obtain ⟨hlo, hhi⟩ := (hword j).mp (h j hfirst hj)
      exact ⟨fun _ => hlo, fun _ => hhi⟩
    · -- a word of the first block
      simp only [cdBlockSz] at *
      exact ⟨fun _ => by omega, fun _ => by omega⟩
  · intro h j hblock hj
    obtain ⟨hlo, hhi⟩ := hbytes.mpr (fun i hi hblock => (hbyte i hi).mpr (h i hblock hi)) j hj
    simp only [cdBlockSz] at *
    exact (hword j).mpr ⟨hlo (by omega), hhi (by omega)⟩

end ReadCommand

namespace Atapi
variable {disk : Disk} {diskFd : Int32} {c : ReadCommand} {image : List UInt8} {s : Atapi}

/-- A command of no words: the packet is run, and nothing is completed. -/
theorem idle_command_none (disk : Disk) (diskFd : Int32) (hop : c.packet.opCode = read12)
    (hwords : c.words = 0) (hs : s.Idle) :
    ∃ s', Runs.trace (ioHandle (atapiTable diskFd) disk) s c.accesses =
        .ok (s', c.delivered image ++ [.inb (some atapiSigSc)]) ∧ s'.Idle := by
  obtain ⟨s₁, ht₁, h₁, -⟩ := received_packet disk diskFd hs c.packet
  obtain ⟨s₂, he₂, h₂, hsend⟩ := sending_start h₁ (Or.inl hop)
  have hrun : signatureInb disk (ataRegSectorCount primaryReg) diskFd.toInt64.toUInt64 s₂ =
      .ok (atapiSigSc, s₂) := by
    rw [signatureInb, if_neg (not_not_intro h₂.selected), if_pos rfl, hsend, h₂.receiving]
    rfl
  refine ⟨s₂, ?_, h₂.selected, h₂.byteRead, h₂.receiving, hsend⟩
  rw [ReadCommand.accesses, ReadCommand.delivered, hwords, List.append_assoc]
  exact Runs.trace_append_ok ht₁
    (Runs.trace_cons_ok he₂ (Runs.trace_cons_ok (handle_inb_sectorCount hrun) rfl))

end Atapi

/-- **One block, whatever the transfer length.**  A READ(12) of a block inside the image, sent
to an idle device, delivers the words of that block and then words 0, however many the guest
reads and however many blocks the packet asks for; the next read of the interrupt reason
completes the command if a word has been read.  A guest that reads all the blocks it asked
for is given them exactly when every byte after the first block is 0. -/
theorem atapi_read12_one_block {disk : Disk} {diskFd : Int32} {image : List UInt8}
    {table : HandlerTable Disk Atapi} (ht : atapiInit HandlerTable.zero diskFd = .ok table)
    (hd : Delivers disk diskFd image) (hlen : image.length ≤ 2 ^ 32) {c : ReadCommand}
    (hop : c.packet.opCode = read12) (hin : (c.lba + 1) * cdBlockSz ≤ image.length) {s : Atapi}
    (hs : s.Idle) :
    (∃ s', Runs.trace (ioHandle table disk) s c.accesses =
        .ok (s', c.delivered image ++ [.inb (some c.lastReason)]) ∧ s'.Idle) ∧
      (c.words = c.packet.transferLength * (cdBlockSz / 2) →
        (c.lba + c.packet.transferLength) * cdBlockSz ≤ image.length →
        (c.delivered image = c.requested image ↔
          ∀ i, cdBlockSz ≤ i → i < c.packet.transferLength * cdBlockSz →
            image[c.lba * cdBlockSz + i]? = some 0)) := by
  rw [atapiInit_zero] at ht
  cases ht
  refine ⟨?_, fun hwords hrange => ReadCommand.delivered_eq_iff.trans
    (ReadCommand.imageWord_zero_iff hwords hrange)⟩
  by_cases hwords : c.words = 0
  · rw [ReadCommand.lastReason, if_pos hwords]
    exact Atapi.idle_command_none disk diskFd hop hwords hs
  · rw [ReadCommand.lastReason, if_neg hwords, ← ReadCommand.answers_eq]
    exact Atapi.idle_command hd hlen ⟨hop, hin, Nat.pos_of_ne_zero hwords⟩ hs

/-- A packet for one block, read in full. -/
theorem atapi_read12_one_block_one :
    let image := List.replicate cdBlockSz (7 : UInt8)
    let disk : Disk := fun _ offset => (image.drop offset.toNat).take cdBlockSz
    let c : ReadCommand := ⟨#v[0xA8, 0, 0, 0, 0, 0, 0, 0, 0, 1, 0, 0], 1024⟩
    (∃ s', Runs.trace (ioHandle (atapiTable 3) disk) Atapi.start c.accesses =
        .ok (s', c.delivered image ++ [.inb (some c.lastReason)]) ∧ s'.Idle) ∧
      (c.delivered image = c.requested image ↔
        ∀ i, cdBlockSz ≤ i → i < c.packet.transferLength * cdBlockSz →
          image[c.lba * cdBlockSz + i]? = some 0) := by
  intro image disk c
  have hlen : image.length = cdBlockSz := List.length_replicate
  have hd : Delivers disk 3 image := fun _ _ => rfl
  have hone := atapi_read12_one_block (atapiInit_zero 3) hd (by rw [hlen]; decide) (c := c) rfl
    (by rw [hlen]; decide) (s := Atapi.start) ⟨rfl, rfl, rfl, rfl⟩
  exact ⟨hone.1, hone.2 (by decide) (by rw [hlen]; decide)⟩

/-- A packet for two blocks, the second of bytes 9: the words of the second are 0. -/
theorem atapi_read12_two_blocks :
    let image := List.replicate cdBlockSz (7 : UInt8) ++ List.replicate cdBlockSz 9
    let disk : Disk := fun _ offset => (image.drop offset.toNat).take cdBlockSz
    let c : ReadCommand := ⟨#v[0xA8, 0, 0, 0, 0, 0, 0, 0, 0, 2, 0, 0], 2048⟩
    c.packet.opCode = read12 ∧ c.packet.transferLength = 2 ∧ c.lba = 0 ∧
      Delivers disk 3 image ∧ image.length = 2 * cdBlockSz ∧
      ∃ s', Runs.trace (ioHandle (atapiTable 3) disk) Atapi.start c.accesses =
          .ok (s', c.delivered image ++ [.inb (some packetCommandComplete)]) ∧
        c.delivered image ≠ c.requested image ∧
        c.dataWord image 1024 = 0 ∧ c.imageWord image 1024 = 0x0909 := by
  intro image disk c
  have hlen : image.length = 2 * cdBlockSz := by
    rw [List.length_append, List.length_replicate, List.length_replicate, Nat.two_mul]
  have hlba : c.lba = 0 := by decide
  have hword : c.imageWord image 1024 = 0x0909 := by
    rw [ReadCommand.imageWord, hlba]
    decide +kernel
  have hd : Delivers disk 3 image := fun _ _ => rfl
  obtain ⟨s', htrace, -⟩ := Atapi.idle_command hd (by rw [hlen]; decide) (c := c)
    ⟨rfl, by rw [hlen, hlba]; decide, by decide⟩ (s := Atapi.start) ⟨rfl, rfl, rfl, rfl⟩
  rw [c.answers_eq] at htrace
  refine ⟨rfl, by decide, hlba, hd, hlen, s', htrace, fun h => ?_, rfl, hword⟩
  -- the first word of the second block is not 0
  have hzero := ReadCommand.delivered_eq_iff.mp h 1024 (by decide) (by decide)
  rw [hword] at hzero
  exact absurd hzero (by decide)

end BlackHV
