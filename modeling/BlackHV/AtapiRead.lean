import BlackHV.AtapiBounds
import BlackHV.Bytes

/-! # READ(12) commands deliver their blocks

A guest reads the disk in commands: six words that form the packet, a read of the
interrupt reason that runs it, some words of the block, and a read of the interrupt
reason that ends it.  Each phase of a command has a relation that says what the
device has done of it, a step lemma and, by induction over the words, a run lemma;
`atapi_read12_runs` chains them over any number of commands, with accesses to the
other registers in between.
-/
namespace BlackHV

/-- A guest's command, READ(12) where it is `Valid`: its packet, and how many words it
reads. -/
structure ReadCommand where
  packet : ScsiPacket
  words : Nat

namespace ReadCommand

/-- The block the packet asks for: four bytes, the high byte first. -/
def lba (c : ReadCommand) : Nat :=
  Bytes.be32 c.packet.lbaHi c.packet.lbaMihi c.packet.lbaMilo c.packet.lbaLo

/-- The packet is a READ(12) of a block inside the image, and at least one word is
read. -/
structure Valid (c : ReadCommand) (image : List UInt8) : Prop where
  op_code : c.packet.opCode = read12
  in_range : (c.lba + 1) * cdBlockSz ≤ image.length
  words_pos : 1 ≤ c.words

/-- Word `i` of a packet, as the guest writes it. -/
def packetWord (p : ScsiPacket) (i : Nat) : UInt16 :=
  Bytes.leWord (p[2 * i]?.getD 0) (p[2 * i + 1]?.getD 0)

/-- The accesses a command is made of. -/
def accesses (c : ReadCommand) : List PortAccess :=
  (List.range 6).map (fun i => .outw (ataRegData primaryReg) (packetWord c.packet i)) ++
    (.inb (ataRegSectorCount primaryReg) ::
      (List.replicate c.words (.inw (ataRegData primaryReg)) ++
        [.inb (ataRegSectorCount primaryReg)]))

/-- Its accesses up to the last word of data. -/
def request (c : ReadCommand) : List PortAccess :=
  (List.range 6).map (fun i => .outw (ataRegData primaryReg) (packetWord c.packet i)) ++
    (.inb (ataRegSectorCount primaryReg) :: List.replicate c.words (.inw (ataRegData primaryReg)))

theorem accesses_eq (c : ReadCommand) :
    c.accesses = c.request ++ [.inb (ataRegSectorCount primaryReg)] := by
  rw [accesses, request, List.append_assoc, List.cons_append]

/-- Word `j` of a command's data: little-endian in the block, and 0 past its end. -/
def dataWord (c : ReadCommand) (image : List UInt8) (j : Nat) : UInt16 :=
  if j < cdBlockSz / 2 then
    Bytes.leWord (image[c.lba * cdBlockSz + 2 * j]?.getD 0)
      (image[c.lba * cdBlockSz + 2 * j + 1]?.getD 0)
  else
    0

/-- The answers a command should get. -/
def answers (c : ReadCommand) (image : List UInt8) : List PortAnswer :=
  (List.range 6).map (fun _ => .out true) ++
    (.inb (some packetDataTransmit) ::
      ((List.range c.words).map (fun j => .inw (some (c.dataWord image j))) ++
        [.inb (some packetCommandComplete)]))

/-- The answers to `request`. -/
def delivered (c : ReadCommand) (image : List UInt8) : List PortAnswer :=
  (List.range 6).map (fun _ => .out true) ++
    (.inb (some packetDataTransmit) ::
      (List.range c.words).map (fun j => .inw (some (c.dataWord image j))))

theorem answers_eq (c : ReadCommand) (image : List UInt8) :
    c.answers image = c.delivered image ++ [.inb (some packetCommandComplete)] := by
  rw [answers, delivered, List.append_assoc, List.cons_append]

end ReadCommand

/-- The six words that are a packet. -/
def ScsiPacket.words (p : ScsiPacket) : List PortAccess :=
  (List.range 6).map fun i => .outw (ataRegData primaryReg) (ReadCommand.packetWord p i)

/-- The accesses that may stand anywhere in a run: reads of the signature and status
registers, of a byte or a word, and byte writes to registers other than the drive register. -/
def interposed : PortAccess → Bool
  | .inb port | .inw port => port ∈ [ataRegLbaLo primaryReg, ataRegLbaMi primaryReg,
      ataRegLbaHi primaryReg, ataRegStatus primaryReg]
  | .outb port _ => port ∈ [ataRegFeatures primaryReg, ataRegSectorCount primaryReg,
      ataRegLbaLo primaryReg, ataRegLbaMi primaryReg, ataRegLbaHi primaryReg,
      ataRegStatus primaryReg, primaryDcr]
  | _ => false

/-- Reading a block that lies inside the image delivers all of it. -/
def Delivers (disk : Disk) (diskFd : Int32) (image : List UInt8) : Prop :=
  ∀ offset : UInt32, offset.toNat + cdBlockSz ≤ image.length →
    disk diskFd offset = (image.drop offset.toNat).take cdBlockSz

namespace Atapi

/-- The device waits for a command, with the master selected. -/
structure Idle (s : Atapi) : Prop where
  selected : s.selectedDrive = ataPortMaster
  byteRead : s.byteRead = 0
  receiving : s.receiving = false
  sending : s.sending = false

/-! ## Accesses through the table -/

section Dispatch
variable {disk : Disk} {diskFd : Int32} {s : Atapi}

/-- An interposed access leaves the device as it is. -/
theorem handle_interposed {a : PortAccess} (ha : interposed a = true) :
    ∃ answer, ioHandle (atapiTable diskFd) disk s a = .ok (s, answer) := by
  have hquiet : a.port ≠ 0xFFFF ∧ acts a = false := by
    cases a with
    | outw port data => cases ha
    | inw port =>
        simp only [interposed, List.mem_cons, List.not_mem_nil, or_false, decide_eq_true_eq] at ha
        rcases ha with rfl | rfl | rfl | rfl <;> exact ⟨by decide, rfl⟩
    | outb port data =>
        simp only [interposed, List.mem_cons, List.not_mem_nil, or_false, decide_eq_true_eq] at ha
        rcases ha with rfl | rfl | rfl | rfl | rfl | rfl | rfl <;>
          exact ⟨by simp only [PortAccess.port]; decide, rfl⟩
    | inb port =>
        simp only [interposed, List.mem_cons, List.not_mem_nil, or_false, decide_eq_true_eq] at ha
        rcases ha with rfl | rfl | rfl | rfl <;> exact ⟨by decide, rfl⟩
  obtain ⟨answer, h⟩ := handle_other diskFd hquiet.1 hquiet.2 s
  exact ⟨answer, h disk s rfl⟩

end Dispatch

/-! ## The packet -/

section Packet
variable {disk : Disk} {diskFd : Int32} {c : ReadCommand}

/-- The first `i` words of a packet have been received. -/
structure Received (p : ScsiPacket) (i : Nat) (s : Atapi) : Prop where
  selected : s.selectedDrive = ataPortMaster
  byteRead : s.byteRead.toNat = 2 * i
  packet : ∀ k (hk : k < packetSz), k < 2 * i → s.currPkt[k] = p[k]
  receiving : 0 < i → s.receiving = true
  sending : s.sending = false

/-- The first `i` words of a packet have been stored in a device that was `s` before; only
the packet has changed. -/
structure Storing (p : ScsiPacket) (s : Atapi) (i : Nat) (s' : Atapi) : Prop where
  byteRead : s'.byteRead.toNat = 2 * i
  packet : ∀ k (hk : k < packetSz), k < 2 * i → s'.currPkt[k] = p[k]
  receiving : 0 < i → s'.receiving = true
  rest : s' = { s with
    currPkt := s'.currPkt, byteRead := s'.byteRead, receiving := s'.receiving }

/-- One word of the packet. -/
theorem storing_word {p : ScsiPacket} {s : Atapi} (i : Nat) (s₁ : Atapi) (hi : i < 6)
    (h : Storing p s i s₁) :
    ∃ s', ioHandle (atapiTable diskFd) disk s₁
        (.outw (ataRegData primaryReg) (ReadCommand.packetWord p i)) = .ok (s', .out true) ∧
      Storing p s (i + 1) s' := by
  have hread := h.byteRead
  have hroom : s₁.byteRead.toNat + 2 ≤ packetSz := by
    rw [hread]
    show 2 * i + 2 ≤ 12
    omega
  have hlo : 2 * i < packetSz := by omega
  have hhi : 2 * i + 1 < packetSz := by omega
  refine ⟨_, handle_outw_data (dataOutw_ok hroom disk _ _ _), ?_, ?_, fun _ => rfl, ?_⟩
  · have hadd := add_two (by decide) hroom
    show (s₁.byteRead + 2).toNat = 2 * (i + 1)
    omega
  · intro k hk hlt
    simp only [hread, ReadCommand.packetWord, Vector.getElem?_eq_getElem hlo,
      Vector.getElem?_eq_getElem hhi, Option.getD_some, Bytes.low_leWord, Bytes.high_leWord,
      Vector.getElem_set]
    -- the two bytes just stored, and those of the words before
    by_cases h₁ : 2 * i + 1 = k
    · subst h₁
      rw [if_pos rfl]
    · by_cases h₀ : 2 * i = k
      · subst h₀
        rw [if_neg h₁, if_pos rfl]
      · rw [if_neg h₁, if_neg h₀]
        exact h.packet k hk (by omega)
  · have hrest := h.rest
    rw [Atapi.mk.injEq] at hrest ⊢
    exact ⟨hrest.1, rfl, rfl, hrest.2.2.2.1, hrest.2.2.2.2.1, rfl, hrest.2.2.2.2.2.2⟩

/-- **Six words are the packet**, whatever else the device has open. -/
theorem packet_stored (disk : Disk) (diskFd : Int32) {s : Atapi} (hs : s.byteRead = 0)
    (p : ScsiPacket) :
    Runs.trace (ioHandle (atapiTable diskFd) disk) s ((List.range 6).map fun i =>
        .outw (ataRegData primaryReg) (ReadCommand.packetWord p i)) =
      .ok ({ s with currPkt := p, byteRead := UInt32.ofNat packetSz, receiving := true },
        (List.range 6).map fun _ => .out true) := by
  have hnone : Storing p s 0 s := by
    refine ⟨?_, ?_, ?_, rfl⟩
    · rw [hs]
      rfl
    · intro k _ hk
      omega
    · intro hk
      omega
  obtain ⟨s', ht, h⟩ := Runs.trace_range (R := Storing p s) (fun i s₁ => storing_word i s₁) hnone
  have hpkt : s'.currPkt = p := Vector.ext fun k hk => h.packet k hk hk
  have hread : s'.byteRead = UInt32.ofNat packetSz := UInt32.toNat_inj.mp h.byteRead
  rw [ht, h.rest, hpkt, hread, h.receiving (by decide)]

/-- All six of them.  The block and the offset into it stay as they are. -/
theorem received_packet (disk : Disk) (diskFd : Int32) {s : Atapi} (hs : s.Idle) (p : ScsiPacket) :
    ∃ s', Runs.trace (ioHandle (atapiTable diskFd) disk) s ((List.range 6).map fun i =>
        .outw (ataRegData primaryReg) (ReadCommand.packetWord p i)) =
          .ok (s', (List.range 6).map fun _ => .out true) ∧
      Received p 6 s' ∧ s'.toSend = s.toSend ∧ s'.byteSent = s.byteSent :=
  ⟨_, packet_stored disk diskFd hs.byteRead p,
    ⟨hs.selected, rfl, fun _ _ _ => rfl, fun _ => rfl, hs.sending⟩, rfl, rfl⟩

end Packet

/-! ## The block -/

section Block
variable {disk : Disk} {diskFd : Int32} {c : ReadCommand} {image : List UInt8}

/-- The block of a command is in the buffer, and `j` words have been read. -/
structure Transmitting (c : ReadCommand) (image : List UInt8) (j : Nat) (s : Atapi) : Prop where
  selected : s.selectedDrive = ataPortMaster
  byteRead : s.byteRead = 0
  receiving : s.receiving = false
  block : ∀ k (hk : k < cdBlockSz), s.toSend[k] = image[c.lba * cdBlockSz + k]?.getD 0
  byteSent : s.byteSent.toNat = min (2 * j) cdBlockSz
  sending : 0 < j → s.sending = true

/-- The block after a packet has run on it. -/
def blockAfter (disk : Disk) (diskFd : Int32) (p : ScsiPacket) (block : Vector UInt8 cdBlockSz) :
    Vector UInt8 cdBlockSz :=
  if p.opCode = read12 then stored block (disk diskFd (p.lba * UInt32.ofNat cdBlockSz)) else block

/-- Word `j` of a block, and 0 past its end. -/
def blockWord (block : Vector UInt8 cdBlockSz) (j : Nat) : UInt16 :=
  Bytes.leWord (block[2 * j]?.getD 0) (block[2 * j + 1]?.getD 0)

/-- `j` words of `block` have been read. -/
structure Sending (block : Vector UInt8 cdBlockSz) (j : Nat) (s : Atapi) : Prop where
  selected : s.selectedDrive = ataPortMaster
  byteRead : s.byteRead = 0
  receiving : s.receiving = false
  toSend : s.toSend = block
  byteSent : s.byteSent.toNat = min (2 * j) cdBlockSz
  sending : 0 < j → s.sending = true

/-- The read of the interrupt reason runs the packet.  A READ(12) takes the offset back
to the start of the block; any other packet needs it to be there. -/
theorem sending_start {p : ScsiPacket} {s : Atapi} (h : Received p 6 s)
    (hsent : p.opCode = read12 ∨ s.byteSent = 0) :
    ∃ s', ioHandle (atapiTable diskFd) disk s (.inb (ataRegSectorCount primaryReg)) =
        .ok (s', .inb (some packetDataTransmit)) ∧
      Sending (blockAfter disk diskFd p s.toSend) 0 s' ∧ s'.sending = false := by
  have hpkt : s.currPkt = p := Vector.ext fun k hk => h.packet k hk hk
  have hrun : signatureInb disk (ataRegSectorCount primaryReg) diskFd.toInt64.toUInt64 s =
      .ok (packetDataTransmit,
        { handleScsiPacket disk diskFd s with byteRead := 0, receiving := false }) := by
    rw [signatureInb, if_neg (not_not_intro h.selected), if_pos rfl, Bytes.int32_roundtrip,
      h.sending, h.receiving (by decide)]
    rfl
  refine ⟨_, handle_inb_sectorCount hrun, ?_⟩
  rw [handleScsiPacket, hpkt, blockAfter]
  by_cases hop : p.opCode = read12
  · rw [if_neg (not_not_intro hop), if_pos hop]
    exact ⟨⟨h.selected, rfl, rfl, rfl, rfl, fun hj => absurd hj (Nat.lt_irrefl 0)⟩, h.sending⟩
  · rw [if_pos hop, if_neg hop]
    refine ⟨⟨h.selected, rfl, rfl, rfl, ?_, fun hj => absurd hj (Nat.lt_irrefl 0)⟩, h.sending⟩
    rw [hsent.resolve_left hop]
    rfl

/-- One word of the data. -/
theorem sending_word (disk : Disk) (diskFd : Int32) {block : Vector UInt8 cdBlockSz} (j : Nat)
    (s : Atapi) (h : Sending block j s) :
    ∃ s', ioHandle (atapiTable diskFd) disk s (.inw (ataRegData primaryReg)) =
        .ok (s', .inw (some (blockWord block j))) ∧ Sending block (j + 1) s' := by
  have hsent := h.byteSent
  have hblock := h.toSend
  subst hblock
  -- the block has 1024 words; after them `byte_sent` stays where it is
  by_cases hj : j < cdBlockSz / 2
  · have hat : s.byteSent.toNat = 2 * j := by omega
    have hleft : s.byteSent.toNat + 2 ≤ cdBlockSz := by omega
    have hword := dataInw_ok hleft disk (ataRegData primaryReg) 0
    simp only [Bytes.leWord_eq_or, hat] at hword
    rw [blockWord, Vector.getElem?_eq_getElem (by omega), Vector.getElem?_eq_getElem (by omega)]
    refine ⟨_, handle_inw_data hword, h.selected, h.byteRead, h.receiving, rfl, ?_, fun _ => rfl⟩
    have hadd := add_two (by decide) hleft
    show (s.byteSent + 2).toNat = _
    omega
  · simp only [cdBlockSz] at hj hsent
    have hend : cdBlockSz ≤ s.byteSent.toNat := by
      simp only [cdBlockSz]
      omega
    rw [blockWord, Vector.getElem?_eq_none (by simp only [cdBlockSz]; omega),
      Vector.getElem?_eq_none (by simp only [cdBlockSz]; omega)]
    refine ⟨_, handle_inw_data (dataInw_end hend disk _ 0), h.selected, h.byteRead, h.receiving,
      rfl, ?_, fun _ => h.sending (by omega)⟩
    simp only [cdBlockSz]
    omega

/-- Where a block holds the command's, reading the one is reading the other. -/
theorem Sending.toTransmitting {block : Vector UInt8 cdBlockSz} {j : Nat} {s : Atapi}
    (h : Sending block j s)
    (hb : ∀ k (hk : k < cdBlockSz), block[k] = image[c.lba * cdBlockSz + k]?.getD 0) :
    Transmitting c image j s := by
  have hblock := h.toSend
  subst hblock
  exact ⟨h.selected, h.byteRead, h.receiving, hb, h.byteSent, h.sending⟩

theorem Transmitting.toSending {j : Nat} {s : Atapi} (h : Transmitting c image j s) :
    Sending s.toSend j s :=
  ⟨h.selected, h.byteRead, h.receiving, rfl, h.byteSent, h.sending⟩

/-- The words read from such a block are the command's. -/
theorem Transmitting.blockWord_eq {j : Nat} {s : Atapi} (h : Transmitting c image j s) (i : Nat) :
    blockWord s.toSend i = c.dataWord image i := by
  rw [blockWord, ReadCommand.dataWord]
  split
  · rw [Vector.getElem?_eq_getElem (by omega), Vector.getElem?_eq_getElem (by omega)]
    simp only [Option.getD_some, h.block, ← Nat.add_assoc]
  · rw [Vector.getElem?_eq_none (by simp only [cdBlockSz] at *; omega),
      Vector.getElem?_eq_none (by simp only [cdBlockSz] at *; omega)]
    rfl

/-- The offset of the block, computed in 32 bits, does not wrap. -/
theorem offset_toNat (hoff : c.lba * cdBlockSz < 2 ^ 32) :
    (c.packet.lba * UInt32.ofNat cdBlockSz).toNat = c.lba * cdBlockSz := by
  have hlba : c.packet.lba.toNat = c.lba := Bytes.be32_eq_or _ _ _ _
  rw [UInt32.toNat_mul, hlba]
  exact Nat.mod_eq_of_lt hoff

/-- The read of the interrupt reason runs the packet. -/
theorem transmitting_start (hd : Delivers disk diskFd image) (hoff : c.lba * cdBlockSz < 2 ^ 32)
    (hc : c.Valid image) {s : Atapi} (h : Received c.packet 6 s) :
    ∃ s', ioHandle (atapiTable diskFd) disk s (.inb (ataRegSectorCount primaryReg)) =
        .ok (s', .inb (some packetDataTransmit)) ∧ Transmitting c image 0 s' := by
  obtain ⟨s', he, h', -⟩ := sending_start h (Or.inl hc.op_code)
  refine ⟨s', he, h'.toTransmitting fun k hk => ?_⟩
  have hrange : c.lba * cdBlockSz + cdBlockSz ≤ image.length := by
    have := hc.in_range
    rwa [Nat.succ_mul] at this
  have hin : c.lba * cdBlockSz + k < image.length := by omega
  have hread : disk diskFd (c.packet.lba * UInt32.ofNat cdBlockSz) =
      (image.drop (c.lba * cdBlockSz)).take cdBlockSz := by
    rw [hd _ (by rw [offset_toNat hoff]; exact hrange), offset_toNat hoff]
  simp only [blockAfter, hc.op_code, if_true, stored, Vector.getElem_ofFn, hread,
    List.getElem?_take_of_lt hk, List.getElem?_drop, List.getElem?_eq_getElem hin,
    Option.getD_some]

/-- One word of the data. -/
theorem transmitting_word (disk : Disk) (diskFd : Int32) (j : Nat) (s : Atapi)
    (h : Transmitting c image j s) :
    ∃ s', ioHandle (atapiTable diskFd) disk s (.inw (ataRegData primaryReg)) =
        .ok (s', .inw (some (c.dataWord image j))) ∧ Transmitting c image (j + 1) s' := by
  obtain ⟨s', he, h'⟩ := sending_word disk diskFd j s h.toSending
  rw [h.blockWord_eq] at he
  exact ⟨s', he, h'.toTransmitting h.block⟩

/-- The read of the interrupt reason ends the command.  The block stays in the buffer. -/
theorem sending_end (disk : Disk) (diskFd : Int32) {block : Vector UInt8 cdBlockSz} {j : Nat}
    (hj : 0 < j) {s : Atapi} (h : Sending block j s) :
    ∃ s', ioHandle (atapiTable diskFd) disk s (.inb (ataRegSectorCount primaryReg)) =
        .ok (s', .inb (some packetCommandComplete)) ∧ s'.Idle ∧ s'.toSend = block := by
  have hrun : signatureInb disk (ataRegSectorCount primaryReg) diskFd.toInt64.toUInt64 s =
      .ok (packetCommandComplete, { s with byteSent := 0, sending := false }) := by
    rw [signatureInb, if_neg (not_not_intro h.selected), if_pos rfl, h.sending hj]
    rfl
  exact ⟨_, handle_inb_sectorCount hrun, ⟨h.selected, h.byteRead, h.receiving, rfl⟩, h.toSend⟩

end Block

/-! ## Commands -/

/-- A command's packet, and its words. -/
theorem idle_request {disk : Disk} {diskFd : Int32} {image : List UInt8}
    (hd : Delivers disk diskFd image) {c : ReadCommand} (hoff : c.lba * cdBlockSz < 2 ^ 32)
    (hc : c.Valid image) {s : Atapi} (hs : s.Idle) :
    ∃ s', Runs.trace (ioHandle (atapiTable diskFd) disk) s c.request =
        .ok (s', c.delivered image) ∧ Transmitting c image c.words s' := by
  obtain ⟨s₁, ht₁, h₁, -⟩ := received_packet disk diskFd hs c.packet
  obtain ⟨s₂, he₂, h₂⟩ := transmitting_start hd hoff hc h₁
  obtain ⟨s₃, ht₃, h₃⟩ := Runs.trace_range (n := c.words)
    (fun j s _ h => transmitting_word disk diskFd j s h) h₂
  rw [List.map_const', List.length_range] at ht₃
  exact ⟨s₃, Runs.trace_append_ok ht₁ (Runs.trace_cons_ok he₂ ht₃), h₃⟩

/-- One command, from idle to idle. -/
theorem idle_command {disk : Disk} {diskFd : Int32} {image : List UInt8}
    (hd : Delivers disk diskFd image) (hlen : image.length ≤ 2 ^ 32) {c : ReadCommand}
    (hc : c.Valid image) {s : Atapi} (hs : s.Idle) :
    ∃ s', Runs.trace (ioHandle (atapiTable diskFd) disk) s c.accesses =
        .ok (s', c.answers image) ∧ s'.Idle := by
  have hoff : c.lba * cdBlockSz < 2 ^ 32 := by
    have hrange := hc.in_range
    simp only [cdBlockSz] at *
    omega
  obtain ⟨s₁, ht₁, h₁⟩ := idle_request hd hoff hc hs
  obtain ⟨s₂, he₂, h₂, -⟩ := sending_end disk diskFd hc.words_pos h₁.toSending
  refine ⟨s₂, ?_, h₂⟩
  rw [c.accesses_eq, c.answers_eq]
  exact Runs.trace_append_ok ht₁ (Runs.trace_cons_ok he₂ rfl)

end Atapi

/-- **Every READ(12) delivers its block, whatever came before it.**  In a run of any
number of commands, with interposed accesses anywhere, each command is answered in
full: its packet runs, its words are those of the block it asks for, its last read
completes it.  The device ends as it started, so this holds after each command as
well as after the last. -/
theorem atapi_read12_runs {disk : Disk} {diskFd : Int32} {image : List UInt8}
    {table : HandlerTable Disk Atapi} (ht : atapiInit HandlerTable.zero diskFd = .ok table)
    (hd : Delivers disk diskFd image) (hlen : image.length ≤ 2 ^ 32)
    {cmds : List ReadCommand} (hcmds : ∀ c ∈ cmds, c.Valid image) {accesses : List PortAccess}
    (hrun : accesses.filter (!interposed ·) = cmds.flatMap ReadCommand.accesses)
    {s : Atapi} (hs : s.Idle) :
    ∃ s' answers, Runs.trace (ioHandle table disk) s accesses = .ok (s', answers) ∧
      ((accesses.zip answers).filter (!interposed ·.1)).map Prod.snd =
        cmds.flatMap (ReadCommand.answers · image) ∧
      s'.Idle := by
  rw [atapiInit_zero] at ht
  cases ht
  have hround : ∀ c ∈ cmds, ∀ s : Atapi, s.Idle →
      ∃ s', Runs.trace (ioHandle (atapiTable diskFd) disk) s c.accesses =
        .ok (s', c.answers image) ∧ s'.Idle :=
    fun c hc s hs => Atapi.idle_command hd hlen (hcmds c hc) hs
  obtain ⟨s', htrace, hs'⟩ := Runs.trace_flatMap hround hs
  rw [← hrun] at htrace
  have hquiet : ∀ s a, interposed a = true →
      ∃ answer, ioHandle (atapiTable diskFd) disk s a = .ok (s, answer) :=
    fun _ _ ha => Atapi.handle_interposed ha
  obtain ⟨answers, hall, hanswers⟩ := Runs.trace_of_filter hquiet htrace
  exact ⟨s', answers, hall, hanswers, hs'⟩

/-- Two commands for the only block of an image, and reads of a byte and of a word from other
registers before each word of data. -/
theorem atapi_read12_runs_two :
    let image := List.replicate cdBlockSz (7 : UInt8)
    let disk : Disk := fun _ offset => (image.drop offset.toNat).take cdBlockSz
    let packet : ScsiPacket := #v[0xA8, 0, 0, 0, 0, 0, 0, 0, 0, 1, 0, 0]
    let cmds : List ReadCommand := [⟨packet, 2⟩, ⟨packet, 1⟩]
    let accesses := cmds.flatMap fun c => c.accesses.flatMap fun a =>
      if a = .inw 0x1F0 then [.inb 0x1F7, .inw 0x1F4, a] else [a]
    ∃ s' answers, Runs.trace (ioHandle (atapiTable 3) disk) Atapi.start accesses =
        .ok (s', answers) ∧
      ((accesses.zip answers).filter (!interposed ·.1)).map Prod.snd =
        cmds.flatMap (ReadCommand.answers · image) ∧
      s'.Idle := by
  intro image disk packet cmds accesses
  have hvalid : ∀ c ∈ cmds, c.Valid image := by
    intro c hc
    have hlba : c.packet = packet := by
      simp only [cmds, List.mem_cons, List.not_mem_nil, or_false] at hc
      rcases hc with rfl | rfl <;> rfl
    refine ⟨by rw [hlba]; rfl, ?_, ?_⟩
    · rw [ReadCommand.lba, hlba, List.length_replicate]
      decide
    · simp only [cmds, List.mem_cons, List.not_mem_nil, or_false] at hc
      rcases hc with rfl | rfl <;> decide
  refine atapi_read12_runs (atapiInit_zero 3) (fun _ _ => rfl) ?_ hvalid ?_ ⟨rfl, rfl, rfl, rfl⟩
  · rw [List.length_replicate]
    decide
  · decide

end BlackHV
