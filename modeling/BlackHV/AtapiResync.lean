import BlackHV.AtapiPhases
import BlackHV.AtapiRead

/-! # Starting a command anew

A guest starts a command by selecting the drive and writing `PACKET` to the command
register.  The device ignores the write: whether the six words that follow form the
packet depends on what is still open from before.  With nothing open they do, after any
history.  What is open is closed by reading the interrupt reason: the first read ends a
transfer, the next one runs a packet, and after the two of them nothing is open.
-/
namespace BlackHV

/-- The command `PACKET`. -/
def ataCommandPacket : UInt8 := 0xA0

def ataRegCommand (port : UInt16) : UInt16 := port + 7

namespace ReadCommand

/-- The accesses of a guest that starts a command anew. -/
def newRequest (c : ReadCommand) : List PortAccess :=
  .outb (ataRegDrive primaryReg) ataPortMaster ::
    .outb (ataRegCommand primaryReg) ataCommandPacket :: c.request

/-- The answers that deliver the command. -/
def newDelivered (c : ReadCommand) (image : List UInt8) : List PortAnswer :=
  .out true :: .out true :: c.delivered image

end ReadCommand

namespace Atapi

section Closing
variable {disk : Disk} {diskFd : Int32} {s : Atapi}

theorem handle_outb_drive (data : UInt8) :
    ioHandle (atapiTable diskFd) disk s (.outb (ataRegDrive primaryReg) data) =
      .ok ({ s with selectedDrive := data }, .out true) := rfl

/-- Commands are ignored. -/
theorem handle_outb_command (data : UInt8) :
    ioHandle (atapiTable diskFd) disk s (.outb (ataRegCommand primaryReg) data) =
      .ok (s, .out true) := rfl

/-- With nothing open the device waits for a command. -/
theorem Flagged.idle (h : s.Flagged) (hsel : s.selectedDrive = ataPortMaster)
    (hread : s.byteRead = 0) (hsend : s.sending = false) : s.Idle := by
  refine ⟨hsel, hread, ?_, hsend⟩
  rw [Bool.eq_false_iff]
  intro hr
  exact h.receiving_iff.mp hr hread

/-- A read of the interrupt reason ends a transfer; with none open it leaves no packet
open either. -/
theorem read_closes (disk : Disk) (diskFd : Int32) (h : s.Flagged)
    (hsel : s.selectedDrive = ataPortMaster) :
    ∃ reason s', ioHandle (atapiTable diskFd) disk s (.inb (ataRegSectorCount primaryReg)) =
        .ok (s', .inb (some reason)) ∧ s'.Flagged ∧ s'.selectedDrive = ataPortMaster ∧
      s'.sending = false ∧ (s.sending = false → s'.byteRead = 0) := by
  obtain ⟨reason, s', he, hcases⟩ := signatureInb_cases disk (ataRegSectorCount primaryReg)
    diskFd.toInt64.toUInt64 s
  have hs' := flagged_signatureInb h he
  refine ⟨reason, s', handle_inb_sectorCount he, hs', ?_⟩
  rcases hcases with ⟨rfl, hnone⟩ | ⟨-, hsend, -, rfl⟩ | ⟨-, hsend, -, -, rfl⟩
  · obtain ⟨hsend, hreceive⟩ := hnone hsel rfl
    refine ⟨hsel, hsend, fun _ => not_not.mp fun hread => ?_⟩
    rw [hs'.receiving_iff.mpr hread] at hreceive
    cases hreceive
  · refine ⟨hsel, rfl, fun hno => ?_⟩
    rw [hsend] at hno
    cases hno
  · obtain ⟨hselected, hkeep, -⟩ := handleScsiPacket_keeps disk
      diskFd.toInt64.toUInt64.toUInt32.toInt32 s
    exact ⟨hselected.trans hsel, hkeep.trans hsend, fun _ => rfl⟩

/-- Accesses whose first `n` answers are not those of `answers` are not answered so. -/
theorem not_answered {accesses : List PortAccess} {answers : List PortAnswer} (n : Nat)
    (h : okAnd (Runs.trace (ioHandle (atapiTable diskFd) disk) s (accesses.take n))
      (fun r => r.2 != answers.take n) = true) :
    ¬ ∃ s', Runs.trace (ioHandle (atapiTable diskFd) disk) s accesses = .ok (s', answers) := by
  rintro ⟨s', htrace⟩
  obtain ⟨s₁, htake⟩ := Runs.trace_take htrace n
  rw [htake] at h
  exact absurd rfl (bne_iff_ne.mp h)

end Closing

end Atapi

/-- **Starting a command anew.**  After any history of accesses, a guest that selects the
master, writes `PACKET` and a READ(12) of a block inside the image is given the block

* if no packet and no transfer was open, and
* whatever was open, if it reads the interrupt reason twice after selecting the master.

The write of `PACKET` itself closes nothing. -/
theorem atapi_starts_anew {diskFd : Int32} {table : HandlerTable Disk Atapi}
    (ht : atapiInit HandlerTable.zero diskFd = .ok table) {history : List (Disk × PortAccess)}
    {s : Atapi} (hr : Runs.run (Atapi.step table) Atapi.start history = .ok s) {disk : Disk}
    {image : List UInt8} (hd : Delivers disk diskFd image) {c : ReadCommand}
    (hlba : c.lba < 2 ^ 21) (hc : c.Valid image) :
    (s.byteRead = 0 → s.sending = false →
      ∃ s', Runs.trace (ioHandle table disk) s c.newRequest = .ok (s', c.newDelivered image)) ∧
    ∃ s' reason₁ reason₂, Runs.trace (ioHandle table disk) s
        (.outb (ataRegDrive primaryReg) ataPortMaster :: .inb (ataRegSectorCount primaryReg) ::
          .inb (ataRegSectorCount primaryReg) :: c.newRequest) =
      .ok (s', .out true :: .inb (some reason₁) :: .inb (some reason₂) ::
        c.newDelivered image) := by
  rw [atapiInit_zero] at ht
  cases ht
  have hflags := Atapi.flagged_of_run hr
  have hoff : c.lba * cdBlockSz < 2 ^ 32 := by
    simp only [cdBlockSz]
    omega
  -- from any state with nothing open, whichever drive it has selected
  have hanew : ∀ s : Atapi, s.Flagged → s.byteRead = 0 → s.sending = false →
      ∃ s', Runs.trace (ioHandle (atapiTable diskFd) disk) s c.newRequest =
        .ok (s', c.newDelivered image) := by
    intro s hs hread hsend
    obtain ⟨s', htrace, -⟩ := Atapi.idle_request hd hoff hc
      ((hs.select ataPortMaster).idle rfl hread hsend)
    exact ⟨s', Runs.trace_cons_ok (Atapi.handle_outb_drive _)
      (Runs.trace_cons_ok (Atapi.handle_outb_command _) htrace)⟩
  refine ⟨hanew s hflags, ?_⟩
  obtain ⟨reason₁, s₁, he₁, hs₁, hsel₁, hsend₁, -⟩ :=
    Atapi.read_closes disk diskFd (hflags.select ataPortMaster) rfl
  obtain ⟨reason₂, s₂, he₂, hs₂, -, hsend₂, hread₂⟩ :=
    Atapi.read_closes disk diskFd hs₁ hsel₁
  obtain ⟨s', htrace⟩ := hanew s₂ hs₂ (hread₂ hsend₁) hsend₂
  exact ⟨s', reason₁, reason₂, Runs.trace_cons_ok (Atapi.handle_outb_drive _)
    (Runs.trace_cons_ok he₁ (Runs.trace_cons_ok he₂ htrace))⟩

/-- A packet and a transfer that are both open when the guest selects the master and
reads the interrupt reason twice; the block that it then asks for is delivered. -/
theorem atapi_starts_anew_open :
    let image := List.replicate cdBlockSz (7 : UInt8)
    let disk : Disk := fun _ offset => (image.drop offset.toNat).take cdBlockSz
    let c : ReadCommand := ⟨#v[0xA8, 0, 0, 0, 0, 0, 0, 0, 0, 1, 0, 0], 1024⟩
    let history : List (Disk × PortAccess) := [(disk, .outw 0x1F0 0), (disk, .inw 0x1F0)]
    ∃ s, Runs.run (Atapi.step (atapiTable 3)) Atapi.start history = .ok s ∧
      ∃ s' reason₁ reason₂, Runs.trace (ioHandle (atapiTable 3) disk) s
          (.outb 0x1F6 0 :: .inb 0x1F2 :: .inb 0x1F2 :: c.newRequest) =
        .ok (s', .out true :: .inb (some reason₁) :: .inb (some reason₂) ::
          c.newDelivered image) := by
  intro image disk c history
  have hvalid : c.Valid image := ⟨rfl, by rw [List.length_replicate]; decide, by decide⟩
  obtain ⟨s, hs, -⟩ := exists_of_okAnd (p := fun _ => true)
    (show okAnd (Runs.run (Atapi.step (atapiTable 3)) Atapi.start history) _ = true by
      decide +kernel)
  exact ⟨s, hs, (atapi_starts_anew (atapiInit_zero 3) hs (fun _ _ => rfl) (by decide) hvalid).2⟩

/-- A transfer abandoned after its first word, and a packet abandoned after its first: the
block asked for next is not delivered. -/
theorem atapi_starts_anew_abandoned :
    let image := List.replicate cdBlockSz (7 : UInt8)
    let disk : Disk := fun _ offset => (image.drop offset.toNat).take cdBlockSz
    let packet : ScsiPacket := #v[0xA8, 0, 0, 0, 0, 0, 0, 0, 0, 1, 0, 0]
    let first : ReadCommand := ⟨packet, 1⟩
    let c : ReadCommand := ⟨packet, 1024⟩
    Delivers disk 3 image ∧ c.lba < 2 ^ 21 ∧ c.Valid image ∧
      (∃ s, Runs.run (Atapi.step (atapiTable 3)) Atapi.start (first.request.map (disk, ·)) =
          .ok s ∧
        ¬ ∃ s', Runs.trace (ioHandle (atapiTable 3) disk) s c.newRequest =
          .ok (s', c.newDelivered image)) ∧
      ∃ s, Runs.run (Atapi.step (atapiTable 3)) Atapi.start [(disk, .outw 0x1F0 0)] = .ok s ∧
        ¬ ∃ s', Runs.trace (ioHandle (atapiTable 3) disk) s c.newRequest =
          .ok (s', c.newDelivered image) := by
  intro image disk packet first c
  refine ⟨fun _ _ => rfl, by decide, ⟨rfl, by rw [List.length_replicate]; decide, by decide⟩,
    ?_, ?_⟩
  · -- the read of the interrupt reason ends the transfer
    obtain ⟨s, hs, hp⟩ := exists_of_okAnd
      (x := Runs.run (Atapi.step (atapiTable 3)) Atapi.start (first.request.map (disk, ·)))
      (p := fun s => okAnd (Runs.trace (ioHandle (atapiTable 3) disk) s (c.newRequest.take 9))
        fun r => r.2 != (c.newDelivered image).take 9) (by decide +kernel)
    exact ⟨s, hs, Atapi.not_answered 9 hp⟩
  · -- the packet that runs starts with the abandoned word, and its op code is none
    obtain ⟨s, hs, hp⟩ := exists_of_okAnd
      (x := Runs.run (Atapi.step (atapiTable 3)) Atapi.start [(disk, .outw 0x1F0 0)])
      (p := fun s => okAnd (Runs.trace (ioHandle (atapiTable 3) disk) s (c.newRequest.take 10))
        fun r => r.2 != (c.newDelivered image).take 10) (by decide +kernel)
    exact ⟨s, hs, Atapi.not_answered 10 hp⟩

end BlackHV
