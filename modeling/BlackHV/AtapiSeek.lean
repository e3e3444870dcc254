import BlackHV.AtapiRead

/-! # Where a READ(12) seeks

`handle_scsi_packet` puts the block number together from four bytes of the packet and
multiplies it by the size of a block.  Both are 32-bit numbers, and so is the product:
the offset that `lseek` is given is the exact one modulo `2 ^ 32`.  The image can be
larger than that, so what is modelled of a seek is not the block that one image has
there, but the offset itself.
-/
namespace BlackHV

namespace ScsiPacket

/-- The number of the block: bytes 2 to 5, the high byte first. -/
def lbaNat (p : ScsiPacket) : Nat := Bytes.be32 p.lbaHi p.lbaMihi p.lbaMilo p.lbaLo

end ScsiPacket

/-- A packet, written to a device that is `s`, makes `handle_scsi_packet` seek to `offset`:
whatever the image holds, what it leaves in the buffer is what a `read` from there stores. -/
def SeeksTo (table : HandlerTable Disk Atapi) (diskFd : Int32) (s : Atapi) (p : ScsiPacket)
    (offset : UInt32) : Prop :=
  ∀ disk : Disk, ∃ s₁ answers, Runs.trace (ioHandle table disk) s p.words = .ok (s₁, answers) ∧
    (handleScsiPacket disk diskFd s₁).toSend = stored s.toSend (disk diskFd offset)

namespace Atapi
variable {diskFd : Int32} {s : Atapi} {p q : ScsiPacket}

/-- The block number is assembled exactly. -/
theorem toNat_lba (p : ScsiPacket) : p.lba.toNat = p.lbaNat := Bytes.be32_eq_or _ _ _ _

/-- The offset, in 32 bits. -/
theorem toNat_seek (p : ScsiPacket) :
    (p.lba * UInt32.ofNat cdBlockSz).toNat = p.lbaNat * cdBlockSz % 2 ^ 32 := by
  rw [UInt32.toNat_mul, toNat_lba]
  rfl

/-- The product is the exact one as long as it fits in 32 bits. -/
theorem seek_exact_iff (p : ScsiPacket) :
    (p.lba * UInt32.ofNat cdBlockSz).toNat = p.lbaNat * cdBlockSz ↔ p.lbaNat < 2 ^ 21 := by
  rw [toNat_seek, Nat.mod_eq_iff_lt (by decide), cdBlockSz]
  omega

/-- Two blocks whose numbers differ by a multiple of `2 ^ 21` have one offset. -/
theorem seek_eq_iff :
    q.lba * UInt32.ofNat cdBlockSz = p.lba * UInt32.ofNat cdBlockSz ↔
      q.lbaNat % 2 ^ 21 = p.lbaNat % 2 ^ 21 := by
  rw [← UInt32.toNat_inj, toNat_seek, toNat_seek, cdBlockSz]
  omega

/-- A block of a disk that has one byte at an offset and another byte everywhere else tells
where it was read. -/
theorem stored_eq_iff {offset offset' : UInt32} (block : Vector UInt8 cdBlockSz) :
    stored block (if offset' = offset then [1] else [0]) = stored block [1] ↔ offset' = offset := by
  constructor
  · intro h
    by_contra hne
    rw [if_neg hne] at h
    have hfirst := congrArg (fun v : Vector UInt8 cdBlockSz => v[0]?) h
    simp only [stored, Vector.getElem?_ofFn] at hfirst
    cases hfirst
  · intro h
    rw [if_pos h]

/-- A READ(12) seeks to the product, and nowhere else. -/
theorem seeksTo_iff (hop : p.opCode = read12) (hs : s.byteRead = 0) {offset : UInt32} :
    SeeksTo (atapiTable diskFd) diskFd s p offset ↔
      offset = p.lba * UInt32.ofNat cdBlockSz := by
  have hseek : ∀ disk : Disk, (handleScsiPacket disk diskFd { s with
      currPkt := p, byteRead := UInt32.ofNat packetSz, receiving := true }).toSend =
        stored s.toSend (disk diskFd (p.lba * UInt32.ofNat cdBlockSz)) := by
    intro disk
    rw [handleScsiPacket, if_neg (not_not_intro hop)]
  constructor
  · intro h
    obtain ⟨s₁, answers, ht, hblock⟩ :=
      h fun _ o => if o = p.lba * UInt32.ofNat cdBlockSz then [1] else [0]
    rw [ScsiPacket.words, packet_stored _ diskFd hs p] at ht
    cases ht
    rw [hseek, if_pos rfl] at hblock
    exact (stored_eq_iff s.toSend).mp hblock.symm
  · rintro rfl disk
    exact ⟨_, _, packet_stored disk diskFd hs p, hseek disk⟩

end Atapi

/-- **Where a READ(12) seeks.**  A READ(12) of any block, written to a device with no packet
open, seeks to one offset.  It is the number of the block times the size of a block exactly
for the first `2 ^ 21` blocks; and the packets that seek there are those whose block has the
same number modulo `2 ^ 21`. -/
theorem atapi_seek_exact_iff {diskFd : Int32} {table : HandlerTable Disk Atapi}
    (ht : atapiInit HandlerTable.zero diskFd = .ok table) {p : ScsiPacket}
    (hop : p.opCode = read12) {s : Atapi} (hs : s.byteRead = 0) :
    ∃ offset : UInt32, (∀ o, SeeksTo table diskFd s p o ↔ o = offset) ∧
      (offset.toNat = p.lbaNat * cdBlockSz ↔ p.lbaNat < 2 ^ 21) ∧
      ∀ q : ScsiPacket, q.opCode = read12 →
        (SeeksTo table diskFd s q offset ↔ q.lbaNat % 2 ^ 21 = p.lbaNat % 2 ^ 21) := by
  rw [atapiInit_zero] at ht
  cases ht
  refine ⟨_, fun o => Atapi.seeksTo_iff hop hs, Atapi.seek_exact_iff p, fun q hq => ?_⟩
  rw [Atapi.seeksTo_iff hq hs, ← Atapi.seek_eq_iff]
  exact eq_comm

/-- The last block that is read from the right place. -/
theorem atapi_seek_exact_iff_last :
    let p : ScsiPacket := #v[0xA8, 0, 0x00, 0x1F, 0xFF, 0xFF, 0, 0, 0, 1, 0, 0]
    ∃ offset : UInt32, (∀ o, SeeksTo (atapiTable 3) 3 Atapi.start p o ↔ o = offset) ∧
      (offset.toNat = p.lbaNat * cdBlockSz ↔ p.lbaNat < 2 ^ 21) ∧
      ∀ q : ScsiPacket, q.opCode = read12 →
        (SeeksTo (atapiTable 3) 3 Atapi.start q offset ↔ q.lbaNat % 2 ^ 21 = p.lbaNat % 2 ^ 21) :=
  atapi_seek_exact_iff (atapiInit_zero 3) rfl rfl

/-- The block after it is block 0 again. -/
theorem atapi_seek_wraps :
    let p : ScsiPacket := #v[0xA8, 0, 0x00, 0x20, 0x00, 0x00, 0, 0, 0, 1, 0, 0]
    let q : ScsiPacket := #v[0xA8, 0, 0x00, 0x00, 0x00, 0x00, 0, 0, 0, 1, 0, 0]
    p.opCode = read12 ∧ q.opCode = read12 ∧ p.lbaNat = 2 ^ 21 ∧ q.lbaNat = 0 ∧
      SeeksTo (atapiTable 3) 3 Atapi.start p 0 ∧ SeeksTo (atapiTable 3) 3 Atapi.start q 0 ∧
      ∀ o : UInt32, o.toNat = p.lbaNat * cdBlockSz →
        ¬ SeeksTo (atapiTable 3) 3 Atapi.start p o := by
  intro p q
  refine ⟨rfl, rfl, by decide, by decide, (Atapi.seeksTo_iff rfl rfl).mpr (by decide),
    (Atapi.seeksTo_iff rfl rfl).mpr (by decide), fun o ho _ => ?_⟩
  -- no 32-bit offset is as large
  have hlt := o.toNat_lt
  have hbig : p.lbaNat * cdBlockSz = 2 ^ 32 := by decide
  omega

end BlackHV
