import BlackHV.AtapiAccess
import BlackHV.Runs
import Mathlib.Algebra.Group.Nat.Defs

/-! # No guest drives the disk out of its buffers

The offsets into the packet and the block survive from one access to the next, and a
guest chooses the accesses.  `Atapi.InBounds` is what every handler keeps; it is
enough for the stores of `data_outw` and the loads of `data_inw` to stay inside.
-/
namespace BlackHV

namespace Atapi

/-- Both offsets are even and at most the size of their buffer. -/
structure InBounds (s : Atapi) : Prop where
  byteRead_even : s.byteRead.toNat % 2 = 0
  byteRead_le : s.byteRead.toNat ≤ packetSz
  byteSent_even : s.byteSent.toNat % 2 = 0
  byteSent_le : s.byteSent.toNat ≤ cdBlockSz

variable {s : Atapi}

theorem inBounds_start : start.InBounds := ⟨rfl, by decide, rfl, by decide⟩

/-- Two bytes fit behind an even offset that the guard lets through. -/
theorem add_two {x : UInt32} {size : Nat} (hsize : size < 2 ^ 32 - 2)
    (hx : x.toNat + 2 ≤ size) : (x + 2).toNat = x.toNat + 2 := by
  rw [UInt32.toNat_add, Nat.mod_eq_of_lt]
  · rfl
  · show x.toNat + 2 < _
    omega

theorem inBounds_handleScsiPacket (h : s.InBounds) (disk : Disk) (fd : Int32) :
    (handleScsiPacket disk fd s).InBounds := by
  unfold handleScsiPacket
  split
  · exact h
  · exact ⟨h.byteRead_even, h.byteRead_le, rfl, Nat.zero_le _⟩

/-- What a read of the signature registers does: one of the interrupt reason ends a
transfer or else runs a packet, and every other read leaves the device as it is. -/
theorem signatureInb_cases (disk : Disk) (port : UInt16) (params : UInt64) (s : Atapi) :
    ∃ b s', signatureInb disk port params s = .ok (b, s') ∧
      ((s' = s ∧ (s.selectedDrive = ataPortMaster → port = ataRegSectorCount primaryReg →
          s.sending = false ∧ s.receiving = false)) ∨
        (port = ataRegSectorCount primaryReg ∧ s.sending = true ∧ b = packetCommandComplete ∧
          s' = { s with byteSent := 0, sending := false }) ∨
        (port = ataRegSectorCount primaryReg ∧ s.sending = false ∧ s.receiving = true ∧
          b = packetDataTransmit ∧
          s' = { handleScsiPacket disk params.toUInt32.toInt32 s with
            byteRead := 0, receiving := false })) := by
  unfold signatureInb
  by_cases hsel : s.selectedDrive = ataPortMaster
  · rw [if_neg (not_not_intro hsel)]
    by_cases hport : port = ataRegSectorCount primaryReg
    · rw [if_pos hport]
      cases hsend : s.sending with
      | true => exact ⟨_, _, rfl, Or.inr (Or.inl ⟨hport, rfl, rfl, rfl⟩)⟩
      | false =>
          cases hreceive : s.receiving with
          | true => exact ⟨_, _, rfl, Or.inr (Or.inr ⟨hport, rfl, rfl, rfl, rfl⟩)⟩
          | false => exact ⟨_, _, rfl, Or.inl ⟨rfl, fun _ _ => ⟨rfl, rfl⟩⟩⟩
    · rw [if_neg hport]
      have hother : s = s ∧ (s.selectedDrive = ataPortMaster → port = ataRegSectorCount primaryReg →
          s.sending = false ∧ s.receiving = false) := ⟨rfl, fun _ hp => absurd hp hport⟩
      by_cases h₁ : port = ataRegLbaLo primaryReg
      · exact ⟨_, s, if_pos h₁, Or.inl hother⟩
      · rw [if_neg h₁]
        by_cases h₂ : port = ataRegLbaMi primaryReg
        · exact ⟨_, s, if_pos h₂, Or.inl hother⟩
        · rw [if_neg h₂]
          by_cases h₃ : port = ataRegLbaHi primaryReg
          · exact ⟨_, s, if_pos h₃, Or.inl hother⟩
          · exact ⟨_, s, if_neg h₃, Or.inl hother⟩
  · exact ⟨_, s, if_pos hsel, Or.inl ⟨rfl, fun h => absurd h hsel⟩⟩

theorem inBounds_signatureInb (h : s.InBounds) (disk : Disk) (port : UInt16) (params : UInt64) :
    ∃ b s', signatureInb disk port params s = .ok (b, s') ∧ s'.InBounds := by
  obtain ⟨b, s', he, hs'⟩ := signatureInb_cases disk port params s
  refine ⟨b, s', he, ?_⟩
  rcases hs' with ⟨rfl, -⟩ | ⟨-, -, -, rfl⟩ | ⟨-, -, -, -, rfl⟩
  · exact h
  · exact ⟨h.byteRead_even, h.byteRead_le, rfl, Nat.zero_le _⟩
  · have h' := inBounds_handleScsiPacket h disk params.toUInt32.toInt32
    exact ⟨rfl, Nat.zero_le _, h'.byteSent_even, h'.byteSent_le⟩

/-- `data_outw` with room for a word in the packet. -/
theorem dataOutw_ok (h : s.byteRead.toNat + 2 ≤ packetSz) (disk : Disk) (port data : UInt16)
    (params : UInt64) :
    dataOutw disk port data params s = .ok { s with
      receiving := true
      currPkt := (s.currPkt.set s.byteRead.toNat data.toUInt8 (by omega)).set
        (s.byteRead.toNat + 1) (data >>> 8).toUInt8 (by omega)
      byteRead := s.byteRead + 2 } := by
  have hg : ¬ s.byteRead > UInt32.ofNat (packetSz - 2) := by
    rw [gt_iff_lt, UInt32.lt_iff_toNat_lt]
    show ¬ 10 < _
    simp only [packetSz] at h
    omega
  rw [dataOutw, if_neg hg, storeWord, dif_pos (by omega)]
  rfl

/-- `data_outw` with the whole packet received. -/
theorem dataOutw_full (h : packetSz < s.byteRead.toNat + 2) (disk : Disk) (port data : UInt16)
    (params : UInt64) : dataOutw disk port data params s = .ok s := by
  have hg : s.byteRead > UInt32.ofNat (packetSz - 2) := by
    rw [gt_iff_lt, UInt32.lt_iff_toNat_lt]
    show 10 < _
    simp only [packetSz] at h
    omega
  rw [dataOutw, if_pos hg]

/-- `data_inw` with a word left in the block. -/
theorem dataInw_ok (h : s.byteSent.toNat + 2 ≤ cdBlockSz) (disk : Disk) (port : UInt16)
    (params : UInt64) :
    dataInw disk port params s =
      .ok (s.toSend[s.byteSent.toNat].toUInt16 ||| (s.toSend[s.byteSent.toNat + 1].toUInt16 <<< 8),
        { s with sending := true, byteSent := s.byteSent + 2 }) := by
  have hg : ¬ s.byteSent ≥ UInt32.ofNat cdBlockSz := by
    rw [ge_iff_le, UInt32.le_iff_toNat_le]
    show ¬ 2048 ≤ _
    simp only [cdBlockSz] at h
    omega
  rw [dataInw, if_neg hg, loadWord, dif_pos (by omega)]
  rfl

/-- `data_inw` with the whole block read. -/
theorem dataInw_end (h : cdBlockSz ≤ s.byteSent.toNat) (disk : Disk) (port : UInt16)
    (params : UInt64) : dataInw disk port params s = .ok (0, s) := by
  have hg : s.byteSent ≥ UInt32.ofNat cdBlockSz := by
    rw [ge_iff_le, UInt32.le_iff_toNat_le]
    exact h
  rw [dataInw, if_pos hg]

/-- Where no word is left the whole block has been read. -/
theorem InBounds.block_read (h : s.InBounds) (hleft : ¬ s.byteSent.toNat + 2 ≤ cdBlockSz) :
    cdBlockSz ≤ s.byteSent.toNat := by
  have heven := h.byteSent_even
  simp only [cdBlockSz] at *
  omega

/-- Every store of `data_outw` is inside the packet. -/
theorem inBounds_dataOutw (h : s.InBounds) (disk : Disk) (port data : UInt16)
    (params : UInt64) : ∃ s', dataOutw disk port data params s = .ok s' ∧ s'.InBounds := by
  by_cases hroom : s.byteRead.toNat + 2 ≤ packetSz
  · have hadd := add_two (by decide) hroom
    have heven := h.byteRead_even
    refine ⟨_, dataOutw_ok hroom disk port data params, ?_, ?_, h.byteSent_even, h.byteSent_le⟩
    · show (s.byteRead + 2).toNat % 2 = 0
      omega
    · show (s.byteRead + 2).toNat ≤ packetSz
      omega
  · exact ⟨s, dataOutw_full (Nat.lt_of_not_le hroom) disk port data params, h⟩

/-- Every load of `data_inw` is inside the block. -/
theorem inBounds_dataInw (h : s.InBounds) (disk : Disk) (port : UInt16) (params : UInt64) :
    ∃ w s', dataInw disk port params s = .ok (w, s') ∧ s'.InBounds := by
  have heven := h.byteSent_even
  by_cases hleft : s.byteSent.toNat + 2 ≤ cdBlockSz
  · have hadd := add_two (by decide) hleft
    refine ⟨_, _, dataInw_ok hleft disk port params, h.byteRead_even, h.byteRead_le, ?_, ?_⟩
    · show (s.byteSent + 2).toNat % 2 = 0
      omega
    · show (s.byteSent + 2).toNat ≤ cdBlockSz
      omega
  · exact ⟨0, s, dataInw_end (h.block_read hleft) disk port params, h⟩

end Atapi

/-! ## Every access -/

namespace Atapi

variable {s : Atapi}

/-- What the functions of the device keep, every handler in the table keeps. -/
theorem keeps_of_functions {I : Atapi → Prop}
    (hselect : ∀ (data : UInt8) s, I s → I { s with selectedDrive := data })
    (hsignature : ∀ disk port params s, I s →
      ∃ b s', signatureInb disk port params s = .ok (b, s') ∧ I s')
    (houtw : ∀ disk port data params s, I s →
      ∃ s', dataOutw disk port data params s = .ok s' ∧ I s')
    (hinw : ∀ disk port params s, I s → ∃ w s', dataInw disk port params s = .ok (w, s') ∧ I s')
    (diskFd : Int32) (port : UInt16) : (atapiTable diskFd port).Keeps I := by
  rcases atapiTable_kinds diskFd port with h | h | ⟨h, -⟩ | h | ⟨h, -⟩ | h <;> rw [h]
  · exact Handler.keeps_zero I
  · refine ⟨?_, (fun _ hf => by cases hf), (fun _ hf => by cases hf), (fun _ hf => by cases hf)⟩
    rintro f ⟨⟩ disk port data s hs
    exact ⟨s, rfl, hs⟩
  · refine ⟨?_, (fun _ hf => by cases hf), (fun _ hf => by cases hf), (fun _ hf => by cases hf)⟩
    rintro f ⟨⟩ disk port data s hs
    exact ⟨_, rfl, hselect data s hs⟩
  · refine ⟨?_, (fun _ hf => by cases hf), ?_, (fun _ hf => by cases hf)⟩
    · rintro f ⟨⟩ disk port data s hs
      exact ⟨s, rfl, hs⟩
    · rintro f ⟨⟩ disk port s hs
      exact hsignature disk port _ s hs
  · refine ⟨(fun _ hf => by cases hf), ?_, (fun _ hf => by cases hf), ?_⟩
    · rintro f ⟨⟩ disk port data s hs
      exact houtw disk port data _ s hs
    · rintro f ⟨⟩ disk port s hs
      exact hinw disk port _ s hs
  · refine ⟨?_, (fun _ hf => by cases hf), ?_, (fun _ hf => by cases hf)⟩
    · rintro f ⟨⟩ disk port data s hs
      exact ⟨s, rfl, hs⟩
    · rintro f ⟨⟩ disk port s hs
      exact ⟨drq, s, rfl, hs⟩

/-- What the functions of the device keep, every access to its ports keeps. -/
theorem ioHandle_keeps_of_functions {I : Atapi → Prop} {diskFd : Int32}
    (hselect : ∀ (data : UInt8) s, I s → I { s with selectedDrive := data })
    (hsignature : ∀ disk port params s, I s →
      ∃ b s', signatureInb disk port params s = .ok (b, s') ∧ I s')
    (houtw : ∀ disk port data params s, I s →
      ∃ s', dataOutw disk port data params s = .ok s' ∧ I s')
    (hinw : ∀ disk port params s, I s → ∃ w s', dataInw disk port params s = .ok (w, s') ∧ I s')
    (disk : Disk) {s : Atapi} (hs : I s) {a : PortAccess} (ha : a.port ≠ 0xFFFF) :
    ∃ s' answer, ioHandle (atapiTable diskFd) disk s a = .ok (s', answer) ∧ I s' :=
  ioHandle_keeps (keeps_of_functions hselect hsignature houtw hinw diskFd) disk hs a ha

/-- An access keeps both offsets in bounds. -/
theorem inBounds_ioHandle {diskFd : Int32} (disk : Disk) (hs : s.InBounds) {a : PortAccess}
    (ha : a.port ≠ 0xFFFF) :
    ∃ s' answer, ioHandle (atapiTable diskFd) disk s a = .ok (s', answer) ∧ s'.InBounds :=
  ioHandle_keeps_of_functions
    (fun _ _ h => ⟨h.byteRead_even, h.byteRead_le, h.byteSent_even, h.byteSent_le⟩)
    (fun disk port params _ h => inBounds_signatureInb h disk port params)
    (fun disk port data params _ h => inBounds_dataOutw h disk port data params)
    (fun disk port params _ h => inBounds_dataInw h disk port params) disk hs ha

/-- One access of the guest, while the disk answers as `access.1`. -/
def step (table : HandlerTable Disk Atapi) (s : Atapi) (access : Disk × PortAccess) :
    Except Fault Atapi := do
  let (s, _) ← ioHandle table access.1 s access.2
  .ok s

/-- The same, with the answer that the guest gets. -/
def answer (table : HandlerTable Disk Atapi) (s : Atapi) (access : Disk × PortAccess) :
    Except Fault (Atapi × PortAnswer) := ioHandle table access.1 s access.2

theorem step_eq_answer (table : HandlerTable Disk Atapi) (s : Atapi) (access : Disk × PortAccess) :
    step table s access = (answer table s access).map Prod.fst := by
  unfold step answer
  cases ioHandle table access.1 s access.2 with
  | error f => rfl
  | ok r => rfl

end Atapi

/-- **No guest behaviour drives an access out of the packet or the block.**  After
`atapi_init`, whatever the guest reads and writes at ports that have an entry in
the handler table, in bytes or words, and whatever the disk answers each time, no
handler faults, and after every access both offsets are even and at most the size
of their buffer. -/
theorem atapi_stays_in_bounds {diskFd : Int32} {table : HandlerTable Disk Atapi}
    (ht : atapiInit HandlerTable.zero diskFd = .ok table) {accesses : List (Disk × PortAccess)}
    (hp : ∀ a ∈ accesses, a.2.port ≠ 0xFFFF) :
    Runs.AlwaysAlong (Atapi.step table) Atapi.InBounds Atapi.start accesses := by
  rw [atapiInit_zero] at ht
  cases ht
  refine Runs.alwaysAlong_of_invariant (I := Atapi.InBounds) ?_ (fun _ h => h)
    Atapi.inBounds_start hp
  rintro s ⟨disk, a⟩ ha hs
  obtain ⟨s', answer, he, hs'⟩ := Atapi.inBounds_ioHandle disk hs ha
  exact ⟨s', by rw [Atapi.step, he]; rfl, hs'⟩

/-- Seven words written to the data port, one more than a packet has, and a read of
the interrupt reason. -/
theorem atapi_stays_in_bounds_packet :
    Runs.AlwaysAlong (Atapi.step (atapiTable 3)) Atapi.InBounds Atapi.start
      (List.replicate 7 (fun _ _ => [], .outw 0x1F0 0x00A8) ++ [(fun _ _ => [1], .inb 0x1F2)]) :=
  atapi_stays_in_bounds (atapiInit_zero 3) (by decide)

end BlackHV
