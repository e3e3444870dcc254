import BlackHV.AtapiBounds

/-! # Where a history leaves the device

The two flags and the two offsets are set in different handlers.  `Atapi.Flagged` is
what ties them together after any history: a packet is open exactly when bytes of it
have been stored, and with no transfer open the next word read is the first of the
block.
-/
namespace BlackHV

namespace Atapi

/-- The flags say where the offsets are. -/
structure Flagged (s : Atapi) : Prop where
  inBounds : s.InBounds
  receiving_iff : s.receiving = true ↔ s.byteRead ≠ 0
  byteSent_zero : s.sending = false → s.byteSent = 0

variable {s : Atapi}

theorem flagged_start : start.Flagged := by
  refine ⟨inBounds_start, ?_, fun _ => rfl⟩
  constructor
  · intro h
    cases h
  · intro h
    exact absurd rfl h

/-- Running a packet leaves the drive and `sending` alone, and takes the offset into the
block back to its start or leaves it. -/
theorem handleScsiPacket_keeps (disk : Disk) (fd : Int32) (s : Atapi) :
    (handleScsiPacket disk fd s).selectedDrive = s.selectedDrive ∧
      (handleScsiPacket disk fd s).sending = s.sending ∧
      ((handleScsiPacket disk fd s).byteSent = 0 ∨
        (handleScsiPacket disk fd s).byteSent = s.byteSent) := by
  unfold handleScsiPacket
  split
  · exact ⟨rfl, rfl, Or.inr rfl⟩
  · exact ⟨rfl, rfl, Or.inl rfl⟩

theorem flagged_signatureInb (h : s.Flagged) {disk : Disk} {port : UInt16} {params : UInt64}
    {b : UInt8} {s' : Atapi} (he : signatureInb disk port params s = .ok (b, s')) : s'.Flagged := by
  obtain ⟨b', s'', he', hin⟩ := inBounds_signatureInb h.inBounds disk port params
  obtain ⟨b'', s₂, he'', hs'⟩ := signatureInb_cases disk port params s
  rw [he] at he' he''
  cases he'
  cases he''
  rcases hs' with ⟨rfl, -⟩ | ⟨-, -, -, rfl⟩ | ⟨-, hsend, -, -, rfl⟩
  · exact h
  · exact ⟨hin, h.receiving_iff, fun _ => rfl⟩
  · obtain ⟨-, -, hsent⟩ := handleScsiPacket_keeps disk params.toUInt32.toInt32 s
    refine ⟨hin, ⟨(fun hf => nomatch hf), (fun hf => absurd rfl hf)⟩, fun _ => ?_⟩
    rcases hsent with h₀ | h₀
    · exact h₀
    · exact h₀.trans (h.byteSent_zero hsend)

theorem flagged_dataOutw (h : s.Flagged) (disk : Disk) (port data : UInt16) (params : UInt64) :
    ∃ s', dataOutw disk port data params s = .ok s' ∧ s'.Flagged := by
  obtain ⟨s', he, hin⟩ := inBounds_dataOutw h.inBounds disk port data params
  refine ⟨s', he, ?_⟩
  by_cases hroom : s.byteRead.toNat + 2 ≤ packetSz
  · rw [dataOutw_ok hroom] at he
    cases he
    have hadd := add_two (by decide) hroom
    refine ⟨hin, ⟨fun _ hz => ?_, fun _ => rfl⟩, h.byteSent_zero⟩
    have hz' : (s.byteRead + 2).toNat = 0 := congrArg UInt32.toNat hz
    omega
  · -- the packet is full, and the word is dropped
    rw [dataOutw_full (Nat.lt_of_not_le hroom)] at he
    cases he
    exact ⟨hin, h.receiving_iff, h.byteSent_zero⟩

theorem flagged_dataInw (h : s.Flagged) (disk : Disk) (port : UInt16) (params : UInt64) :
    ∃ w s', dataInw disk port params s = .ok (w, s') ∧ s'.Flagged := by
  obtain ⟨w, s', he, hin⟩ := inBounds_dataInw h.inBounds disk port params
  refine ⟨w, s', he, ?_⟩
  by_cases hleft : s.byteSent.toNat + 2 ≤ cdBlockSz
  · rw [dataInw_ok hleft] at he
    cases he
    exact ⟨hin, h.receiving_iff, fun hf => nomatch hf⟩
  · rw [dataInw_end (h.inBounds.block_read hleft)] at he
    cases he
    exact ⟨hin, h.receiving_iff, h.byteSent_zero⟩

theorem Flagged.select (h : s.Flagged) (data : UInt8) :
    Flagged { s with selectedDrive := data } :=
  ⟨⟨h.inBounds.byteRead_even, h.inBounds.byteRead_le, h.inBounds.byteSent_even,
    h.inBounds.byteSent_le⟩, h.receiving_iff, h.byteSent_zero⟩

/-- An access keeps the flags and the offsets together. -/
theorem flagged_ioHandle {diskFd : Int32} (disk : Disk) (hs : s.Flagged) {a : PortAccess}
    (ha : a.port ≠ 0xFFFF) :
    ∃ s' answer, ioHandle (atapiTable diskFd) disk s a = .ok (s', answer) ∧ s'.Flagged :=
  ioHandle_keeps_of_functions
    (fun data _ h => h.select data)
    (fun disk port params s h => by
      obtain ⟨b, s', he, -⟩ := signatureInb_cases disk port params s
      exact ⟨b, s', he, flagged_signatureInb h he⟩)
    (fun disk port data params _ h => flagged_dataOutw h disk port data params)
    (fun disk port params _ h => flagged_dataInw h disk port params) disk hs ha

/-- **Every history leaves the flags and the offsets together**, whatever the disk
answered on the way. -/
theorem flagged_of_run {diskFd : Int32} {history : List (Disk × PortAccess)}
    (h : Runs.run (step (atapiTable diskFd)) start history = .ok s) : s.Flagged := by
  refine Runs.run_keeps ?_ flagged_start h
  rintro s ⟨disk, a⟩ s' hs he
  -- the step returned, so its port has an entry
  obtain ⟨⟨s₁, answer⟩, hio, heq⟩ := bind_eq_ok.mp he
  cases heq
  obtain ⟨s₂, answer₂, hio₂, h₂⟩ := flagged_ioHandle disk hs (ioHandle_port_ne hio)
  rw [hio] at hio₂
  cases hio₂
  exact h₂

end Atapi

end BlackHV
