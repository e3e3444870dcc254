import BlackHV.Atapi
import BlackHV.PortTable

/-! # What an access can do

Of all accesses at all ports, five kinds reach a handler that can change the device: byte
writes to the two drive registers, words written to and read from the data port, and reads
of the interrupt reason.  Every other access leaves the device as it is, and its answer
depends on the selected drive alone.
-/
namespace BlackHV

namespace Atapi

/-- The accesses that can change the device. -/
def acts : PortAccess → Bool
  | .outb port _ => port = ataRegDrive primaryReg ∨ port = ataRegDrive secondaryReg
  | .outw port _ => port = ataRegData primaryReg
  | .inb port => port = ataRegSectorCount primaryReg
  | .inw port => port = ataRegData primaryReg

/-- The five kinds. -/
theorem acts_cases {a : PortAccess} (h : acts a = true) :
    (∃ port data, a = .outb port data ∧
        (port = ataRegDrive primaryReg ∨ port = ataRegDrive secondaryReg)) ∨
      (∃ data, a = .outw (ataRegData primaryReg) data) ∨
      a = .inw (ataRegData primaryReg) ∨ a = .inb (ataRegSectorCount primaryReg) := by
  cases a with
  | outb port data => exact Or.inl ⟨port, data, rfl, of_decide_eq_true h⟩
  | outw port data =>
      rw [show port = ataRegData primaryReg from of_decide_eq_true h]
      exact Or.inr (Or.inl ⟨data, rfl⟩)
  | inw port =>
      rw [show port = ataRegData primaryReg from of_decide_eq_true h]
      exact Or.inr (Or.inr (Or.inl rfl))
  | inb port =>
      rw [show port = ataRegSectorCount primaryReg from of_decide_eq_true h]
      exact Or.inr (Or.inr (Or.inr rfl))

section Table
variable {diskFd : Int32} {s : Atapi}

/-- The entries of the table: five handlers, two of them at known ports only. -/
theorem atapiTable_kinds (diskFd : Int32) (port : UInt16) :
    atapiTable diskFd port = {} ∨ atapiTable diskFd port = ignoreOutbHandler ∨
      (atapiTable diskFd port = selectOutbHandler ∧
        (port = ataRegDrive primaryReg ∨ port = ataRegDrive secondaryReg)) ∨
      atapiTable diskFd port = signatureInbHandler diskFd ∨
      (atapiTable diskFd port = dataHandler ∧ port = ataRegData primaryReg) ∨
      atapiTable diskFd port = statusHandler := by
  rcases HandlerTable.foldl_update_mem HandlerTable.zero (atapiRegistrations diskFd) port
    with h | h
  · exact Or.inl h
  · have hmem : (port, atapiTable diskFd port) ∈ atapiRegistrations diskFd := h
    generalize atapiTable diskFd port = hdl at hmem ⊢
    simp only [atapiRegistrations, List.flatMap_cons, List.flatMap_nil, List.cons_append,
      List.nil_append, List.mem_cons, List.not_mem_nil, or_false, Prod.mk.injEq] at hmem
    rcases hmem with ⟨rfl, rfl⟩ | ⟨rfl, rfl⟩ | ⟨rfl, rfl⟩ | ⟨rfl, rfl⟩ | ⟨rfl, rfl⟩ | ⟨rfl, rfl⟩ |
      ⟨rfl, rfl⟩ | ⟨rfl, rfl⟩ | ⟨rfl, rfl⟩ | ⟨rfl, rfl⟩ | ⟨rfl, rfl⟩ | ⟨rfl, rfl⟩ | ⟨rfl, rfl⟩ |
      ⟨rfl, rfl⟩ | ⟨rfl, rfl⟩ | ⟨rfl, rfl⟩ | ⟨rfl, rfl⟩ | ⟨rfl, rfl⟩ <;> simp

/-- A read of a signature register other than the interrupt reason. -/
theorem signatureInb_other {port : UInt16} (hport : port ≠ ataRegSectorCount primaryReg)
    (params : UInt64) (s : Atapi) :
    ∃ b, ∀ disk t, t.selectedDrive = s.selectedDrive →
      signatureInb disk port params t = .ok (b, t) := by
  by_cases hsel : s.selectedDrive = ataPortMaster
  · refine ⟨if port = ataRegLbaLo primaryReg then atapiSigLbaLo
      else if port = ataRegLbaMi primaryReg then atapiSigLbaMi
      else if port = ataRegLbaHi primaryReg then atapiSigLbaHi else 0, fun disk t ht => ?_⟩
    rw [signatureInb, if_neg (not_not_intro (ht.trans hsel)), if_neg hport]
    split
    · rfl
    · split
      · rfl
      · split <;> rfl
  · exact ⟨0, fun disk t ht => if_pos (fun h => hsel (ht.symm.trans h))⟩

/-- **Every other access is quiet.**  It leaves the device as it is, and its answer is that
of every device with the same drive selected. -/
theorem handle_other (diskFd : Int32) {a : PortAccess} (ha : a.port ≠ 0xFFFF)
    (hacts : acts a = false) (s : Atapi) : ∃ answer, ∀ disk t, t.selectedDrive = s.selectedDrive →
      ioHandle (atapiTable diskFd) disk t a = .ok (t, answer) := by
  have hkinds := atapiTable_kinds diskFd a.port
  suffices h : ∃ answer, ∀ disk t, t.selectedDrive = s.selectedDrive →
      (a.called (atapiTable diskFd a.port) disk t).getD (.ok (t, a.unhandled)) = .ok (t, answer) by
    obtain ⟨answer, h⟩ := h
    exact ⟨answer, fun disk t ht => (ioHandle_eq ha disk t).trans (h disk t ht)⟩
  rcases hkinds with h | h | ⟨h, hport⟩ | h | ⟨h, hport⟩ | h <;> rw [h]
  · cases a <;> exact ⟨_, fun _ _ _ => rfl⟩
  · cases a <;> exact ⟨_, fun _ _ _ => rfl⟩
  · cases a with
    | outb port data => exact absurd (decide_eq_true hport) (Bool.eq_false_iff.mp hacts)
    | outw port data => exact ⟨_, fun _ _ _ => rfl⟩
    | inb port => exact ⟨_, fun _ _ _ => rfl⟩
    | inw port => exact ⟨_, fun _ _ _ => rfl⟩
  · cases a with
    | outb port data => exact ⟨_, fun _ _ _ => rfl⟩
    | outw port data => exact ⟨_, fun _ _ _ => rfl⟩
    | inb port =>
        obtain ⟨b, hb⟩ := signatureInb_other (of_decide_eq_false hacts)
          (signatureInbHandler diskFd).params s
        refine ⟨.inb (some b), fun disk t ht => ?_⟩
        show (signatureInb disk port _ t >>= _) = _
        rw [hb disk t ht]
        rfl
    | inw port => exact ⟨_, fun _ _ _ => rfl⟩
  · cases a with
    | outb port data => exact ⟨_, fun _ _ _ => rfl⟩
    | outw port data => exact absurd (decide_eq_true hport) (Bool.eq_false_iff.mp hacts)
    | inb port => exact ⟨_, fun _ _ _ => rfl⟩
    | inw port => exact absurd (decide_eq_true hport) (Bool.eq_false_iff.mp hacts)
  · cases a <;> exact ⟨_, fun _ _ _ => rfl⟩

/-! ## The accesses that act -/

/-- Both drive registers select the drive. -/
theorem handle_outb_select {port : UInt16}
    (hport : port = ataRegDrive primaryReg ∨ port = ataRegDrive secondaryReg) (disk : Disk)
    (data : UInt8) (s : Atapi) :
    ioHandle (atapiTable diskFd) disk s (.outb port data) =
      .ok ({ s with selectedDrive := data }, .out true) := by
  rcases hport with rfl | rfl
  · rfl
  · rfl

variable {disk : Disk}

theorem handle_outw_data {data : UInt16} {s' : Atapi}
    (h : dataOutw disk (ataRegData primaryReg) data 0 s = .ok s') :
    ioHandle (atapiTable diskFd) disk s (.outw (ataRegData primaryReg) data) =
      .ok (s', .out true) := by
  show (dataOutw disk (ataRegData primaryReg) data 0 s >>= fun s' => Except.ok (s', true)) >>= _ = _
  rw [h]
  rfl

theorem handle_inw_data {word : UInt16} {s' : Atapi}
    (h : dataInw disk (ataRegData primaryReg) 0 s = .ok (word, s')) :
    ioHandle (atapiTable diskFd) disk s (.inw (ataRegData primaryReg)) =
      .ok (s', .inw (some word)) := by
  show (dataInw disk (ataRegData primaryReg) 0 s >>= fun r => Except.ok (r.2, some r.1)) >>= _ = _
  rw [h]
  rfl

theorem handle_inb_sectorCount {byte : UInt8} {s' : Atapi}
    (h : signatureInb disk (ataRegSectorCount primaryReg) diskFd.toInt64.toUInt64 s =
      .ok (byte, s')) :
    ioHandle (atapiTable diskFd) disk s (.inb (ataRegSectorCount primaryReg)) =
      .ok (s', .inb (some byte)) := by
  show (signatureInb disk (ataRegSectorCount primaryReg) diskFd.toInt64.toUInt64 s >>=
    fun r => Except.ok (r.2, some r.1)) >>= _ = _
  rw [h]
  rfl

/-- With another drive selected the interrupt reason is 0. -/
theorem handle_inb_unselected (hsel : s.selectedDrive ≠ ataPortMaster) :
    ioHandle (atapiTable diskFd) disk s (.inb (ataRegSectorCount primaryReg)) =
      .ok (s, .inb (some 0)) := by
  have hrun : signatureInb disk (ataRegSectorCount primaryReg) diskFd.toInt64.toUInt64 s =
      .ok (0, s) := if_pos hsel
  exact handle_inb_sectorCount hrun

end Table

end Atapi

end BlackHV
