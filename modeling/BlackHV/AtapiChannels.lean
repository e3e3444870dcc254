import BlackHV.AtapiBounds

/-! # The two channels

The disk is the master of the primary channel; the secondary channel has no drive.  Its
handlers are those of the primary one and work on the same variables.  `signature_inb` tells
the two channels apart by the port, `select_outb` does not.
-/
namespace BlackHV

/-- The access is to a register of the secondary channel. -/
def PortAccess.secondary (a : PortAccess) : Bool :=
  (secondaryReg ≤ a.port ∧ a.port ≤ ataRegStatus secondaryReg) ∨ a.port = secondaryDcr

namespace Atapi

/-- An access to the secondary channel leaves the device as it is, unless it writes another
value to the drive register than the one selected. -/
theorem secondary_eq_iff {diskFd : Int32} {disk : Disk} {s s' : Atapi} {a : PortAccess}
    {answer : PortAnswer} (ha : a.secondary = true)
    (he : ioHandle (atapiTable diskFd) disk s a = .ok (s', answer)) :
    s' = s ↔ ∀ data, a = .outb (ataRegDrive secondaryReg) data → data = s.selectedDrive := by
  by_cases hacts : acts a = true
  · rcases acts_cases hacts with ⟨port, data, rfl, hport⟩ | ⟨data, rfl⟩ | rfl | rfl
    · rw [handle_outb_select hport] at he
      cases he
      rcases hport with rfl | rfl
      · exact absurd ha (show ¬ PortAccess.secondary (.outb (ataRegDrive primaryReg) 0) = true by
          decide)
      · constructor
        · rintro h data' ⟨⟩
          exact congrArg selectedDrive h
        · intro h
          rw [h data rfl]
    · exact absurd ha (show ¬ PortAccess.secondary (.outw (ataRegData primaryReg) 0) = true by
        decide)
    · exact absurd ha (by decide)
    · exact absurd ha (by decide)
  · have hport := ioHandle_port_ne he
    obtain ⟨answer', hquiet⟩ := handle_other diskFd hport (Bool.not_eq_true _ ▸ hacts) s
    rw [hquiet disk s rfl] at he
    cases he
    refine ⟨?_, fun _ => rfl⟩
    rintro - data rfl
    exact absurd rfl hacts

end Atapi

/-- **When the two channels do not interfere.**  In every run of the guest, the accesses to the
secondary channel go unnoticed exactly when every byte written to its drive register is the
one selected already: at every point the device is in the same state as without them, and
every other access has got the same answer. -/
theorem atapi_channels_independent_iff {diskFd : Int32} {table : HandlerTable Disk Atapi}
    (ht : atapiInit HandlerTable.zero diskFd = .ok table) {accesses : List (Disk × PortAccess)}
    {s : Atapi} (hr : Runs.run (Atapi.step table) Atapi.start accesses = .ok s) :
    Runs.Unnoticed (Atapi.answer table) (·.2.secondary) Atapi.start accesses ↔
      Runs.EachStep (Atapi.step table) (fun s access =>
        ∀ data, access.2 = .outb (ataRegDrive secondaryReg) data → data = s.selectedDrive)
        Atapi.start accesses := by
  rw [atapiInit_zero] at ht
  cases ht
  have hnotice : ∀ s (access : Disk × PortAccess) s' o, access.2.secondary = true →
      Atapi.answer (atapiTable diskFd) s access = .ok (s', o) →
      (s' = s ↔ ∀ data, access.2 = .outb (ataRegDrive secondaryReg) data →
        data = s.selectedDrive) := by
    rintro s ⟨disk, a⟩ s' o hsecondary he
    exact Atapi.secondary_eq_iff hsecondary he
  rw [Runs.unnoticed_iff_eachStep (Atapi.step_eq_answer _) hnotice hr]
  apply Runs.eachStep_congr
  intro s access
  constructor
  · intro h data hdata
    refine h ?_ data hdata
    rw [hdata]
    rfl
  · exact fun h _ => h

/-- The secondary channel is probed, and its drive register written with what it has, between
the words of a packet. -/
theorem atapi_channels_independent_iff_probed :
    let disk : Disk := fun _ _ => []
    let accesses : List (Disk × PortAccess) :=
      [.outw 0x1F0 0x00A8, .outb 0x176 0, .inb 0x172, .outw 0x1F0 0, .outb 0x376 2, .inb 0x1F2].map
        (disk, ·)
    ∃ s, Runs.run (Atapi.step (atapiTable 3)) Atapi.start accesses = .ok s ∧
      (Runs.Unnoticed (Atapi.answer (atapiTable 3)) (·.2.secondary) Atapi.start accesses ↔
        Runs.EachStep (Atapi.step (atapiTable 3)) (fun s access =>
          ∀ data, access.2 = .outb (ataRegDrive secondaryReg) data → data = s.selectedDrive)
          Atapi.start accesses) := by
  intro disk accesses
  obtain ⟨s, hs, -⟩ := exists_of_okAnd (p := fun _ => true)
    (show okAnd (Runs.run (Atapi.step (atapiTable 3)) Atapi.start accesses) _ = true by
      decide +kernel)
  exact ⟨s, hs, atapi_channels_independent_iff (atapiInit_zero 3) hs⟩

/-- A guest that looks for a slave on the secondary channel does not find the disk on the
primary one any more. -/
theorem atapi_channels_interfere :
    let disk : Disk := fun _ _ => []
    let accesses : List (Disk × PortAccess) := [(disk, .outb 0x176 0xB0), (disk, .inb 0x1F4)]
    (∃ s, Runs.trace (Atapi.answer (atapiTable 3)) Atapi.start accesses =
        .ok (s, [.out true, .inb (some 0)]) ∧ s.selectedDrive = 0xB0) ∧
      (∃ s, Runs.trace (Atapi.answer (atapiTable 3)) Atapi.start
          (accesses.filter (!·.2.secondary)) = .ok (s, [.inb (some atapiSigLbaMi)]) ∧
        s.selectedDrive = 0) ∧
      ¬ Runs.Unnoticed (Atapi.answer (atapiTable 3)) (·.2.secondary) Atapi.start accesses := by
  intro disk accesses
  refine ⟨⟨_, rfl, rfl⟩, ⟨_, rfl, rfl⟩, fun h => ?_⟩
  -- the write to the drive register of the other channel alone is noticed
  obtain ⟨s, answers, hwith, hwithout⟩ := h 1
  cases hwith
  have hsame := congrArg Atapi.selectedDrive (Prod.mk.inj (Except.ok.inj hwithout)).1
  exact absurd hsame (by decide)

end BlackHV
