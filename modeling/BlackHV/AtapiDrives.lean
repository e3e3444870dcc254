import BlackHV.AtapiPhases

/-! # Another drive is selected

There is one drive, the master.  With another one selected the guest should find nothing
there, and the master's command should wait: `signature_inb` looks at the selected drive,
but the two functions of the data port do not.
-/
namespace BlackHV

/-- The access is to a register of the primary channel. -/
def PortAccess.primary (a : PortAccess) : Bool :=
  (primaryReg ≤ a.port ∧ a.port ≤ ataRegStatus primaryReg) ∨ a.port = primaryDcr

/-- The access is to the primary channel, and does not select a drive. -/
structure PortAccess.Unselecting (a : PortAccess) : Prop where
  primary : a.primary = true
  drive : ∀ data, a ≠ .outb (ataRegDrive primaryReg) data

/-- The packet and the transfer of `t` are those of `s`. -/
structure SameCommand (s t : Atapi) : Prop where
  currPkt : t.currPkt = s.currPkt
  byteRead : t.byteRead = s.byteRead
  toSend : t.toSend = s.toSend
  byteSent : t.byteSent = s.byteSent
  receiving : t.receiving = s.receiving
  sending : t.sending = s.sending

/-- The accesses leave the master's command alone: it stays as it is all along, the answers
would be the same with any other block in the buffer, and once the master is selected again
everything goes on as if they had not been made. -/
structure Untouched (table : HandlerTable Disk Atapi) (s : Atapi)
    (accesses : List (Disk × PortAccess)) : Prop where
  kept : Runs.AlwaysAlong (Atapi.step table) (SameCommand s) s accesses
  hidden : ∀ t answers block,
    Runs.trace (Atapi.answer table) s accesses = .ok (t, answers) →
      ∃ t', Runs.trace (Atapi.answer table) { s with toSend := block } accesses =
        .ok (t', answers)
  continues : ∀ t, Runs.run (Atapi.step table) s accesses = .ok t → ∀ disk rest,
    Runs.trace (Atapi.answer table) t
        ((disk, .outb (ataRegDrive primaryReg) ataPortMaster) :: rest) =
      Runs.trace (Atapi.answer table) s
        ((disk, .outb (ataRegDrive primaryReg) ataPortMaster) :: rest)

namespace Atapi

/-- The access does not move the data: a word is written only where the packet is full, and
read only where the block has been read. -/
structure Still (s : Atapi) (a : PortAccess) : Prop where
  outw : ∀ data, a = .outw (ataRegData primaryReg) data → s.byteRead.toNat = packetSz
  inw : a = .inw (ataRegData primaryReg) → s.byteSent.toNat = cdBlockSz

variable {diskFd : Int32} {s : Atapi} {a : PortAccess}

/-- Such an access leaves the device as it is, whatever is in the buffer, and its answer does
not depend on the buffer. -/
theorem still_quiet (diskFd : Int32) (ha : a.Unselecting) (hsel : s.selectedDrive ≠ ataPortMaster)
    (hstill : s.Still a) : ∃ answer, ∀ disk block,
      ioHandle (atapiTable diskFd) disk { s with toSend := block } a =
        .ok ({ s with toSend := block }, answer) := by
  by_cases hacts : acts a = true
  · rcases acts_cases hacts with ⟨port, data, rfl, hport⟩ | ⟨data, rfl⟩ | rfl | rfl
    · -- the drive register of the other channel is not on this one
      rcases hport with rfl | rfl
      · exact absurd rfl (ha.drive data)
      · exact absurd ha.primary (show ¬ PortAccess.primary
          (.outb (ataRegDrive secondaryReg) 0) = true by decide)
    · have hfull : packetSz < s.byteRead.toNat + 2 := by
        rw [hstill.outw data rfl]
        decide
      exact ⟨_, fun disk block => handle_outw_data
        (dataOutw_full (s := { s with toSend := block }) hfull disk _ _ 0)⟩
    · have hend : cdBlockSz ≤ s.byteSent.toNat := Nat.le_of_eq (hstill.inw rfl).symm
      exact ⟨_, fun disk block => handle_inw_data
        (dataInw_end (s := { s with toSend := block }) hend disk _ 0)⟩
    · exact ⟨_, fun disk block => handle_inb_unselected (s := { s with toSend := block }) hsel⟩
  · have hport : a.port ≠ 0xFFFF := by
      intro h
      have hprimary := ha.primary
      rw [PortAccess.primary, h] at hprimary
      exact absurd hprimary (by decide)
    obtain ⟨answer, h⟩ := handle_other diskFd hport (Bool.not_eq_true _ ▸ hacts) s
    exact ⟨answer, fun disk block => h disk { s with toSend := block } rfl⟩

/-- Any other access moves one of the offsets. -/
theorem moves (hin : s.InBounds) (hmoves : ¬ s.Still a) {disk : Disk} {s' : Atapi}
    {answer : PortAnswer} (he : ioHandle (atapiTable diskFd) disk s a = .ok (s', answer)) :
    ¬ SameCommand s s' := by
  intro hsame
  apply hmoves
  constructor
  · rintro data rfl
    by_contra hne
    have hroom : s.byteRead.toNat + 2 ≤ packetSz := by
      have heven := hin.byteRead_even
      have hle := hin.byteRead_le
      simp only [packetSz] at *
      omega
    rw [handle_outw_data (dataOutw_ok hroom disk _ data 0)] at he
    cases he
    have hread := congrArg UInt32.toNat hsame.byteRead
    rw [show (s.byteRead + 2).toNat = _ from add_two (by decide) hroom] at hread
    omega
  · rintro rfl
    by_contra hne
    have hleft : s.byteSent.toNat + 2 ≤ cdBlockSz := by
      have heven := hin.byteSent_even
      have hle := hin.byteSent_le
      simp only [cdBlockSz] at *
      omega
    rw [handle_inw_data (dataInw_ok hleft disk _ 0)] at he
    cases he
    have hsent := congrArg UInt32.toNat hsame.byteSent
    rw [show (s.byteSent + 2).toNat = _ from add_two (by decide) hleft] at hsent
    omega

variable {accesses : List (Disk × PortAccess)}

/-- A run of such accesses stays where it is. -/
theorem still_trace (diskFd : Int32) (hun : ∀ access ∈ accesses, access.2.Unselecting)
    (hsel : s.selectedDrive ≠ ataPortMaster) (hstill : ∀ access ∈ accesses, s.Still access.2) :
    ∃ answers, ∀ block,
      Runs.trace (answer (atapiTable diskFd)) { s with toSend := block } accesses =
        .ok ({ s with toSend := block }, answers) := by
  induction accesses with
  | nil => exact ⟨[], fun _ => rfl⟩
  | cons access accesses ih =>
      obtain ⟨hun₁, hun⟩ := List.forall_mem_cons.mp hun
      obtain ⟨hstill₁, hstill⟩ := List.forall_mem_cons.mp hstill
      obtain ⟨o, ho⟩ := still_quiet diskFd hun₁ hsel hstill₁
      obtain ⟨answers, hanswers⟩ := ih hun hstill
      exact ⟨o :: answers, fun block => Runs.trace_cons_ok (ho access.1 block) (hanswers block)⟩

theorem sameCommand_refl (s : Atapi) : SameCommand s s := ⟨rfl, rfl, rfl, rfl, rfl, rfl⟩

/-- The command stays as it is along a run exactly when every access does not move the
data. -/
theorem kept_iff (hin : s.InBounds) (hun : ∀ access ∈ accesses, access.2.Unselecting)
    (hsel : s.selectedDrive ≠ ataPortMaster) :
    Runs.AlwaysAlong (step (atapiTable diskFd)) (SameCommand s) s accesses ↔
      ∀ access ∈ accesses, s.Still access.2 := by
  induction accesses with
  | nil => exact ⟨fun _ _ h => absurd h List.not_mem_nil, fun _ => sameCommand_refl s⟩
  | cons access accesses ih =>
      obtain ⟨hun₁, hun⟩ := List.forall_mem_cons.mp hun
      have hstay : s.Still access.2 → step (atapiTable diskFd) s access = .ok s := by
        intro hstill
        obtain ⟨o, ho⟩ := still_quiet diskFd hun₁ hsel hstill
        rw [step, show ioHandle _ access.1 s access.2 = _ from ho access.1 s.toSend]
        rfl
      rw [List.forall_mem_cons]
      constructor
      · rintro ⟨-, s₁, he, hrest⟩
        have hstill : s.Still access.2 := by
          by_contra hmoves
          obtain ⟨⟨s₂, o⟩, hio, heq⟩ := bind_eq_ok.mp he
          cases heq
          exact moves hin hmoves hio hrest.head
        rw [hstay hstill] at he
        cases he
        exact ⟨hstill, (ih hun).mp hrest⟩
      · rintro ⟨hstill, hrest⟩
        exact ⟨sameCommand_refl s, s, hstay hstill, (ih hun).mpr hrest⟩

end Atapi

/-- **When another drive is selected.**  After any history that leaves a drive other than the
master selected, accesses to the primary channel that select none leave the master's command
alone exactly when none of them is a word written to the data port while there is room in the
packet, or a word read from it while there are words left in the block. -/
theorem atapi_other_drive_iff {diskFd : Int32} {table : HandlerTable Disk Atapi}
    (ht : atapiInit HandlerTable.zero diskFd = .ok table) {history : List (Disk × PortAccess)}
    {s : Atapi} (hr : Runs.run (Atapi.step table) Atapi.start history = .ok s)
    (hsel : s.selectedDrive ≠ ataPortMaster) {accesses : List (Disk × PortAccess)}
    (hun : ∀ access ∈ accesses, access.2.Unselecting) :
    Untouched table s accesses ↔ ∀ access ∈ accesses, s.Still access.2 := by
  rw [atapiInit_zero] at ht
  cases ht
  have hin := (Atapi.flagged_of_run hr).inBounds
  constructor
  · intro h
    exact (Atapi.kept_iff hin hun hsel).mp h.kept
  · intro hstill
    obtain ⟨answers, hstay⟩ := Atapi.still_trace diskFd hun hsel hstill
    have hs : Runs.trace (Atapi.answer (atapiTable diskFd)) s accesses = .ok (s, answers) :=
      hstay s.toSend
    refine ⟨(Atapi.kept_iff hin hun hsel).mpr hstill, ?_, ?_⟩
    · intro t answers' block ht
      rw [hs] at ht
      cases ht
      exact ⟨_, hstay block⟩
    · intro t ht disk rest
      have hrun := Runs.run_of_trace (Atapi.step_eq_answer (atapiTable diskFd)) hs
      rw [hrun] at ht
      cases ht
      rfl

/-- A guest that probes the slave's registers in the middle of a packet. -/
theorem atapi_other_drive_iff_probe :
    let disk : Disk := fun _ _ => []
    let history : List (Disk × PortAccess) := [(disk, .outw 0x1F0 0x00A8), (disk, .outb 0x1F6 0x10)]
    let accesses : List (Disk × PortAccess) := [(disk, .inb 0x1F2), (disk, .inb 0x1F7)]
    ∃ s, Runs.run (Atapi.step (atapiTable 3)) Atapi.start history = .ok s ∧
      (Untouched (atapiTable 3) s accesses ↔ ∀ access ∈ accesses, s.Still access.2) := by
  intro disk history accesses
  obtain ⟨s, hs, hsel⟩ := exists_of_okAnd
    (x := Runs.run (Atapi.step (atapiTable 3)) Atapi.start history)
    (p := fun s => s.selectedDrive != ataPortMaster) (by decide +kernel)
  refine ⟨s, hs, atapi_other_drive_iff (atapiInit_zero 3) hs (bne_iff_ne.mp hsel) ?_⟩
  intro access haccess
  simp only [accesses, List.mem_cons, List.not_mem_nil, or_false] at haccess
  rcases haccess with rfl | rfl
  · exact ⟨by decide, fun _ h => nomatch h⟩
  · exact ⟨by decide, fun _ h => nomatch h⟩

/-- With a block in the master's buffer that starts with two bytes 7 and the slave selected, a
word read from the data port is 7s, and the master's transfer has moved on by it. -/
theorem atapi_other_drive_reads :
    let disk : Disk := fun _ _ => [7, 7]
    let history : List (Disk × PortAccess) := [.outw 0x1F0 0x00A8, .outw 0x1F0 0, .inb 0x1F2,
      .outb 0x1F6 0x10].map (disk, ·)
    let accesses : List (Disk × PortAccess) := [(disk, .inw 0x1F0)]
    ∃ s t, Runs.run (Atapi.step (atapiTable 3)) Atapi.start history = .ok s ∧
      s.selectedDrive ≠ ataPortMaster ∧
      Runs.trace (Atapi.answer (atapiTable 3)) s accesses = .ok (t, [.inw (some 0x0707)]) ∧
      s.byteSent = 0 ∧ t.byteSent = 2 ∧ s.sending = false ∧ t.sending = true ∧
      ¬ Untouched (atapiTable 3) s accesses := by
  intro disk history accesses
  let s : Atapi :=
    { selectedDrive := 0x10, currPkt := #v[0xA8, 0, 0, 0, 0, 0, 0, 0, 0, 0, 0, 0], byteRead := 0,
      toSend := stored (Vector.replicate _ 0) [7, 7], byteSent := 0, receiving := false,
      sending := false }
  have hs : Runs.run (Atapi.step (atapiTable 3)) Atapi.start history = .ok s := rfl
  have hword : s.toSend[0].toUInt16 ||| (s.toSend[1].toUInt16 <<< 8) = 0x0707 := by
    simp only [s, stored, Vector.getElem_ofFn, List.getElem?_cons_zero, List.getElem?_cons_succ,
      Option.getD_some]
    decide
  have hin := Atapi.dataInw_ok (s := s) (by decide) disk (ataRegData primaryReg) 0
  simp only [show s.byteSent.toNat = 0 from rfl, Nat.zero_add, hword] at hin
  refine ⟨s, _, hs, by decide, Runs.trace_cons_ok (Atapi.handle_inw_data hin) rfl, rfl, rfl, rfl,
    rfl, fun h => ?_⟩
  have hstill := (Atapi.kept_iff (Atapi.flagged_of_run hs).inBounds ?_ (by decide)).mp h.kept
  · exact absurd ((hstill _ List.mem_cons_self).inw rfl) (by decide)
  · intro access haccess
    rw [List.mem_singleton.mp haccess]
    exact ⟨by decide, fun _ h => nomatch h⟩

end BlackHV
