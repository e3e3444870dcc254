import BlackHV.AtapiPhases
import BlackHV.AtapiRead

/-! # Whose words a packet is made of

`signature_inb` runs the packet when the guest reads the interrupt reason, on a flag that
the first word sets.  `PacketSession` records beside the device the words that `data_outw`
has stored since the last packet was consumed, and every packet that was run with the words
recorded for it; the record changes nothing for the device.
-/
namespace BlackHV

/-- A packet that was run, and the words stored since the packet before it. -/
structure Executed where
  packet : ScsiPacket
  words : List UInt16

/-- The packet is six words, and they are its own. -/
def Executed.Own (e : Executed) : Prop :=
  e.words = (List.range 6).map (ReadCommand.packetWord e.packet)

/-- The device, with the record. -/
structure PacketSession where
  device : Atapi
  words : List UInt16
  executed : List Executed

namespace Atapi

/-- The word that `data_outw` stores, where it stores one. -/
def wordStored (s : Atapi) : PortAccess → Option UInt16
  | .outw port data =>
      if port = ataRegData primaryReg ∧ ¬ s.byteRead > UInt32.ofNat (packetSz - 2) then
        some data
      else
        none
  | _ => none

/-- Whether `signature_inb` runs `handle_scsi_packet`. -/
def runsPacket (s : Atapi) (a : PortAccess) : Bool :=
  a = .inb (ataRegSectorCount primaryReg) ∧ s.selectedDrive = ataPortMaster ∧
    s.sending = false ∧ s.receiving = true

/-- The access reads the interrupt reason while a packet is partly written and no transfer
is open. -/
def CutsPacket (s : Atapi) (a : PortAccess) : Prop :=
  a = .inb (ataRegSectorCount primaryReg) ∧ s.selectedDrive = ataPortMaster ∧
    s.sending = false ∧ 0 < s.byteRead.toNat ∧ s.byteRead.toNat < packetSz

end Atapi

namespace PacketSession

def start : PacketSession := { device := Atapi.start, words := [], executed := [] }

/-- One access, recorded. -/
def step (table : HandlerTable Disk Atapi) (s : PacketSession) (access : Disk × PortAccess) :
    Except Fault PacketSession := do
  let (device, _) ← ioHandle table access.1 s.device access.2
  match s.device.wordStored access.2 with
  | some word => .ok { s with device, words := s.words ++ [word] }
  | none =>
      if s.device.runsPacket access.2 then
        .ok { device, words := [], executed := s.executed ++ [⟨s.device.currPkt, s.words⟩] }
      else
        .ok { s with device }

/-- Every packet that was run is six words of its own. -/
def AllOwn (s : PacketSession) : Prop := ∀ e ∈ s.executed, e.Own

/-- The record changes nothing for the device. -/
theorem step_device (table : HandlerTable Disk Atapi) (s : PacketSession)
    (access : Disk × PortAccess) :
    Atapi.step table s.device access = (step table s access).map device := by
  unfold Atapi.step step
  cases ioHandle table access.1 s.device access.2 with
  | error f => rfl
  | ok r =>
      simp only [ok_bind]
      split
      · rfl
      · split <;> rfl

/-- What the record is of: the words of the packet so far, as many as the device has
counted. -/
structure Recorded (s : PacketSession) : Prop where
  flagged : s.device.Flagged
  byteRead : s.device.byteRead.toNat = 2 * s.words.length
  words : ∀ i word, s.words[i]? = some word → ReadCommand.packetWord s.device.currPkt i = word

theorem recorded_start : start.Recorded :=
  ⟨Atapi.flagged_start, rfl, fun _ _ h => nomatch h⟩

variable {s : PacketSession}

/-- A packet is its own exactly when six words have been stored. -/
theorem Recorded.own_iff (h : s.Recorded) :
    Executed.Own ⟨s.device.currPkt, s.words⟩ ↔ s.device.byteRead.toNat = packetSz := by
  rw [h.byteRead]
  constructor
  · intro hown
    have hlen := congrArg List.length (show s.words = _ from hown)
    rw [List.length_map, List.length_range] at hlen
    rw [hlen]
    rfl
  · intro hlen
    have hsix : s.words.length = 6 := by
      simp only [packetSz] at hlen
      omega
    refine List.ext_getElem ?_ fun i hi _ => ?_
    · rw [List.length_map, List.length_range, hsix]
    · rw [List.getElem_map, List.getElem_range]
      exact (h.words i _ (List.getElem?_eq_getElem hi)).symm

/-- Two bytes stored behind the first `2 * n` are word `n` of the packet, and the words
before them stay. -/
theorem packetWord_set (p : ScsiPacket) {n : Nat} (hlo : 2 * n < packetSz)
    (hhi : 2 * n + 1 < packetSz) (word : UInt16) {i : Nat} (hi : i ≤ n) :
    ReadCommand.packetWord
        ((p.set (2 * n) word.toUInt8 hlo).set (2 * n + 1) (word >>> 8).toUInt8 hhi) i =
      if i = n then word else ReadCommand.packetWord p i := by
  unfold ReadCommand.packetWord
  by_cases heq : i = n
  · subst heq
    rw [if_pos rfl, Vector.getElem?_set_ne _ (by omega), Vector.getElem?_set_self,
      Vector.getElem?_set_self]
    exact Bytes.leWord_low_high word
  · rw [if_neg heq, Vector.getElem?_set_ne _ (by omega), Vector.getElem?_set_ne _ (by omega),
      Vector.getElem?_set_ne _ (by omega), Vector.getElem?_set_ne _ (by omega)]

section Step
variable {diskFd : Int32} {disk : Disk} {a : PortAccess} {device : Atapi} {answer : PortAnswer}

theorem step_quiet (he : ioHandle (atapiTable diskFd) disk s.device a = .ok (device, answer))
    (hword : s.device.wordStored a = none) (hruns : s.device.runsPacket a = false) :
    step (atapiTable diskFd) s (disk, a) = .ok { s with device } := by
  unfold step
  simp only [he, ok_bind, hword, hruns]
  rfl

theorem step_stores {word : UInt16}
    (he : ioHandle (atapiTable diskFd) disk s.device a = .ok (device, answer))
    (hword : s.device.wordStored a = some word) :
    step (atapiTable diskFd) s (disk, a) = .ok { s with device, words := s.words ++ [word] } := by
  unfold step
  simp only [he, ok_bind, hword]

theorem step_runs (he : ioHandle (atapiTable diskFd) disk s.device a = .ok (device, answer))
    (hword : s.device.wordStored a = none) (hruns : s.device.runsPacket a = true) :
    step (atapiTable diskFd) s (disk, a) =
      .ok { device, words := [], executed := s.executed ++ [⟨s.device.currPkt, s.words⟩] } := by
  unfold step
  simp only [he, ok_bind, hword, hruns]
  rfl

/-- A device with the same packet keeps the record. -/
theorem Recorded.quiet (hs : s.Recorded) (hd : device.Flagged)
    (hpkt : device.currPkt = s.device.currPkt) (hread : device.byteRead = s.device.byteRead) :
    Recorded { s with device } := by
  refine ⟨hd, ?_, ?_⟩
  · show device.byteRead.toNat = _
    rw [hread, hs.byteRead]
  · show ∀ i word, s.words[i]? = some word → ReadCommand.packetWord device.currPkt i = word
    rw [hpkt]
    exact hs.words

/-- A word that finds room is recorded where it is stored. -/
theorem Recorded.stores (hs : s.Recorded) {word : UInt16}
    (hroom : s.device.byteRead.toNat + 2 ≤ packetSz) {device : Atapi} (hd : device.Flagged)
    (hread : device.byteRead = s.device.byteRead + 2)
    (hpkt : device.currPkt = (s.device.currPkt.set s.device.byteRead.toNat word.toUInt8
      (by omega)).set (s.device.byteRead.toNat + 1) (word >>> 8).toUInt8 (by omega)) :
    Recorded { s with device, words := s.words ++ [word] } := by
  have hat := hs.byteRead
  have hadd := Atapi.add_two (by decide) hroom
  refine ⟨hd, ?_, fun i word' hi => ?_⟩
  · show device.byteRead.toNat = 2 * (s.words ++ [word]).length
    rw [hread, hadd, List.length_append, List.length_singleton]
    omega
  · show ReadCommand.packetWord device.currPkt i = word'
    simp only [hpkt, hat]
    have hlt : i < s.words.length + 1 := by
      have := (List.getElem?_eq_some_iff.mp hi).1
      rwa [List.length_append, List.length_singleton] at this
    rw [packetWord_set _ (by omega) (by omega) word (Nat.le_of_lt_succ hlt)]
    by_cases heq : i = s.words.length
    · subst heq
      rw [List.getElem?_concat_length] at hi
      rw [if_pos rfl]
      exact Option.some.inj hi
    · rw [List.getElem?_append_left (by omega)] at hi
      rw [if_neg heq]
      exact hs.words i word' hi

/-- An access keeps the record; and it runs no packet and cuts none, or it runs one and cuts
it exactly when the packet is not full. -/
def Accounted (diskFd : Int32) (disk : Disk) (s : PacketSession) (a : PortAccess) : Prop :=
  ∃ s', step (atapiTable diskFd) s (disk, a) = .ok s' ∧ s'.Recorded ∧
    ((s'.executed = s.executed ∧ ¬ s.device.CutsPacket a) ∨
      (s'.executed = s.executed ++ [⟨s.device.currPkt, s.words⟩] ∧
        (s.device.CutsPacket a ↔ s.device.byteRead.toNat ≠ packetSz)))

theorem accounted_outw (hs : s.Recorded) (disk : Disk) (data : UInt16) :
    Accounted diskFd disk s (.outw (ataRegData primaryReg) data) := by
  have hcut : ¬ s.device.CutsPacket (.outw (ataRegData primaryReg) data) := fun h => nomatch h.1
  obtain ⟨device, hout, hd⟩ := Atapi.flagged_dataOutw hs.flagged disk (ataRegData primaryReg) data 0
  have he : ioHandle (atapiTable diskFd) disk s.device (.outw (ataRegData primaryReg) data) =
      .ok (device, .out true) := Atapi.handle_outw_data hout
  have hguard : s.device.byteRead > UInt32.ofNat (packetSz - 2) ↔
      ¬ s.device.byteRead.toNat + 2 ≤ packetSz := by
    rw [gt_iff_lt, UInt32.lt_iff_toNat_lt]
    show 10 < _ ↔ ¬ _ ≤ 12
    omega
  by_cases hroom : s.device.byteRead.toNat + 2 ≤ packetSz
  · have hword : s.device.wordStored (.outw (ataRegData primaryReg) data) = some data :=
      if_pos ⟨rfl, fun h => hguard.mp h hroom⟩
    rw [Atapi.dataOutw_ok hroom] at hout
    cases hout
    exact ⟨_, step_stores he hword, hs.stores hroom hd rfl rfl, Or.inl ⟨rfl, hcut⟩⟩
  · -- the packet is full, and the word is dropped
    have hword : s.device.wordStored (.outw (ataRegData primaryReg) data) = none :=
      if_neg fun h => h.2 (hguard.mpr hroom)
    rw [Atapi.dataOutw_full (Nat.lt_of_not_le hroom)] at hout
    cases hout
    exact ⟨_, step_quiet he hword rfl, hs, Or.inl ⟨rfl, hcut⟩⟩

theorem accounted_inw (hs : s.Recorded) (disk : Disk) :
    Accounted diskFd disk s (.inw (ataRegData primaryReg)) := by
  have hcut : ¬ s.device.CutsPacket (.inw (ataRegData primaryReg)) := fun h => nomatch h.1
  obtain ⟨word, device, hin, hd⟩ := Atapi.flagged_dataInw hs.flagged disk (ataRegData primaryReg) 0
  have he : ioHandle (atapiTable diskFd) disk s.device (.inw (ataRegData primaryReg)) =
      .ok (device, .inw (some word)) := Atapi.handle_inw_data hin
  refine ⟨_, step_quiet he rfl rfl, ?_, Or.inl ⟨rfl, hcut⟩⟩
  by_cases hleft : s.device.byteSent.toNat + 2 ≤ cdBlockSz
  · rw [Atapi.dataInw_ok hleft] at hin
    cases hin
    exact hs.quiet hd rfl rfl
  · rw [Atapi.dataInw_end (hs.flagged.inBounds.block_read hleft)] at hin
    cases hin
    exact hs

theorem accounted_reason (hs : s.Recorded) (disk : Disk) :
    Accounted diskFd disk s (.inb (ataRegSectorCount primaryReg)) := by
  have hflags := hs.flagged
  by_cases hsel : s.device.selectedDrive = ataPortMaster
  · obtain ⟨b, device, hsig, hcases⟩ := Atapi.signatureInb_cases disk
      (ataRegSectorCount primaryReg) diskFd.toInt64.toUInt64 s.device
    have hd := Atapi.flagged_signatureInb hflags hsig
    have he : ioHandle (atapiTable diskFd) disk s.device (.inb (ataRegSectorCount primaryReg)) =
        .ok (device, .inb (some b)) := Atapi.handle_inb_sectorCount hsig
    rcases hcases with ⟨rfl, hnone⟩ | ⟨-, hsend, -, rfl⟩ | ⟨-, hsend, hreceive, -, rfl⟩
    · -- nothing is open
      obtain ⟨-, hreceive⟩ := hnone hsel rfl
      refine ⟨_, step_quiet he rfl (decide_eq_false fun h => ?_), hs, Or.inl ⟨rfl, fun hc => ?_⟩⟩
      · exact absurd (hreceive.symm.trans h.2.2.2) (by decide)
      · have hread : s.device.byteRead ≠ 0 := fun h => by
          have hpos := hc.2.2.2.1
          rw [h] at hpos
          exact absurd hpos (by decide)
        exact absurd (hreceive.symm.trans (hflags.receiving_iff.mpr hread)) (by decide)
    · -- a transfer is ended
      refine ⟨_, step_quiet he rfl (decide_eq_false fun h => ?_), hs.quiet hd rfl rfl,
        Or.inl ⟨rfl, fun hc => ?_⟩⟩
      · exact absurd (hsend.symm.trans h.2.2.1) (by decide)
      · exact absurd (hsend.symm.trans hc.2.2.1) (by decide)
    · -- the packet is run
      refine ⟨_, step_runs he rfl (decide_eq_true ⟨rfl, hsel, hsend, hreceive⟩),
        ⟨hd, rfl, fun _ _ h => nomatch h⟩,
        Or.inr ⟨rfl, fun hc => Nat.ne_of_lt hc.2.2.2.2, fun hne => ?_⟩⟩
      have hread := hflags.receiving_iff.mp hreceive
      have hpos : s.device.byteRead.toNat ≠ 0 := fun h => hread (UInt32.toNat_inj.mp h)
      exact ⟨rfl, hsel, hsend, Nat.pos_of_ne_zero hpos,
        Nat.lt_of_le_of_ne hflags.inBounds.byteRead_le hne⟩
  · have hruns : s.device.runsPacket (.inb (ataRegSectorCount primaryReg)) = false :=
      decide_eq_false fun h => hsel h.2.1
    exact ⟨_, step_quiet (Atapi.handle_inb_unselected hsel) rfl hruns, hs,
      Or.inl ⟨rfl, fun hc => hsel hc.2.1⟩⟩

/-- **Every access is accounted for.** -/
theorem accounted (hs : s.Recorded) (disk : Disk) (ha : a.port ≠ 0xFFFF) :
    Accounted diskFd disk s a := by
  by_cases hacts : Atapi.acts a = true
  · rcases Atapi.acts_cases hacts with ⟨port, data, rfl, hport⟩ | ⟨data, rfl⟩ | rfl | rfl
    · exact ⟨_, step_quiet (Atapi.handle_outb_select hport disk data s.device) rfl rfl,
        hs.quiet (hs.flagged.select data) rfl rfl, Or.inl ⟨rfl, fun hc => nomatch hc.1⟩⟩
    · exact accounted_outw hs disk data
    · exact accounted_inw hs disk
    · exact accounted_reason hs disk
  · obtain ⟨answer, he⟩ := Atapi.handle_other diskFd ha (Bool.not_eq_true _ ▸ hacts) s.device
    have hne : ∀ access, Atapi.acts access = true → a ≠ access := by
      rintro access haccess rfl
      exact hacts haccess
    have hword : s.device.wordStored a = none := by
      cases a with
      | outw port data => exact if_neg fun h => hacts (decide_eq_true h.1)
      | outb port data => rfl
      | inb port => rfl
      | inw port => rfl
    exact ⟨_, step_quiet (he disk s.device rfl) hword (decide_eq_false fun h => hne _ rfl h.1), hs,
      Or.inl ⟨rfl, fun hc => hne _ rfl hc.1⟩⟩

end Step

end PacketSession

/-- **Whose words a packet is made of.**  In every run of the guest, each packet that is run is
six words stored since the packet before it, all along the run, exactly when the guest never
reads the interrupt reason, with the master selected and no transfer open, after one to five
words of a packet. -/
theorem atapi_packets_own_iff {diskFd : Int32} {table : HandlerTable Disk Atapi}
    (ht : atapiInit HandlerTable.zero diskFd = .ok table) {accesses : List (Disk × PortAccess)}
    {s : Atapi} (hr : Runs.run (Atapi.step table) Atapi.start accesses = .ok s) :
    Runs.AlwaysAlong (PacketSession.step table) PacketSession.AllOwn PacketSession.start accesses ↔
      Runs.EachStep (Atapi.step table) (fun s access => ¬ s.CutsPacket access.2) Atapi.start
        accesses := by
  rw [atapiInit_zero] at ht
  cases ht
  have hport : ∀ s access s', Atapi.step (atapiTable diskFd) s access = .ok s' →
      access.2.port ≠ 0xFFFF := by
    intro s access s' he
    obtain ⟨r, hio, -⟩ := bind_eq_ok.mp he
    exact ioHandle_port_ne hio
  have hrecord := PacketSession.step_device (atapiTable diskFd)
  rw [show Atapi.start = PacketSession.start.device from rfl,
    ← Runs.eachStep_recorded hrecord (r := PacketSession.start)]
  have hports := (Runs.eachStep_recorded hrecord (r := PacketSession.start)).mpr
    (Runs.eachStep_of_run hport hr)
  refine Runs.alwaysAlong_iff_eachStep (I := PacketSession.Recorded) ?_ ?_
    PacketSession.recorded_start (fun _ h => absurd h List.not_mem_nil) hports
  · -- a packet that is not cut is run with six words
    rintro s ⟨disk, a⟩ hs hown ha hcut
    obtain ⟨s', he, hs', ⟨hsame, -⟩ | ⟨hnew, hiff⟩⟩ := PacketSession.accounted hs disk ha
    · exact ⟨s', he, hs', fun e h => hown e (hsame ▸ h)⟩
    · refine ⟨s', he, hs', fun e h => ?_⟩
      rw [hnew] at h
      rcases List.mem_append.mp h with hmem | hmem
      · exact hown e hmem
      · rw [List.mem_singleton.mp hmem, hs.own_iff]
        exact not_not.mp fun hne => hcut (hiff.mpr hne)
  · -- and one that is cut is not
    rintro s ⟨disk, a⟩ s' hs hown ha hcut he hown'
    obtain ⟨s₁, he₁, -, ⟨-, hno⟩ | ⟨hnew, hiff⟩⟩ := PacketSession.accounted hs disk ha
    · exact hcut hno
    · rw [he] at he₁
      cases he₁
      have hlast := hown' ⟨s.device.currPkt, s.words⟩ (by
        rw [hnew]
        exact List.mem_append_right _ List.mem_cons_self)
      exact hiff.mp (not_not.mp hcut) (hs.own_iff.mp hlast)

/-- Two packets of six words, each run once it is whole. -/
theorem atapi_packets_own_iff_two :
    let disk : Disk := fun _ _ => []
    let packet : ScsiPacket := #v[0xA8, 0, 0, 0, 0, 0, 0, 0, 0, 1, 0, 0]
    let accesses : List (Disk × PortAccess) :=
      (List.replicate 2 (packet.words ++ [PortAccess.inb 0x1F2])).flatten.map (disk, ·)
    ∃ s, Runs.run (Atapi.step (atapiTable 3)) Atapi.start accesses = .ok s ∧
      (Runs.AlwaysAlong (PacketSession.step (atapiTable 3)) PacketSession.AllOwn
          PacketSession.start accesses ↔
        Runs.EachStep (Atapi.step (atapiTable 3)) (fun s access => ¬ s.CutsPacket access.2)
          Atapi.start accesses) := by
  intro disk packet accesses
  obtain ⟨s, hs, -⟩ := exists_of_okAnd (p := fun _ => true)
    (show okAnd (Runs.run (Atapi.step (atapiTable 3)) Atapi.start accesses) _ = true by
      decide +kernel)
  exact ⟨s, hs, atapi_packets_own_iff (atapiInit_zero 3) hs⟩

/-- After a whole packet one word is enough: the packet that is run has ten bytes of the one
before it. -/
theorem atapi_packet_left_over :
    let disk : Disk := fun _ _ => []
    let packet : ScsiPacket := #v[0xA8, 0, 0, 0, 0, 5, 0, 0, 0, 1, 0, 0]
    let accesses : List (Disk × PortAccess) :=
      (packet.words ++ [PortAccess.inb 0x1F2, .outw 0x1F0 0x00A8, .inb 0x1F2]).map (disk, ·)
    (∃ s, Runs.run (PacketSession.step (atapiTable 3)) PacketSession.start accesses = .ok s ∧
        s.executed.map Executed.packet = [packet, packet] ∧
        (s.executed.map Executed.words)[1]? = some [0x00A8]) ∧
      ¬ Runs.AlwaysAlong (PacketSession.step (atapiTable 3)) PacketSession.AllOwn
        PacketSession.start accesses := by
  intro disk packet accesses
  obtain ⟨s, hs, hp⟩ := exists_of_okAnd
    (x := Runs.run (PacketSession.step (atapiTable 3)) PacketSession.start accesses)
    (p := fun s => s.executed.map Executed.packet = [packet, packet] ∧
      (s.executed.map Executed.words)[1]? = some [0x00A8]) (by decide +kernel)
  have hp := of_decide_eq_true hp
  refine ⟨⟨s, hs, hp⟩, fun h => ?_⟩
  obtain ⟨s', hs', hown⟩ := h.last
  rw [hs] at hs'
  cases hs'
  -- its one word is not six
  obtain ⟨e, he, hwords⟩ := List.mem_map.mp (List.mem_of_getElem? hp.2)
  have hlen := congrArg List.length (show e.words = _ from hown e he)
  rw [hwords, List.length_map, List.length_range] at hlen
  exact absurd hlen (by decide)

end BlackHV
