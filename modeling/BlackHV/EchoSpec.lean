import BlackHV.EchoProgram
import BlackHV.Runs

/-! # The echo, abstractly

The line of the guest, and then what the user types, go through the process: `worker0` puts
the lines into one FIFO of the serial port, the guest takes byte after byte out of it and
puts it into the other, and `worker1` takes it from there.  `carried` is all of that at one
time, in order.

The guest waits until the port is ready to take a byte, but the port always says it is: a
byte that the guest sends while the FIFO is full is lost, and nothing else ever is.
-/
namespace BlackHV

open Runs

/-! ## The abstract system -/

/-- The guest, the two FIFOs of the port, and what has been printed. -/
structure EchoSpec (n : Nat) where
  guest : Guest32
  fifos : SerialFifos n
  shown : List UInt8

namespace EchoSpec
variable {n : Nat}

/-- The next access of the guest. -/
def access (stores : List ByteStore) (a : EchoSpec n) : EchoSpec n :=
  match a.guest with
  | .writeStatus c rest => { a with guest := .writeData c rest }
  | .writeData c rest =>
      { a with guest := .written stores rest
               fifos := { a.fifos with guest := (a.fifos.guest.push [c]).1 } }
  | .storing _ left => { a with guest := .draw left }
  | .readStatus => if a.fifos.host.isEmpty then a else { a with guest := .readData }
  | .readData =>
      { a with guest := .writeStatus ((a.fifos.host.pop 1).2.headD 0) none
               fifos := { a.fifos with host := (a.fifos.host.pop 1).1 } }

def step (stores : List ByteStore) (a : EchoSpec n) : EchoEvent → EchoSpec n × EchoAnswer
  | .guest _ => (a.access stores, .guest)
  | .stack _ _ => (a, .stack)
  | .worker0 line =>
      ({ a with fifos := { a.fifos with host := (a.fifos.host.push line).1 } },
        .worker0 (a.fifos.host.push line).2)
  | .worker1 =>
      ({ a with fifos := { a.fifos with guest := (a.fifos.guest.pop 1).1 }
                shown := a.shown ++ (a.fifos.guest.pop 1).2 }, .worker1)

end EchoSpec

/-! ## What is carried -/

namespace EchoSpec
variable {n : Nat} {stores : List ByteStore} {a : EchoSpec n}

def carried (a : EchoSpec n) : List UInt8 :=
  a.shown ++ (a.fifos.guest.items ++ (a.guest.holds ++ a.fifos.host.items))

/-- The guest reads a byte only where there is one. -/
def Sound (a : EchoSpec n) : Prop := a.guest = .readData → a.fifos.host.items ≠ []

/-- A byte that is sent is lost. -/
def Loses (a : EchoSpec n) : EchoEvent → Prop
  | .guest _ => (∃ b rest, a.guest = .writeData b rest) ∧ a.fifos.guest.items.length = n
  | _ => False

theorem holds_draw (stores : List ByteStore) : (Guest32.draw stores).holds = [] := by
  rcases stores with _ | ⟨store, left⟩
  · rfl
  · rfl

theorem draw_ne (stores : List ByteStore) : Guest32.draw stores ≠ .readData := by
  rcases stores with _ | ⟨store, left⟩
  · exact fun h => nomatch h
  · exact fun h => nomatch h

theorem holds_written (stores : List ByteStore) (rest : Option (List UInt8)) :
    (Guest32.written stores rest).holds = rest.getD [] := by
  rcases rest with _ | _ | ⟨b, rest⟩
  · rfl
  · exact holds_draw stores
  · rfl

theorem written_ne (stores : List ByteStore) (rest : Option (List UInt8)) :
    Guest32.written stores rest ≠ .readData := by
  rcases rest with _ | _ | ⟨b, rest⟩
  · exact fun h => nomatch h
  · exact draw_ne stores
  · exact fun h => nomatch h

/-- A byte is in the queue until the guest takes it. -/
theorem Sound.step (h : a.Sound) (stores : List ByteStore) (e : EchoEvent) :
    (a.step stores e).1.Sound := by
  rcases e with block | ⟨block, store⟩ | line | _
  · intro hread
    unfold EchoSpec.step access at hread ⊢
    rcases hg : a.guest with ⟨b, rest⟩ | ⟨b, rest⟩ | ⟨store, left⟩ | _ | _
    · simp only [hg] at hread
      cases hread
    · simp only [hg] at hread
      exact absurd hread (written_ne stores rest)
    · simp only [hg] at hread
      exact absurd hread (draw_ne left)
    · simp only [hg] at hread ⊢
      by_cases hempty : a.fifos.host.isEmpty = true
      · rw [if_pos hempty] at hread
        rw [hg] at hread
        cases hread
      · rw [if_neg hempty]
        exact fun hnil => hempty (List.isEmpty_iff.mpr hnil)
    · simp only [hg] at hread
      cases hread
  · exact h
  · intro hread hnil
    exact h hread (List.append_eq_nil_iff.mp hnil).1
  · exact h

theorem Sound.run (h : a.Sound) (stores : List ByteStore) (events : List EchoEvent) :
    (traceTotal (EchoSpec.step stores) a events).1.Sound := by
  induction events generalizing a with
  | nil => exact h
  | cons e events ih => exact ih (h.step stores e)

theorem carried_worker0 (line : List UInt8) :
    (a.step stores (.worker0 line)).1.carried =
      a.carried ++ (EchoEvent.worker0 line).input (a.step stores (.worker0 line)).2 := by
  have htake : line.take a.fifos.host.room = line.take (min line.length a.fifos.host.room) := by
    rw [List.take_eq_take_iff]
    omega
  unfold carried
  simp only [EchoSpec.step, BoundedFifo.push, EchoEvent.input, List.append_assoc, htake]

theorem carried_worker1 : (a.step stores .worker1).1.carried = a.carried := by
  unfold carried
  simp only [EchoSpec.step, BoundedFifo.pop]
  rw [List.append_assoc, ← List.append_assoc (a.fifos.guest.items.take 1), List.take_append_drop]

/-- Where nothing is lost, an access of the guest moves a byte on. -/
theorem carried_access (stores : List ByteStore) (h : a.Sound)
    (hroom : ∀ b rest, a.guest = .writeData b rest → a.fifos.guest.items.length < n) :
    (a.access stores).carried = a.carried := by
  unfold access carried
  rcases hg : a.guest with ⟨b, rest⟩ | ⟨b, rest⟩ | ⟨store, left⟩ | _ | _
  · rfl
  · have hlt := hroom b rest hg
    have htake : [b].take a.fifos.guest.room = [b] :=
      List.take_of_length_le (by unfold BoundedFifo.room; rw [List.length_singleton]; omega)
    have hholds : (Guest32.writeData b rest).holds = b :: rest.getD [] := rfl
    simp only [holds_written, hholds, BoundedFifo.push, htake, List.append_assoc,
      List.cons_append, List.nil_append]
  · have hholds : (Guest32.storing store left).holds = [] := rfl
    simp only [holds_draw, hholds]
  · dsimp only
    split
    · rw [hg]
    · rfl
  · obtain ⟨b, items, hitems⟩ := List.exists_cons_of_ne_nil (h hg)
    simp only [BoundedFifo.pop, hitems, Guest32.holds]
    rfl

variable (stores) in
/-- A byte that finds no room is gone, and nothing else. -/
theorem carried_lost {b : UInt8} {rest : Option (List UInt8)} (hg : a.guest = .writeData b rest)
    (hfull : a.fifos.guest.items.length = n) :
    a.carried = a.shown ++ (a.fifos.guest.items ++ b :: (rest.getD [] ++ a.fifos.host.items)) ∧
      (a.access stores).carried =
        a.shown ++ (a.fifos.guest.items ++ (rest.getD [] ++ a.fifos.host.items)) := by
  have htake : [b].take a.fifos.guest.room = [] := by
    rw [BoundedFifo.room, hfull, Nat.sub_self, List.take_zero]
  unfold access carried
  rw [hg]
  refine ⟨rfl, ?_⟩
  simp only [holds_written, BoundedFifo.push, htake, List.append_nil]

/-- A step that loses nothing. -/
theorem carried_step (h : a.Sound) {e : EchoEvent} (hkeeps : ¬ a.Loses e) :
    (a.step stores e).1.carried = a.carried ++ e.input (a.step stores e).2 := by
  rcases e with block | ⟨block, store⟩ | line | _
  · refine (carried_access stores h fun b rest hg => ?_).trans (List.append_nil _).symm
    exact Nat.lt_of_le_of_ne a.fifos.guest.bounded fun hfull => hkeeps ⟨⟨b, rest, hg⟩, hfull⟩
  · exact (List.append_nil _).symm
  · exact carried_worker0 line
  · exact carried_worker1.trans (List.append_nil _).symm

/-- A step that loses a byte. -/
theorem carried_step_lost {e : EchoEvent} (h : a.Loses e) :
    (a.step stores e).1.carried.Sublist (a.carried ++ e.input (a.step stores e).2) ∧
      (a.step stores e).1.carried.length <
        (a.carried ++ e.input (a.step stores e).2).length := by
  rcases e with block | ⟨block, store⟩ | line | _
  · obtain ⟨⟨b, rest, hg⟩, hfull⟩ := h
    obtain ⟨hbefore, hafter⟩ := carried_lost stores hg hfull
    have hinput : (EchoEvent.guest block).input (a.step stores (.guest block)).2 = [] := rfl
    have hstep : (a.step stores (.guest block)).1 = a.access stores := rfl
    rw [hinput, List.append_nil, hstep, hbefore, hafter]
    constructor
    · exact ((List.sublist_cons_self b _).append_left _).append_left _
    · simp only [List.length_append, List.length_cons]
      omega
  · exact h.elim
  · exact h.elim
  · exact h.elim

/-! ## What comes out -/

end EchoSpec

/-- Rounds in which `worker1` reads a byte and the guest goes on. -/
def echoRounds (blocks : List KvmBlock) : List EchoEvent :=
  blocks.flatMap fun block => [.worker1, .guest block]

namespace EchoSpec
variable {n : Nat} {stores : List ByteStore} {a : EchoSpec n}

/-- All that has come in has been printed. -/
structure AtRest (a : EchoSpec n) : Prop where
  guest : a.guest = .readStatus
  sent : a.fifos.guest.items = []
  received : a.fifos.host.items = []

theorem AtRest.shown_eq (h : a.AtRest) : a.shown = a.carried := by
  rw [carried, h.guest, h.sent, h.received]
  exact (List.append_nil _).symm

end EchoSpec

/-- A bound for the accesses of the guest up to the next byte that it reads. -/
def Guest32.left (stores : List ByteStore) : Guest32 → Nat
  | writeStatus _ rest => 4 + rest.elim 0 fun rest => 5 * rest.length + (stores.length + 1)
  | writeData _ rest => 3 + rest.elim 0 fun rest => 5 * rest.length + (stores.length + 1)
  | storing _ left => left.length + 2
  | readStatus => 1
  | readData => 0

namespace EchoSpec
variable {n : Nat} {stores : List ByteStore} {a : EchoSpec n}

theorem left_draw (stores left : List ByteStore) :
    (Guest32.draw left).left stores = left.length + 1 := by
  rcases left with _ | ⟨store, left⟩
  · rfl
  · rfl

theorem left_written (stores : List ByteStore) (b : UInt8) (rest : Option (List UInt8)) :
    (Guest32.written stores rest).left stores + 1 < (Guest32.writeData b rest).left stores := by
  rcases rest with _ | _ | ⟨c, rest⟩
  · exact (by decide : 1 + 1 < 3 + 0)
  · have hdraw : (Guest32.written stores (some [])).left stores = stores.length + 1 :=
      left_draw stores stores
    rw [hdraw]
    simp only [Guest32.left, Option.elim_some, List.length_nil]
    omega
  · simp only [Guest32.written, Guest32.writeStr, Guest32.left, Option.elim_some, List.length_cons]
    omega

/-- What is left to do until everything has been printed. -/
def left (stores : List ByteStore) (a : EchoSpec n) : Nat :=
  a.guest.left stores + a.fifos.guest.items.length + 5 * a.fifos.host.items.length

theorem left_pos (stores : List ByteStore) (h : a.Sound) : 0 < a.left stores := by
  unfold left
  rcases hg : a.guest with ⟨b, rest⟩ | ⟨b, rest⟩ | ⟨store, left⟩ | _ | _
  · simp only [Guest32.left]
    omega
  · simp only [Guest32.left]
    omega
  · simp only [Guest32.left]
    omega
  · simp only [Guest32.left]
    omega
  · have hsome := List.length_pos_of_ne_nil (h hg)
    omega

/-- `worker1` reads a byte, and the guest goes on. -/
def round (stores : List ByteStore) (a : EchoSpec n) : EchoSpec n :=
  (a.step stores .worker1).1.access stores

theorem Sound.round (h : a.Sound) : (a.round stores).Sound := by
  let block : KvmBlock := ⟨[0], 0, Nat.one_pos, Vector.replicate 8 0⟩
  exact (h.step stores .worker1).step stores (.guest block)

/-- In a round there is room for a byte. -/
theorem room_worker1 (hn : 1 ≤ n) : (a.step stores .worker1).1.fifos.guest.items.length < n := by
  have hbound := a.fifos.guest.bounded
  show (a.fifos.guest.items.drop 1).length < n
  rw [List.length_drop]
  omega

theorem carried_round (stores : List ByteStore) (h : a.Sound) (hn : 1 ≤ n) :
    (a.round stores).carried = a.carried := by
  have haccess := carried_access stores (h.step stores .worker1)
    fun _ _ _ => room_worker1 hn
  rw [round, haccess, carried_worker1]

/-- Nothing happens any more. -/
theorem AtRest.round (h : a.AtRest) : a.round stores = a := by
  obtain ⟨guest, ⟨⟨sent, hsent⟩, ⟨received, hreceived⟩⟩, shown⟩ := a
  obtain ⟨hg, hs, hr⟩ := h
  dsimp only at hg hs hr
  subst hg hs hr
  show EchoSpec.mk _ _ (shown ++ []) = _
  rw [List.append_nil]
  rfl

/-- An access of the guest that is not a wait. -/
theorem left_access (stores : List ByteStore) (h : a.Sound)
    (hwait : ¬ (a.guest = .readStatus ∧ a.fifos.host.items = [])) :
    (a.access stores).left stores < a.left stores := by
  unfold access left
  rcases hg : a.guest with ⟨b, rest⟩ | ⟨b, rest⟩ | ⟨store, left⟩ | _ | _
  · simp only [Guest32.left]
    omega
  · have hless := left_written stores b rest
    have hpush : (a.fifos.guest.push [b]).1.items.length ≤ a.fifos.guest.items.length + 1 := by
      simp only [BoundedFifo.push, List.length_append]
      have htake := List.length_take_le' a.fifos.guest.room [b]
      rw [List.length_singleton] at htake
      omega
    dsimp only
    omega
  · have hstoring : (Guest32.storing store left).left stores = left.length + 2 := rfl
    simp only [left_draw, hstoring]
    omega
  · have hsome : ¬ a.fifos.host.isEmpty = true := fun hempty =>
      hwait ⟨hg, List.isEmpty_iff.mp hempty⟩
    simp only [if_neg hsome, Guest32.left]
    omega
  · obtain ⟨b, items, hitems⟩ := List.exists_cons_of_ne_nil (h hg)
    simp only [Guest32.left, BoundedFifo.pop, hitems, List.drop_succ_cons, List.drop_zero,
      List.length_cons, Option.elim_none]
    omega

/-- Every round brings the end closer. -/
theorem left_round (stores : List ByteStore) (h : a.Sound) (hrest : ¬ a.AtRest) :
    (a.round stores).left stores < a.left stores := by
  have hless : (a.step stores .worker1).1.left stores =
      a.left stores - min 1 a.fifos.guest.items.length := by
    unfold left
    simp only [EchoSpec.step, BoundedFifo.pop, List.length_drop]
    omega
  by_cases hwait : a.guest = .readStatus ∧ a.fifos.host.items = []
  · -- the guest waits, and `worker1` has a byte to read
    have hsent : 0 < a.fifos.guest.items.length :=
      List.length_pos_of_ne_nil fun hnil => hrest ⟨hwait.1, hnil, hwait.2⟩
    have hsame : a.round stores = (a.step stores .worker1).1 := by
      have hempty : (a.step stores .worker1).1.fifos.host.isEmpty = true :=
        List.isEmpty_iff.mpr hwait.2
      have hguest : (a.step stores .worker1).1.guest = .readStatus := hwait.1
      unfold round access
      rw [hguest]
      exact if_pos hempty
    have hle : a.fifos.guest.items.length ≤ a.left stores := by
      unfold left
      omega
    rw [hsame]
    omega
  · have haccess := left_access stores (h.step stores .worker1) hwait
    unfold round
    omega

/-- **After enough rounds all has been printed**, and nothing has been lost on the way. -/
theorem rest_of_rounds (h : a.Sound) (hn : 1 ≤ n) {blocks : List KvmBlock}
    (hk : a.AtRest ∨ a.left stores ≤ blocks.length) :
    (traceTotal (EchoSpec.step stores) a (echoRounds blocks)).1.AtRest ∧
      (traceTotal (EchoSpec.step stores) a (echoRounds blocks)).1.carried = a.carried := by
  induction blocks generalizing a with
  | nil =>
      refine ⟨hk.resolve_right fun hzero => ?_, rfl⟩
      exact absurd (left_pos stores h) (Nat.not_lt_of_le hzero)
  | cons block blocks ih =>
      have hround : (traceTotal (EchoSpec.step stores) a (echoRounds (block :: blocks))).1 =
          (traceTotal (EchoSpec.step stores) (a.round stores) (echoRounds blocks)).1 := rfl
      rw [hround, ← carried_round stores h hn]
      refine ih h.round ?_
      by_cases hrest : a.AtRest
      · rw [hrest.round]
        exact .inl hrest
      · have hless := left_round stores h hrest
        have hlen := hk.resolve_left hrest
        rw [List.length_cons] at hlen
        exact .inr (by omega)

end EchoSpec

end BlackHV
