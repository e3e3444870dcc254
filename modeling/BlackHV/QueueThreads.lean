import BlackHV.QueueCalls

/-! # Threads on one queue

Any number of threads call `queue_write` and `queue_read` on one queue.  The mutex
makes each body one step; the guard is evaluated before the mutex is taken, so a
call is two steps, its guard and its body, and the steps of different calls
alternate freely.

The guard's answer can be stale when the body runs, and the do-while loops move a
byte before they test anything.  `queue_threads_conserve_iff` says exactly what
that costs: the bytes read, followed by the bytes in the queue, are the bytes
accepted, all along a run, if and only if every body runs in a state in which its
guard still holds.
-/
namespace BlackHV

/-- Where a thread is: outside any call, or past the guard of one, with its body
still to run. -/
inductive Pending where
  | idle
  | write (buffer : List UInt8)
  | read (size : Nat)
  deriving DecidableEq

/-- A queue and the threads that use it, with the bytes the bodies of `queue_write`
have accepted and those the bodies of `queue_read` have returned, each in the
order of the bodies. -/
structure QueueThreads (Thread : Type) where
  queue : Queue
  pending : Thread → Pending
  accepted : List UInt8
  returned : List UInt8

/-- A step of a thread: it makes a call, whose guard it evaluates, or it runs the
body of the call it is in. -/
inductive ThreadStep (Thread : Type) where
  | callWrite (t : Thread) (buffer : List UInt8)
  | callRead (t : Thread) (size : Nat)
  | body (t : Thread)

namespace QueueThreads
variable {Thread : Type} [DecidableEq Thread]

/-- Every thread is outside the queue `q`. -/
def start (q : Queue) : QueueThreads Thread :=
  { queue := q, pending := fun _ => .idle, accepted := [], returned := [] }

/-- Thread `t` is now at `p`. -/
def moveTo (s : QueueThreads Thread) (t : Thread) (p : Pending) : QueueThreads Thread :=
  { s with pending := fun u => if u = t then p else s.pending u }

/-- One step.  A thread makes no call while it is in one, and a call that its guard
turns down returns at once. -/
def step (s : QueueThreads Thread) : ThreadStep Thread → Except Fault (QueueThreads Thread)
  | .callWrite t buffer =>
      .ok (if s.pending t = .idle ∧ queueWriteGuard s.queue buffer.length then
        s.moveTo t (.write buffer) else s)
  | .callRead t size =>
      .ok (if s.pending t = .idle ∧ queueReadGuard s.queue size then
        s.moveTo t (.read size) else s)
  | .body t =>
      match s.pending t with
      | .idle => .ok s
      | .write buffer => do
          let (queue, i) ← queueWriteBody s.queue buffer
          .ok { s.moveTo t .idle with queue, accepted := s.accepted ++ buffer.take i }
      | .read size => do
          let (queue, bytes) ← queueReadBody s.queue size
          .ok { s.moveTo t .idle with queue, returned := s.returned ++ bytes }

/-- No byte is lost, duplicated or invented: the bytes returned, followed by those
in the queue, are the bytes accepted. -/
def Conserved (s : QueueThreads Thread) : Prop :=
  s.returned ++ s.queue.contents = s.accepted

/-- The step is not the body of a call whose guard, evaluated again now, would turn
the call down. -/
def GuardHolds (s : QueueThreads Thread) : ThreadStep Thread → Prop
  | .body t =>
      match s.pending t with
      | .idle => True
      | .write buffer => queueWriteGuard s.queue buffer.length = true
      | .read size => queueReadGuard s.queue size = true
  | _ => True

end QueueThreads

/-! ## The bodies, whatever the guard says -/

namespace Queue

/-- The loop of `queue_write` stores at least one byte. -/
theorem writeLoop_pos {q q' : Queue} {buffer : List UInt8} {i : Nat}
    (h : q.writeLoop buffer = .ok (q', i)) :
    0 < i ∧ i ≤ buffer.length ∧ q'.bufferSize = q.bufferSize := by
  induction buffer generalizing q i with
  | nil => cases h
  | cons b rest ih =>
      -- a loop that returned has stored at `rear`
      have hr : q.rear < q.bufferSize := by
        apply Classical.byContradiction
        intro hn
        rw [writeLoop, store, if_neg (by rwa [q.sized])] at h
        cases h
      rw [writeLoop_cons hr] at h
      split at h
      · obtain ⟨⟨q₁, j⟩, he, hj⟩ := bind_eq_ok.mp h
        cases hj
        obtain ⟨-, hle, hs⟩ := ih he
        exact ⟨Nat.succ_pos _, Nat.succ_le_succ hle, hs⟩
      · cases h
        exact ⟨Nat.one_pos, Nat.succ_le_succ (Nat.zero_le _), rfl⟩

/-- The loop of `queue_read` reads at least one byte. -/
theorem readLoop_ne_nil {q q' : Queue} {left : Nat} {bytes : List UInt8}
    (h : q.readLoop left = .ok (q', bytes)) : bytes ≠ [] := by
  cases left with
  | zero => cases h
  | succ left =>
      cases hb : q.buffer[q.front]? with
      | none =>
          rw [readLoop, load, hb] at h
          cases h
      | some b =>
          rw [readLoop_succ hb] at h
          split at h
          · obtain ⟨⟨q₁, rest⟩, -, hj⟩ := bind_eq_ok.mp h
            cases hj
            exact List.cons_ne_nil _ _
          · cases h
            exact List.cons_ne_nil _ _

end Queue

theorem queueWriteBody_pos {q q' : Queue} {buffer : List UInt8} {i : Nat}
    (h : queueWriteBody q buffer = .ok (q', i)) :
    0 < i ∧ i ≤ buffer.length ∧ q'.bufferSize = q.bufferSize := by
  obtain ⟨⟨q₁, j⟩, he, hj⟩ := bind_eq_ok.mp h
  obtain ⟨hpos, hle, hs⟩ := Queue.writeLoop_pos he
  cases hj
  refine ⟨hpos, hle, ?_⟩
  split <;> exact hs

theorem queueReadBody_ne_nil {q q' : Queue} {size : Nat} {bytes : List UInt8}
    (h : queueReadBody q size = .ok (q', bytes)) : bytes ≠ [] := by
  obtain ⟨⟨q₁, bs⟩, he, hj⟩ := bind_eq_ok.mp h
  have := Queue.readLoop_ne_nil he
  cases hj
  exact this

namespace QueueThreads
variable {Thread : Type} [DecidableEq Thread] {s : QueueThreads Thread}

/-! ## One step -/

theorem step_body_write {t : Thread} {buffer : List UInt8} (hp : s.pending t = .write buffer) :
    s.step (.body t) = queueWriteBody s.queue buffer >>= fun r =>
      .ok { s.moveTo t .idle with queue := r.1, accepted := s.accepted ++ buffer.take r.2 } := by
  simp only [step, hp]

theorem step_body_read {t : Thread} {size : Nat} (hp : s.pending t = .read size) :
    s.step (.body t) = queueReadBody s.queue size >>= fun r =>
      .ok { s.moveTo t .idle with queue := r.1, returned := s.returned ++ r.2 } := by
  simp only [step, hp]

/-- A body that runs while its guard holds moves bytes and conserves them. -/
theorem step_conserves (h : ∃ items, s.queue.Represents items) (hc : s.Conserved)
    {e : ThreadStep Thread} (hg : s.GuardHolds e) :
    ∃ s', s.step e = .ok s' ∧ (∃ items, s'.queue.Represents items) ∧ s'.Conserved := by
  obtain ⟨items, hr⟩ := h
  have hc' : s.returned ++ items = s.accepted := hr.contents_eq ▸ hc
  cases e with
  | callWrite t buffer =>
      refine ⟨_, rfl, ?_, ?_⟩ <;> split
      all_goals first
        | exact ⟨items, hr⟩
        | exact hc
  | callRead t size =>
      refine ⟨_, rfl, ?_, ?_⟩ <;> split
      all_goals first
        | exact ⟨items, hr⟩
        | exact hc
  | body t =>
      cases hp : s.pending t with
      | idle => exact ⟨s, by simp only [step, hp], ⟨items, hr⟩, hc⟩
      | write buffer =>
          simp only [GuardHolds, hp] at hg
          obtain ⟨hb, hl⟩ := (queueWriteGuard_iff hr _).mp hg
          obtain ⟨q', he, -, hr'⟩ :=
            queueWriteBody_spec hr hl (mt List.length_eq_zero_iff.mpr hb)
          refine ⟨_, (step_body_write hp).trans (by rw [he]; rfl), ⟨_, hr'⟩, ?_⟩
          show s.returned ++ q'.contents = s.accepted ++ _
          rw [hr'.contents_eq, ← List.append_assoc, hc', List.take_eq_take_min,
            Nat.min_comm]
      | read size =>
          simp only [GuardHolds, hp] at hg
          obtain ⟨hs, hne⟩ := (queueReadGuard_iff hr _).mp hg
          obtain ⟨q', he, -, hr'⟩ := queueReadBody_spec hr hne hs
          refine ⟨_, (step_body_read hp).trans (by rw [he]; rfl), ⟨_, hr'⟩, ?_⟩
          show s.returned ++ _ ++ q'.contents = s.accepted
          rw [hr'.contents_eq, List.append_assoc, List.take_append_drop, hc']

/-- A body that runs after its guard has stopped holding breaks conservation: a
write overwrites bytes of a full queue, a read returns bytes of an empty one. -/
theorem step_breaks {s' : QueueThreads Thread} (h : ∃ items, s.queue.Represents items)
    (hc : s.Conserved) {e : ThreadStep Thread} (hg : ¬ s.GuardHolds e)
    (he : s.step e = .ok s') : ¬ s'.Conserved := by
  obtain ⟨items, hr⟩ := h
  have hc' : s.returned ++ items = s.accepted := hr.contents_eq ▸ hc
  have hlen : s.returned.length + items.length = s.accepted.length := by
    rw [← List.length_append, hc']
  intro hc₁
  have hlen₁ := congrArg List.length hc₁
  cases e with
  | callWrite t buffer => exact hg trivial
  | callRead t size => exact hg trivial
  | body t =>
      cases hp : s.pending t with
      | idle => simp [GuardHolds, hp] at hg
      | write buffer =>
          simp only [GuardHolds, hp, queueWriteGuard_iff hr, not_and, not_lt] at hg
          obtain ⟨⟨q₁, i⟩, hw, hs'⟩ := bind_eq_ok.mp ((step_body_write hp).symm.trans he)
          obtain ⟨hpos, hle, hsize⟩ := queueWriteBody_pos hw
          cases hs'
          -- one byte more was accepted, and no more bytes fit than before
          have hfull := hg (by omega)
          have hcap := q₁.contents_length_le
          simp only [moveTo, List.length_append, List.length_take] at hlen₁
          omega
      | read size =>
          simp only [GuardHolds, hp, queueReadGuard_iff hr, not_and, not_not] at hg
          obtain ⟨⟨q₁, bytes⟩, hw, hs'⟩ := bind_eq_ok.mp ((step_body_read hp).symm.trans he)
          have hpos := List.length_pos_iff.mpr (queueReadBody_ne_nil hw)
          cases hs'
          have hsz : size ≠ 0 := by
            rintro rfl
            cases hw
          -- all accepted bytes were returned already, and one more is
          have hnil := congrArg List.length (hg hsz)
          simp only [moveTo, List.length_append, List.length_nil] at hlen₁ hnil
          omega

end QueueThreads

/-- **Threads conserve the bytes of a queue exactly as long as no guard is stale.**
For any threads and any interleaving of their guards and bodies on a new queue, the
bytes returned, followed by those in the queue, are the bytes accepted in every
state of the run if and only if every body of the run starts in a state in which
the guard of its call still holds. -/
theorem queue_threads_conserve_iff {Thread : Type} [DecidableEq Thread] {n : Nat}
    {queueBlock : Bool} {block : Option (Vector UInt8 n)} {q : Queue} (hn : 1 ≤ n)
    (hq : queueNew n queueBlock block = some q) (steps : List (ThreadStep Thread)) :
    Runs.AlwaysAlong QueueThreads.step QueueThreads.Conserved (QueueThreads.start q) steps ↔
      Runs.EachStep QueueThreads.step QueueThreads.GuardHolds (QueueThreads.start q) steps := by
  obtain ⟨-, hr⟩ := Queue.represents_of_new hn hq
  refine Runs.alwaysAlong_iff_eachStep
    (I := fun s : QueueThreads Thread => ∃ items, s.queue.Represents items)
    (fun _ _ hI hP _ hC => QueueThreads.step_conserves hI hP hC)
    (fun _ _ _ hI hP _ hC he => QueueThreads.step_breaks hI hP hC he) ⟨[], hr⟩ ?_
    (Runs.eachStep_of_forall (E := fun _ => True) fun _ _ => trivial)
  show [] ++ q.contents = []
  rw [hr.contents_eq, List.append_nil]

/-- One writer and one reader on a queue of one byte, each body right after its
guard. -/
theorem queue_threads_conserve_iff_one :
    Runs.AlwaysAlong (@QueueThreads.step Nat _) QueueThreads.Conserved
        (QueueThreads.start
          { bufferSize := 1, front := 0, rear := 0, isFull := 0, buffer := [0], sized := rfl })
        [.callWrite 0 [7], .body 0, .callRead 1 4, .body 1] ↔
      Runs.EachStep QueueThreads.step QueueThreads.GuardHolds
        (QueueThreads.start
          { bufferSize := 1, front := 0, rear := 0, isFull := 0, buffer := [0], sized := rfl })
        [.callWrite 0 [7], .body 0, .callRead 1 4, .body 1] :=
  queue_threads_conserve_iff (by decide) (show queueNew 1 true (some #v[0]) = some _ from rfl) _

/-- Two writers pass the guard of an empty queue of one byte; the body of the second
overwrites the byte of the first. -/
theorem queue_threads_lose_byte :
    ∃ q s, queueNew 1 true (some #v[0]) = some q ∧
      Runs.run (@QueueThreads.step Nat _) (QueueThreads.start q)
        [.callWrite 0 [1], .callWrite 1 [2], .body 0, .body 1] = .ok s ∧
      s.accepted = [1, 2] ∧ s.returned = [] ∧ s.queue.contents = [2] ∧ ¬ s.Conserved :=
  ⟨_, _, rfl, rfl, rfl, rfl, rfl, by unfold QueueThreads.Conserved; decide⟩

end BlackHV
