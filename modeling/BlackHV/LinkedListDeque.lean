import BlackHV.LinkedListBackLinks

/-! # The list as a double-ended queue

Both pops clear the head and the tail where they take the only node, and then overwrite
one of them with a link of that node.  `linked_list_pop_front` writes its `next` link, which
is `NULL`.  `linked_list_pop_tail` writes its `prev` link into the tail, and that is the
address of a freed node if something was ever added behind the node while it was the
first.  From then on the list is empty and has a tail.
-/
namespace BlackHV

open Chains

variable {Value : Type}

/-- A call on a list used as a queue, with what `malloc` returns to `linked_list_add`. -/
inductive DequeCall (Value : Type) where
  | add (value : Value) (elt : Option Nat)
  | popFront
  | popTail
  deriving DecidableEq

/-- What a call returns. -/
inductive DequeReturn (Value : Type) where
  | added (result : UInt32)
  | popped (value : Option Value)
  deriving DecidableEq

namespace LinkedList

/-- One call on the list. -/
def dequeCall (list : LinkedList Value) :
    DequeCall Value → Except Fault (LinkedList Value × DequeReturn Value)
  | .add value elt => do
      let (list, added) ← linkedListAdd list value elt
      .ok (list, .added added)
  | .popFront => do
      let (list, value) ← linkedListPopFront list
      .ok (list, .popped value)
  | .popTail => do
      let (list, value) ← linkedListPopTail list
      .ok (list, .popped value)

/-- One call on the list, and `linked_list_size` after it. -/
def dequeStep (list : LinkedList Value) (c : DequeCall Value) :
    Except Fault (LinkedList Value × DequeReturn Value × Nat) := do
  let (list, returned) ← list.dequeCall c
  .ok (list, returned, (linkedListSize list).toNat)

/-- `malloc` returns a block that is not in use. -/
def DequeAllowed (list : LinkedList Value) : DequeCall Value → Prop
  | .add _ (some a) => list.heap a = none
  | _ => True

end LinkedList

/-! ## The queue -/

/-- A double-ended queue of values, the oldest one first: what a call leaves in it, what the
call returns, and how many values remain. -/
def dequeSpec (items : List Value) : DequeCall Value → List Value × DequeReturn Value × Nat
  | .add value (some _) => (items ++ [value], .added 1, (items ++ [value]).length)
  | .add _ none => (items, .added 0, items.length)
  | .popFront => (items.tail, .popped items.head?, items.tail.length)
  | .popTail => (items.dropLast, .popped items.getLast?, items.dropLast.length)

/-- What has to be known of a history to tell what the code does: the values in the queue;
whether one was added behind the first of them while it was the first; and whether
`linked_list_pop_tail` has taken such a first value as the last one. -/
structure DequeTrack (Value : Type) where
  items : List Value
  behind : Bool
  stale : Bool

namespace DequeTrack

/-- Nothing has happened. -/
def new : DequeTrack Value := ⟨[], false, false⟩

/-- The history goes on with a call. -/
def next (t : DequeTrack Value) : DequeCall Value → DequeTrack Value
  | .add value (some _) => ⟨t.items ++ [value], !t.items.isEmpty, t.stale⟩
  | .add _ none => t
  | .popFront => ⟨t.items.tail, false, t.stale⟩
  | .popTail => ⟨t.items.dropLast, t.behind, t.stale || (t.items.length == 1 && t.behind)⟩

/-- The call meets the tail: it adds a value or takes the newest one. -/
def MeetsTail : DequeCall Value → Prop
  | .add _ elt => elt ≠ none
  | .popFront => False
  | .popTail => True

instance (c : DequeCall Value) : Decidable (MeetsTail c) := by
  cases c <;> unfold MeetsTail <;> infer_instance

/-- The call does not meet a stale tail, and the values after it can be counted in 32 bits. -/
def Safe (t : DequeTrack Value) (c : DequeCall Value) : Prop :=
  ¬ (t.stale = true ∧ MeetsTail c) ∧ (t.next c).items.length < 2 ^ 32

instance (t : DequeTrack Value) (c : DequeCall Value) : Decidable (t.Safe c) :=
  inferInstanceAs (Decidable (_ ∧ _))

/-- The queue, with the history beside it. -/
def spec (t : DequeTrack Value) (c : DequeCall Value) :
    DequeTrack Value × DequeReturn Value × Nat :=
  (t.next c, (dequeSpec t.items c).2)

theorem next_items (t : DequeTrack Value) (c : DequeCall Value) :
    (t.next c).items = (dequeSpec t.items c).1 := by
  rcases c with ⟨value, _ | a⟩ | _ | _ <;> rfl

theorem spec_length (t : DequeTrack Value) (c : DequeCall Value) :
    (t.spec c).2.2 = (t.next c).items.length := by
  rcases c with ⟨value, _ | a⟩ | _ | _ <;> rfl

/-- The history changes nothing about the queue. -/
theorem traceTotal_spec (calls : List (DequeCall Value)) :
    (Runs.traceTotal dequeSpec [] calls).2 = (Runs.traceTotal spec new calls).2 :=
  Runs.traceTotal_map items (fun t c => by rw [spec, next_items]) new calls

end DequeTrack

/-! ## What the list has to do with it -/

namespace LinkedList

variable {list list' : LinkedList Value} {nodes : List Nat} {p : Option Nat}
  {t : DequeTrack Value} {c : DequeCall Value}

/-- An empty list with a tail. -/
structure Stale (list : LinkedList Value) : Prop where
  heap : ∀ a, list.heap a = none
  head : list.head = none
  tail : list.tail ≠ none
  size : list.size = 0

/-- The list after a history: its links are those of `Linked`, and the first node points
back to a node exactly if one was added behind it; or the tail is stale. -/
def Tracks (list : LinkedList Value) (t : DequeTrack Value) : Prop :=
  (t.stale = false ∧ ∃ nodes p, list.Linked nodes t.items p ∧ (nodes ≠ [] → p.isSome = t.behind)) ∨
    (t.stale = true ∧ t.items = [] ∧ list.Stale)

theorem Tracks.size (h : list.Tracks t) :
    (linkedListSize list).toNat = t.items.length % 2 ^ 32 := by
  rcases h with ⟨-, nodes, p, h, -⟩ | ⟨-, hitems, h⟩
  · exact h.size_toNat
  · rw [linkedListSize, h.size, hitems]
    rfl

/-- Neither a pop at the tail nor an addition gets past a stale tail. -/
theorem Stale.dequeCall_ne_ok (h : list.Stale) (hc : DequeTrack.MeetsTail c)
    (out : LinkedList Value × DequeReturn Value) : list.dequeCall c ≠ .ok out := by
  intro he
  obtain ⟨a, ha⟩ := Option.ne_none_iff_exists'.mp h.tail
  cases c with
  | add value elt =>
      obtain ⟨b, rfl⟩ := Option.ne_none_iff_exists'.mp hc
      obtain ⟨⟨list', added⟩, hadd, -⟩ := bind_eq_ok.mp he
      -- the store into `head->prev` is through `NULL`
      rw [linkedListAdd] at hadd
      dsimp only at hadd
      rw [if_pos (show (list.put b _).tail ≠ none from h.tail)] at hadd
      obtain ⟨list₁, hnext, hadd⟩ := bind_eq_ok.mp hadd
      obtain ⟨list₂, hprev, -⟩ := bind_eq_ok.mp hadd
      obtain ⟨x, last, -, rfl⟩ := storeNext_eq_ok hnext
      obtain ⟨y, first, hhead, -⟩ := storePrev_eq_put hprev
      cases h.head.symm.trans hhead
  | popFront => exact hc
  | popTail =>
      obtain ⟨⟨list', value⟩, hpop, -⟩ := bind_eq_ok.mp he
      rw [linkedListPopTail, if_neg h.tail] at hpop
      obtain ⟨value, hload, -⟩ := bind_eq_ok.mp hpop
      obtain ⟨⟨b, elt⟩, hd, -⟩ := bind_eq_ok.mp hload
      cases (h.heap b).symm.trans (heap_of_deref hd)

/-- `linked_list_pop_tail` takes the only node, which points back to a freed one. -/
theorem Linked.stale_of_popTail {x : Nat} {value : Value} (h : list.Linked [x] [value] p)
    (hp : p ≠ none) : ∃ list', linkedListPopTail list = .ok (list', some value) ∧ list'.Stale := by
  obtain ⟨elt, hx, -⟩ := h.forward.node (l := [])
  have hv := h.value
  have hback := h.back [] x [] rfl
  rw [LinkedListHeap.prev_eq hx] at hback
  rw [List.map_singleton, List.map_singleton, LinkedListHeap.value_eq hx] at hv
  cases hv
  refine ⟨_, popTail_single h.forward hx, fun a => ?_, rfl, ?_, rfl⟩
  · by_cases hax : a = x
    · rw [hax]
      exact LinkedListHeap.put_self _
    · exact (LinkedListHeap.put_ne hax _).trans
        (h.only a fun hmem => hax (List.mem_singleton.mp hmem))
  · show elt.prev ≠ none
    rwa [Option.some.inj hback]

/-- `linked_list_pop_tail` takes a last node that points back to the one before it. -/
theorem Linked.popTail {l : List Nat} {x : Nat} {before : List Value} {value : Value}
    (h : list.Linked (l ++ [x]) (before ++ [value]) p) (hlen : before.length = l.length)
    (hl : l ≠ [] ∨ p = none) :
    ∃ list', linkedListPopTail list = .ok (list', some value) ∧
      list'.Linked l before (if l = [] then none else p) := by
  obtain ⟨list', elt, hx, he, ht, -⟩ := popTail_taken h.forward (h.back_of hl)
  have hv := h.value_at hlen
  rw [LinkedListHeap.value_eq hx] at hv
  cases hv
  refine ⟨list', he, ?_⟩
  have h' := h.take hlen ht
  rwa [List.append_nil, List.append_nil] at h'

/-! ### The calls on a list without a stale tail -/

theorem Holds.nodes_eq_nil_iff {items : List Value} (h : list.Holds nodes items) :
    nodes = [] ↔ items = [] := by
  rw [← List.length_eq_zero_iff, ← List.length_eq_zero_iff, h.length_eq]

theorem Linked.dequeCall_add (h : list.Linked nodes t.items p)
    (hp : nodes ≠ [] → p.isSome = t.behind) (hstale : t.stale = false) {value : Value}
    {elt : Option Nat} (ha : list.DequeAllowed (.add value elt)) :
    ∃ list', list.dequeCall (.add value elt) =
        .ok (list', (dequeSpec t.items (.add value elt)).2.1) ∧
      list'.Tracks (t.next (.add value elt)) := by
  cases elt with
  | none => exact ⟨list, rfl, Or.inl ⟨hstale, nodes, p, h, hp⟩⟩
  | some a =>
      have hnot := h.forward.not_mem ha
      obtain ⟨list', he, happ⟩ := h.forward.append hnot value
      refine ⟨list', by rw [LinkedList.dequeCall, he, ok_bind]; rfl,
        Or.inl ⟨hstale, _, _, h.behind hnot happ, fun _ => ?_⟩⟩
      show _ = !t.items.isEmpty
      by_cases hn : nodes = []
      · rw [if_pos hn, h.nodes_eq_nil_iff.mp hn]
        rfl
      · rw [if_neg hn, List.isEmpty_eq_false_iff.mpr (mt h.nodes_eq_nil_iff.mpr hn)]
        rfl

theorem Linked.dequeCall_popFront (h : list.Linked nodes t.items p) (hstale : t.stale = false) :
    ∃ list', list.dequeCall .popFront = .ok (list', (dequeSpec t.items .popFront).2.1) ∧
      list'.Tracks (t.next .popFront) := by
  rcases nodes with _ | ⟨x, r⟩
  · have hhead : list.head = none := h.forward.head_eq
    have hitems := h.nodes_eq_nil_iff.mp rfl
    refine ⟨list, ?_, Or.inl ⟨hstale, [], p, ?_, fun hc => absurd rfl hc⟩⟩
    · rw [LinkedList.dequeCall, linkedListPopFront, if_pos hhead, ok_bind, hitems]
      rfl
    · rw [DequeTrack.next, hitems]
      rwa [hitems] at h
  · obtain ⟨value, rest, list', hitems, he, h'⟩ := h.popFront_linked
    refine ⟨list', ?_, Or.inl ⟨hstale, r, none, ?_, fun _ => rfl⟩⟩
    · rw [LinkedList.dequeCall, he, ok_bind, hitems]
      rfl
    · rw [DequeTrack.next, hitems]
      exact h'

/-- The last node is there to be taken. -/
theorem Linked.dequeCall_popTail_concat {l : List Nat} {x : Nat}
    (h : list.Linked (l ++ [x]) t.items p) (hp : p.isSome = t.behind) (hstale : t.stale = false) :
    ∃ list', list.dequeCall .popTail = .ok (list', (dequeSpec t.items .popTail).2.1) ∧
      list'.Tracks (t.next .popTail) := by
  obtain ⟨before, value, after, hitems, hlen, -⟩ := h.split
  rw [hitems] at h
  obtain rfl : after = [] :=
    List.length_eq_zero_iff.mp (Nat.succ.inj (h.length_rest hlen)).symm
  have hspec : dequeSpec t.items .popTail = (before, .popped (some value), before.length) := by
    rw [dequeSpec, hitems, List.dropLast_concat, List.getLast?_concat]
  have hnext : t.next .popTail = ⟨before, t.behind, before.isEmpty && t.behind⟩ := by
    rw [DequeTrack.next, hitems, List.dropLast_concat, hstale, Bool.false_or, List.length_append,
      List.length_singleton]
    cases before <;> rfl
  rw [hspec, hnext]
  by_cases hl : l ≠ [] ∨ p = none
  · obtain ⟨list', he, h'⟩ := h.popTail hlen hl
    refine ⟨list', by rw [LinkedList.dequeCall, he, ok_bind], Or.inl ⟨?_, l, _, h', ?_⟩⟩
    · rcases hl with hl | rfl
      · have hne : before ≠ [] := fun hnil => hl (by
          rw [hnil] at hlen
          exact List.length_eq_zero_iff.mp hlen.symm)
        rw [List.isEmpty_eq_false_iff.mpr hne, Bool.false_and]
      · rw [← hp]
        exact Bool.and_false _
    · intro hl
      rw [if_neg hl]
      exact hp
  · -- the only node, and it points back to one that is gone
    rw [not_or, not_not] at hl
    obtain ⟨rfl, hpne⟩ := hl
    obtain rfl := List.length_eq_zero_iff.mp hlen
    obtain ⟨list', he, hlist'⟩ := Linked.stale_of_popTail h hpne
    refine ⟨list', by rw [LinkedList.dequeCall, he, ok_bind], Or.inr ⟨?_, rfl, hlist'⟩⟩
    rw [← hp]
    exact Option.isSome_iff_ne_none.mpr hpne

theorem Linked.dequeCall_popTail (h : list.Linked nodes t.items p)
    (hp : nodes ≠ [] → p.isSome = t.behind) (hstale : t.stale = false) :
    ∃ list', list.dequeCall .popTail = .ok (list', (dequeSpec t.items .popTail).2.1) ∧
      list'.Tracks (t.next .popTail) := by
  rcases List.eq_nil_or_concat nodes with rfl | ⟨l, x, rfl⟩
  · have htail : list.tail = none := h.tail
    have hitems := h.nodes_eq_nil_iff.mp rfl
    refine ⟨list, ?_, Or.inl ⟨?_, [], p, ?_, fun hc => absurd rfl hc⟩⟩
    · rw [LinkedList.dequeCall, linkedListPopTail, if_pos htail, ok_bind, hitems]
      rfl
    · rw [DequeTrack.next, hstale, hitems]
      rfl
    · rw [DequeTrack.next, hitems]
      rwa [hitems] at h
  · rw [List.concat_eq_append] at h hp
    exact h.dequeCall_popTail_concat (hp (by simp)) hstale

theorem Linked.dequeCall (h : list.Linked nodes t.items p) (hp : nodes ≠ [] → p.isSome = t.behind)
    (hstale : t.stale = false) (ha : list.DequeAllowed c) :
    ∃ list', list.dequeCall c = .ok (list', (dequeSpec t.items c).2.1) ∧
      list'.Tracks (t.next c) := by
  rcases c with ⟨value, elt⟩ | _ | _
  · exact h.dequeCall_add hp hstale ha
  · exact h.dequeCall_popFront hstale
  · exact h.dequeCall_popTail hp hstale

/-- A call that does not meet a stale tail does what it does to the queue. -/
theorem Tracks.dequeCall (h : list.Tracks t) (ha : list.DequeAllowed c)
    (hc : ¬ (t.stale = true ∧ DequeTrack.MeetsTail c)) :
    ∃ list', list.dequeCall c = .ok (list', (dequeSpec t.items c).2.1) ∧
      list'.Tracks (t.next c) := by
  rcases h with ⟨hstale, nodes, p, h, hp⟩ | ⟨hstale, hitems, h⟩
  · exact h.dequeCall hp hstale ha
  · have hc : ¬ DequeTrack.MeetsTail c := fun hm => hc ⟨hstale, hm⟩
    refine ⟨list, ?_, Or.inr ⟨?_, ?_, h⟩⟩
    · rcases c with ⟨value, _ | a⟩ | _ | _
      · rfl
      · exact absurd (Option.some_ne_none a) hc
      · rw [LinkedList.dequeCall, linkedListPopFront, if_pos h.head, ok_bind, hitems]
        rfl
      · exact absurd trivial hc
    · rcases c with ⟨value, _ | a⟩ | _ | _
      · exact hstale
      · exact absurd (Option.some_ne_none a) hc
      · exact hstale
      · exact absurd trivial hc
    · rcases c with ⟨value, _ | a⟩ | _ | _
      · exact hitems
      · exact absurd (Option.some_ne_none a) hc
      · rw [DequeTrack.next, hitems]
        rfl
      · exact absurd trivial hc

/-- A call that meets a stale tail, or leaves more values than `size` counts, does not do
what it does to the queue. -/
theorem Tracks.not_safe (h : list.Tracks t) (ha : list.DequeAllowed c) (hc : ¬ t.Safe c) :
    list.dequeStep c ≠ .ok (list', (t.spec c).2) := by
  intro he
  obtain ⟨⟨list₁, returned⟩, hcall, he⟩ := bind_eq_ok.mp he
  by_cases hmeets : t.stale = true ∧ DequeTrack.MeetsTail c
  · rcases h with ⟨hstale, -⟩ | ⟨-, -, h⟩
    · exact Bool.false_ne_true (hstale.symm.trans hmeets.1)
    · exact h.dequeCall_ne_ok hmeets.2 _ hcall
  · obtain ⟨list₂, hcall₂, h'⟩ := h.dequeCall ha hmeets
    rw [hcall] at hcall₂
    cases hcall₂
    -- the size is that of the queue in 32 bits only
    have hsize : (linkedListSize list₁).toNat = (t.next c).items.length := by
      rw [← t.spec_length c, ← (Prod.mk.inj (Except.ok.inj he)).2]
    rw [h'.size] at hsize
    refine hc ⟨hmeets, ?_⟩
    rw [← hsize]
    exact Nat.mod_lt _ (by decide)

/-- The calls do what they do to a double-ended queue: none of them faults, each returns
what the queue returns, and `linked_list_size` is the number of values that remain. -/
def ActsAsDeque (list : LinkedList Value) (calls : List (DequeCall Value)) : Prop :=
  ∃ list', Runs.trace dequeStep list calls = .ok (list', (Runs.traceTotal dequeSpec [] calls).2)

theorem tracks_new {freeFunc block : Bool} (h : linkedListNew Value freeFunc block = some list) :
    list.Tracks DequeTrack.new :=
  Or.inl ⟨rfl, [], none, (linked_new h).1, fun hc => absurd rfl hc⟩

theorem actsAsDeque_iff (h : list.Tracks DequeTrack.new) {calls : List (DequeCall Value)}
    (ha : Runs.EachStep (fun list c => (dequeStep list c).map Prod.fst) DequeAllowed list calls) :
    list.ActsAsDeque calls ↔
      Runs.EachTotal DequeTrack.next DequeTrack.Safe DequeTrack.new calls := by
  rw [ActsAsDeque, DequeTrack.traceTotal_spec]
  refine Runs.trace_eq_iff_eachTotal (fun s t c h ha hc => ?_)
    (fun s t c s' h ha hc => h.not_safe ha hc) h ha
  obtain ⟨s', he, h'⟩ := h.dequeCall ha hc.1
  refine ⟨s', ?_, h'⟩
  have hsize : (linkedListSize s').toNat = (t.next c).items.length := by
    rw [h'.size, Nat.mod_eq_of_lt hc.2]
  rw [dequeStep, he, ok_bind]
  show Except.ok (s', (dequeSpec t.items c).2.1, (linkedListSize s').toNat) = _
  rw [hsize, ← t.spec_length c]
  rfl

end LinkedList

/-- **When the list is a double-ended queue.**  In a sequence of calls of `linked_list_add`,
`linked_list_pop_front` and `linked_list_pop_tail` on a new list, every call does what it
does to a double-ended queue of the values, if and only if there are never 2^32 values or
more, and once `linked_list_pop_tail` has taken a last value that another one had been added
behind while it was the first, nothing is added and `linked_list_pop_tail` is not called. -/
theorem linked_list_deque_iff {freeFunc block : Bool} {list : LinkedList Value}
    (hnew : linkedListNew Value freeFunc block = some list) {calls : List (DequeCall Value)}
    (ha : Runs.EachStep (fun list c => (LinkedList.dequeStep list c).map Prod.fst)
      LinkedList.DequeAllowed list calls) :
    list.ActsAsDeque calls ↔
      Runs.EachTotal DequeTrack.next DequeTrack.Safe DequeTrack.new calls :=
  LinkedList.actsAsDeque_iff (LinkedList.tracks_new hnew) ha

/-- Two values, taken from the two ends, and a third one in the list again. -/
theorem linked_list_deque_iff_turns :
    ∃ list, linkedListNew Nat false true = some list ∧
      (list.ActsAsDeque
          [.add 7 (some 0x10), .add 8 (some 0x20), .popFront, .popTail, .add 9 (some 0x10)] ↔
        Runs.EachTotal DequeTrack.next DequeTrack.Safe DequeTrack.new
          [.add 7 (some 0x10), .add 8 (some 0x20), .popFront, .popTail, .add 9 (some 0x10)]) := by
  refine ⟨_, rfl, linked_list_deque_iff (show linkedListNew Nat false true = some _ from rfl) ?_⟩
  refine .cons rfl rfl ?_
  refine .cons rfl rfl ?_
  refine .cons trivial rfl ?_
  refine .cons trivial rfl ?_
  exact .cons rfl rfl trivial

/-- Two values, taken from the tail: the third pop, on the empty list, reads a freed node. -/
theorem linked_list_deque_two_pops :
    ∃ list, linkedListNew Nat false true = some list ∧
      Runs.trace LinkedList.dequeStep list
        [.add 7 (some 0x10), .add 8 (some 0x20), .popTail, .popTail, .popTail] =
          .error .notAllocated ∧
      ¬ list.ActsAsDeque
        [.add 7 (some 0x10), .add 8 (some 0x20), .popTail, .popTail, .popTail] := by
  refine ⟨_, rfl, rfl, fun h => ?_⟩
  obtain ⟨list', h⟩ := h
  cases h

end BlackHV
