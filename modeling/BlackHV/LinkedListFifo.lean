import BlackHV.LinkedListWalk
import BlackHV.Runs

/-! # The list as a queue

The memory map only adds to its list, walks it forward, and frees it.  For this, and for
taking values from the front, the `prev` links do not matter: what `Holds` says of the
head, the tail, the `next` links and the size is enough, and every such call keeps it,
also where it empties the list or fills it again.
-/
namespace BlackHV

variable {Value : Type}

/-- A call that goes forward: with the node that `malloc` returns to `linked_list_add`, and the
fuel of the loop of `linked_list_for_each`. -/
inductive FifoCall (Value : Type) where
  | add (value : Value) (elt : Nat)
  | popFront
  | get (index : UInt32)
  | forEach (fuel : Nat)
  | size
  deriving DecidableEq

/-- What a call returns, or what it calls `func` with. -/
inductive FifoReturn (Value : Type) where
  | added (result : UInt32)
  | value (value : Option Value)
  | visited (visits : List (UInt32 × Value))
  | size (size : Nat)
  deriving DecidableEq

/-- A queue: what a call leaves in it, and what the call returns. -/
def fifoSpec (items : List Value) : FifoCall Value → List Value × FifoReturn Value
  | .add value _ => (items ++ [value], .added 1)
  | .popFront => (items.tail, .value items.head?)
  | .get index => (items, .value items[index.toNat]?)
  | .forEach _ => (items, .visited (visits 0 items))
  | .size => (items, .size items.length)

/-- The call leaves fewer than 2^32 values. -/
def FifoFits (items : List Value) (c : FifoCall Value) : Prop :=
  (fifoSpec items c).1.length < 2 ^ 32

instance (items : List Value) (c : FifoCall Value) : Decidable (FifoFits items c) :=
  inferInstanceAs (Decidable (_ < _))

namespace LinkedList

/-- One call on the list. -/
def fifoStep (list : LinkedList Value) :
    FifoCall Value → Except Fault (LinkedList Value × FifoReturn Value)
  | .add value elt => do
      let (list, added) ← linkedListAdd list value (some elt)
      .ok (list, .added added)
  | .popFront => do
      let (list, value) ← linkedListPopFront list
      .ok (list, .value value)
  | .get index => do
      let value ← linkedListGet list index
      .ok (list, .value value)
  | .forEach fuel => do
      let visited ← linkedListForEach list (some noteVisit) [] fuel
      .ok (list, .visited visited)
  | .size => .ok (list, .size (linkedListSize list).toNat)

/-- `malloc` returns a block that is not in use, and there is fuel for every node. -/
def FifoAllowed (list : LinkedList Value) : FifoCall Value → Prop
  | .add _ a => list.heap a = none
  | .forEach fuel => list.size.toNat ≤ fuel
  | _ => True

/-- The lists differ in their `prev` links only. -/
structure SameForward (list list' : LinkedList Value) : Prop where
  next : ∀ a, list'.heap.next a = list.heap.next a
  value : ∀ a, list'.heap.value a = list.heap.value a
  head : list'.head = list.head
  tail : list'.tail = list.tail
  size : list'.size = list.size
  freeFunc : list'.freeFunc = list.freeFunc
  freed : list'.freed = list.freed

/-- The list holds `items`, has no other nodes, and nothing was handed to `free_func`. -/
def Queues (freeFunc : Bool) (list : LinkedList Value) (items : List Value) : Prop :=
  ∃ nodes, list.Holds nodes items ∧ (∀ a, a ∉ nodes → list.heap a = none) ∧
    list.freeFunc = freeFunc ∧ list.freed = []

variable {freeFunc block : Bool} {list list' : LinkedList Value} {items : List Value}
  {c : FifoCall Value}

theorem queues_new (h : linkedListNew Value freeFunc block = some list) :
    list.Queues freeFunc [] := by
  cases block with
  | false => cases h
  | true =>
      refine ⟨[], holds_new h, fun a _ => ?_, ?_, ?_⟩ <;> cases h <;> rfl

/-- The invariant says nothing about the `prev` links. -/
theorem Queues.congr (h : list.Queues freeFunc items) (hs : SameForward list list') :
    list'.Queues freeFunc items := by
  obtain ⟨nodes, h, honly, hfunc, hfreed⟩ := h
  refine ⟨nodes, ⟨?_, ?_, ?_, ?_⟩, fun a ha => ?_, hs.freeFunc.trans hfunc, hs.freed.trans hfreed⟩
  · rw [hs.head]
    exact h.next.congr fun a _ => hs.next a
  · rw [hs.tail, h.tail]
  · rw [← h.value]
    exact List.map_congr_left fun a _ => hs.value a
  · rw [hs.size, h.size]
  · refine LinkedListHeap.eq_none_of_value ?_
    rw [hs.value, LinkedListHeap.value_eq_none (honly a ha)]

/-- `linked_list_add` on a queue. -/
theorem Queues.add (h : list.Queues freeFunc items) (value : Value) {a : Nat}
    (ha : list.heap a = none) :
    ∃ list', linkedListAdd list value (some a) = .ok (list', 1) ∧
      list'.Queues freeFunc (items ++ [value]) := by
  obtain ⟨nodes, h, honly, hfunc, hfreed⟩ := h
  have hnot := h.forward.not_mem ha
  obtain ⟨list', he, happ⟩ := h.forward.append hnot value
  exact ⟨list', he, nodes ++ [a], h.behind hnot happ, fun b => happ.only honly,
    happ.freeFunc.trans hfunc, happ.freed.trans hfreed⟩

/-- `linked_list_pop_front` on a queue. -/
theorem Queues.popFront (h : list.Queues freeFunc items) :
    ∃ list', linkedListPopFront list = .ok (list', items.head?) ∧
      list'.Queues freeFunc items.tail := by
  obtain ⟨nodes, h, honly, hfunc, hfreed⟩ := h
  cases nodes with
  | nil =>
      have hhead : list.head = none := h.forward.head_eq
      have hitems : items = [] := List.length_eq_zero_iff.mp h.length_eq.symm
      subst hitems
      exact ⟨list, by rw [linkedListPopFront, if_pos hhead]; rfl, [], h, honly, hfunc, hfreed⟩
  | cons x r =>
      obtain ⟨value, rest, list', rfl, he, h', ht, hfreed'⟩ := h.popFront
      exact ⟨list', he, r, h', fun b => ht.only (l := []) honly, ht.freeFunc.trans hfunc,
        hfreed'.trans hfreed⟩

/-- Every call does what it does to the queue, and keeps the invariant. -/
theorem Queues.fifoStep (h : list.Queues freeFunc items) (ha : list.FifoAllowed c)
    (hc : FifoFits items c) :
    ∃ list', list.fifoStep c = .ok (list', (fifoSpec items c).2) ∧
      list'.Queues freeFunc (fifoSpec items c).1 := by
  cases c with
  | add value a =>
      obtain ⟨list', he, h'⟩ := h.add value ha
      exact ⟨list', by rw [LinkedList.fifoStep, he, ok_bind]; rfl, h'⟩
  | popFront =>
      obtain ⟨list', he, h'⟩ := h.popFront
      exact ⟨list', by rw [LinkedList.fifoStep, he, ok_bind]; rfl, h'⟩
  | get index =>
      have ⟨nodes, hholds, _⟩ := h
      exact ⟨list, by rw [LinkedList.fifoStep, hholds.get, ok_bind]; rfl, h⟩
  | forEach fuel =>
      have ⟨nodes, hholds, _⟩ := h
      -- the size is the number of nodes, so there is fuel for each of them
      have hfuel : nodes.length ≤ fuel := by
        have hsize := hholds.size_iff.mpr hc
        rw [linkedListSize, UInt32.toNat_toUInt64] at hsize
        rw [hholds.length_eq, ← hsize]
        exact ha
      exact ⟨list, by rw [LinkedList.fifoStep, hholds.forEach hfuel, ok_bind]; rfl, h⟩
  | size =>
      have ⟨nodes, hholds, _⟩ := h
      refine ⟨list, ?_, h⟩
      rw [LinkedList.fifoStep, hholds.size_iff.mpr hc]
      rfl

/-- `linked_list_free` on a queue. -/
theorem Queues.free (h : list.Queues freeFunc items) {fuel : Nat} (hfuel : items.length ≤ fuel) :
    ∃ heap, linkedListFree noteFree list list.freed fuel =
      .ok (heap, if freeFunc then items else []) ∧ ∀ a, heap a = none := by
  obtain ⟨nodes, h, honly, hfunc, hfreed⟩ := h
  obtain ⟨heap, hfree, hnone⟩ := h.free_noted honly list.freed (h.length_eq ▸ hfuel)
  refine ⟨heap, ?_, hnone⟩
  rw [hfree, hfreed, hfunc, List.nil_append]

end LinkedList

/-- **The list is a queue, whatever its `prev` links are.**  In a sequence of calls of
`linked_list_add`, `linked_list_pop_front`, `linked_list_get`, `linked_list_for_each` and
`linked_list_size` on a new list that never holds 2^32 values, every call returns what it
returns on a queue of the values.  `linked_list_free` then hands each value that remains to
`free_func`, once and in order, and leaves no node; and so it does on every list that differs
from this one in its `prev` links only. -/
theorem linked_list_fifo {freeFunc block : Bool} {list : LinkedList Value}
    (hnew : linkedListNew Value freeFunc block = some list) {calls : List (FifoCall Value)}
    (ha : Runs.EachStep (fun list c => (LinkedList.fifoStep list c).map Prod.fst)
      LinkedList.FifoAllowed list calls)
    (hfits : Runs.EachTotal (fun items c => (fifoSpec items c).1) FifoFits [] calls) :
    ∃ last, Runs.trace LinkedList.fifoStep list calls =
        .ok (last, (Runs.traceTotal fifoSpec [] calls).2) ∧
      ∀ last', LinkedList.SameForward last last' → ∃ fuel heap,
        linkedListFree noteFree last' last'.freed fuel =
          .ok (heap, if freeFunc then (Runs.traceTotal fifoSpec [] calls).1 else []) ∧
        ∀ a, heap a = none := by
  obtain ⟨last, htrace, h⟩ := Runs.trace_simulates_of_each
    (fun _ _ _ h ha hc => h.fifoStep ha hc) (LinkedList.queues_new hnew) ha hfits
  refine ⟨last, htrace, fun last' hs => ?_⟩
  obtain ⟨heap, hfree, hnone⟩ := (h.congr hs).free (Nat.le_refl _)
  exact ⟨_, heap, hfree, hnone⟩

/-- A list that is emptied and filled again. -/
theorem linked_list_fifo_refilled :
    let calls : List (FifoCall Nat) := [.add 7 0x10, .add 8 0x20, .popFront, .popFront, .popFront,
      .add 9 0x10, .get 0, .get 1, .forEach 1, .size]
    ∃ list last, linkedListNew Nat true true = some list ∧
      Runs.trace LinkedList.fifoStep list calls =
        .ok (last, (Runs.traceTotal fifoSpec [] calls).2) ∧
      ∀ last', LinkedList.SameForward last last' → ∃ fuel heap,
        linkedListFree noteFree last' last'.freed fuel = .ok (heap, [9]) ∧ ∀ a, heap a = none := by
  intro calls
  have hfits : Runs.EachTotal (fun items c => (fifoSpec items c).1) FifoFits [] calls := by decide
  obtain ⟨last, htrace, hfree⟩ := linked_list_fifo
    (show linkedListNew Nat true true = some _ from rfl)
    (by
      refine .cons rfl rfl (.cons rfl rfl (.cons trivial rfl (.cons trivial rfl ?_)))
      refine .cons trivial rfl (.cons rfl rfl (.cons trivial rfl (.cons trivial rfl ?_)))
      exact .cons (Nat.le_refl 1) rfl (.cons trivial rfl trivial)) hfits
  exact ⟨_, last, rfl, htrace, hfree⟩

end BlackHV
