import BlackHV.LinkedListLinks
import BlackHV.Runs

/-! # Which calls keep a list doubly linked

`DoublyLinked` is the shape a doubly linked list should have.  The four functions that
remove nodes keep it, on lists of any length: each of them takes one node out
(`Removed`), or several, one after the other.  `linked_list_add` keeps it on an empty
list only.  On any other it stores the new node into `head->prev`, where the shape
asks for `NULL`.
-/
namespace BlackHV

open Chains

variable {Value : Type}

namespace LinkedList

/-- The list consists of `nodes`: from the head along `next`, and the other way round
from the tail along `prev`. -/
structure DoublyLinked (list : LinkedList Value) (nodes : List Nat) : Prop where
  next : Chain list.heap.next list.head nodes
  prev : Chain list.heap.prev list.tail nodes.reverse
  size : list.size.toNat = nodes.length

/-- The representation invariant of a doubly linked list: the three ways to tell an
empty list agree, and the links in both directions are those of some nodes. -/
def WellFormed (list : LinkedList Value) : Prop :=
  (list.head = none ↔ list.tail = none) ∧ (list.tail = none ↔ list.size = 0) ∧
    ∃ nodes, list.DoublyLinked nodes

variable {list list' : LinkedList Value} {nodes l r : List Nat} {x : Nat}

/-! ## The shape -/

namespace DoublyLinked

theorem tail_eq (h : list.DoublyLinked nodes) : list.tail = nodes.getLast? := by
  rw [h.prev.head_eq, List.head?_reverse]

theorem forward (h : list.DoublyLinked nodes) : list.Forward nodes :=
  ⟨h.next, h.tail_eq, by rw [← h.size, UInt32.ofNat_toNat]⟩

theorem head_eq (h : list.DoublyLinked nodes) : list.head = nodes.head? := h.forward.head_eq

theorem wellFormed (h : list.DoublyLinked nodes) : list.WellFormed := by
  have hsize : list.size = 0 ↔ nodes = [] := by
    rw [← UInt32.toNat_inj, h.size]
    exact List.length_eq_zero_iff
  refine ⟨?_, ?_, nodes, h⟩
  · rw [h.head_eq, h.tail_eq, List.head?_eq_none_iff, List.getLast?_eq_none_iff]
  · rw [h.tail_eq, hsize, List.getLast?_eq_none_iff]

/-- A node points back to the one before it. -/
theorem back (h : list.DoublyLinked (l ++ x :: r)) : list.heap.prev x = some l.getLast? := by
  have hp := h.prev
  rw [List.reverse_append, List.reverse_cons, List.append_assoc, List.singleton_append] at hp
  rw [hp.rest.1, List.head?_reverse]

/-- A node in the middle: it is live and points to its neighbours. -/
theorem node (h : list.DoublyLinked (l ++ x :: r)) :
    ∃ elt, list.heap x = some elt ∧ elt.prev = l.getLast? ∧ elt.next = r.head? := by
  obtain ⟨elt, hx, hnext⟩ := h.forward.node
  have hback := h.back
  rw [LinkedListHeap.prev_eq hx] at hback
  exact ⟨elt, hx, Option.some.inj hback, hnext⟩

end DoublyLinked

/-- `list'` is `list` without the node `x`, whose predecessors are `l` and whose
successors are `r`: the neighbours of `x` point to each other. -/
structure Removed (list list' : LinkedList Value) (l : List Nat) (x : Nat) (r : List Nat) :
    Prop where
  next_last : ∀ y, l.getLast? = some y → list'.heap.next y = list.heap.next x
  next_other : ∀ y ∈ l ++ r, l.getLast? ≠ some y → list'.heap.next y = list.heap.next y
  prev_head : ∀ y, r.head? = some y → list'.heap.prev y = list.heap.prev x
  prev_other : ∀ y ∈ l ++ r, r.head? ≠ some y → list'.heap.prev y = list.heap.prev y
  head : list'.head = if l = [] then r.head? else list.head
  tail : list'.tail = if r = [] then l.getLast? else list.tail
  size : list'.size = list.size - 1

/-- **A list without one of its nodes is doubly linked.** -/
theorem DoublyLinked.remove (h : list.DoublyLinked (l ++ x :: r))
    (hr : Removed list list' l x r) : list'.DoublyLinked (l ++ r) := by
  refine ⟨?_, ?_, ?_⟩
  · rw [hr.head]
    exact h.next.unlink hr.next_last hr.next_other
  · have hp := h.prev
    rw [List.reverse_append, List.reverse_cons, List.append_assoc, List.singleton_append] at hp
    have hchain := hp.unlink (by rw [List.getLast?_reverse]; exact hr.prev_head)
      (fun y hy => by
        rw [List.getLast?_reverse]
        refine hr.prev_other y ?_
        simp only [List.mem_append, List.mem_reverse] at hy ⊢
        exact hy.symm)
    rw [List.reverse_append, hr.tail]
    simp only [List.reverse_eq_nil_iff, List.head?_reverse] at hchain
    exact hchain
  · have hs := h.size
    rw [List.length_append, List.length_cons] at hs
    rw [hr.size, UInt32.toNat_sub_of_le _ _
        (by rw [UInt32.le_iff_toNat_le, hs]; exact Nat.le_add_left ..),
      hs, List.length_append]
    rfl

/-- A node that is taken out is removed from both chains. -/
theorem DoublyLinked.removed (h : list.DoublyLinked (l ++ x :: r))
    (ht : Taken list list' l x r) : Removed list list' l x r := by
  refine ⟨fun y hy => ?_, fun y hy hne => ?_, fun y hy => ?_, fun y hy hne => ?_, ht.head, ht.tail,
    ht.size⟩
  · rw [ht.next_last y hy, h.next.rest.1]
  · exact ht.next_other y (h.forward.ne_of_mem hy) hne
  · rw [ht.prev_head y hy, h.back]
  · exact ht.prev_other y (h.forward.ne_of_mem hy) hne

/-! ## The functions that remove nodes -/

/-- `remove_elt` takes out the node it is given. -/
theorem removeElt_spec (h : list.DoublyLinked (l ++ x :: r)) :
    ∃ list', removeElt list (some x) = .ok list' ∧ Removed list list' l x r := by
  obtain ⟨list', -, -, he, ht, -⟩ := removeElt_taken h.forward h.back
  exact ⟨list', he, h.removed ht⟩

/-- `linked_list_pop_tail` takes out the last node. -/
theorem popTail_spec (h : list.DoublyLinked (l ++ [x])) :
    ∃ list' value, linkedListPopTail list = .ok (list', some value) ∧
      Removed list list' l x [] := by
  obtain ⟨list', elt, -, he, ht, -⟩ := popTail_taken h.forward h.back
  exact ⟨list', elt.value, he, h.removed ht⟩

/-- `linked_list_pop_front` takes out the first node. -/
theorem popFront_spec (h : list.DoublyLinked (x :: r)) :
    ∃ list' value, linkedListPopFront list = .ok (list', some value) ∧
      Removed list list' [] x r := by
  obtain ⟨list', elt, -, he, ht, -⟩ := popFront_taken h.forward
  exact ⟨list', elt.value, he, DoublyLinked.removed (l := []) h ht⟩

/-- The loop of `linked_list_remove_at`, with the nodes `l` behind it. -/
theorem removeAtLoop_spec {rest : List Nat} (h : list.DoublyLinked (l ++ rest)) (left : Nat) :
    ∃ list', removeAtLoop list rest.head? left =
        .ok (list', if left < rest.length then 1 else 0) ∧
      list'.DoublyLinked (l ++ rest.eraseIdx left) := by
  induction rest generalizing l left with
  | nil =>
      refine ⟨list, ?_, h⟩
      rw [List.head?_nil, removeAtLoop, List.length_nil, if_neg (Nat.not_lt_zero left)]
  | cons x rest ih =>
      cases left with
      | zero =>
          obtain ⟨list', he, hr⟩ := removeElt_spec h
          refine ⟨list', ?_, h.remove hr⟩
          rw [List.head?_cons, removeAtLoop, he, ok_bind, if_pos (by simp)]
      | succ left =>
          obtain ⟨elt, hx, -, hnext⟩ := h.node
          -- the node stays, and is one of those behind the loop
          rw [List.append_cons] at h
          obtain ⟨list', he, h'⟩ := ih h left
          refine ⟨list', ?_, ?_⟩
          · rw [List.head?_cons, removeAtLoop, loadNext_ok hx, ok_bind, hnext, he]
            simp only [List.length_cons, Nat.add_lt_add_iff_right]
          · rwa [List.eraseIdx_cons_succ, List.append_cons]

/-- The loop of `linked_list_remove_eq`, with the nodes `l` behind it that stay. -/
theorem removeEqLoop_spec (eqFunc : Value → UInt32) {rest : List Nat}
    (h : list.DoublyLinked (l ++ rest)) (removed : UInt32) {fuel : Nat}
    (hf : rest.length ≤ fuel) :
    ∃ list' removed', removeEqLoop eqFunc list removed rest.head? fuel = .ok (list', removed') ∧
      list'.WellFormed := by
  induction rest generalizing list l removed fuel with
  | nil => exact ⟨list, removed, by rw [List.head?_nil, removeEqLoop], h.wellFormed⟩
  | cons x rest ih =>
      obtain ⟨fuel, rfl⟩ : ∃ f, fuel = f + 1 := ⟨fuel - 1, by rw [List.length_cons] at hf; omega⟩
      have hf' : rest.length ≤ fuel := Nat.le_of_succ_le_succ hf
      obtain ⟨elt, hx, -, hnext⟩ := h.node
      rw [List.head?_cons, removeEqLoop, loadNext_ok hx, ok_bind, loadValue_ok hx, ok_bind, hnext]
      by_cases heq : eqFunc elt.value = 1
      · obtain ⟨list₁, he, hr⟩ := removeElt_spec h
        rw [if_pos heq, he, ok_bind]
        exact ih (h.remove hr) (removed + 1) hf'
      · rw [if_neg heq]
        rw [List.append_cons] at h
        exact ih h removed hf'

/-! ## `linked_list_add` -/

/-- On an empty list, the new node is the only one. -/
theorem add_empty (h : list.DoublyLinked []) (value : Value) (a : Nat) :
    ∃ list', linkedListAdd list value (some a) = .ok (list', 1) ∧ list'.DoublyLinked [a] := by
  have htail : list.tail = none := h.tail_eq
  have hsize : list.size = 0 := UInt32.toNat_inj.mp h.size
  refine ⟨{ list with
      heap := list.heap.put a (some { prev := list.tail, next := none, value })
      head := some a, tail := some a, size := list.size + 1 }, ?_, ?_, ?_, ?_⟩
  · simp only [linkedListAdd, put, htail, ne_eq, not_true_eq_false, if_false, ok_bind]
  · exact ⟨rfl, none, LinkedListHeap.next_put_self, rfl⟩
  · exact ⟨rfl, none, LinkedListHeap.prev_put_self.trans (congrArg some htail), rfl⟩
  · rw [hsize]
    rfl

/-- On any other list, the first node points back to the new one. -/
theorem add_nonempty (h : list.tail ≠ none) {value : Value} {a : Nat} {added : UInt32}
    (he : linkedListAdd list value (some a) = .ok (list', added)) :
    ∃ x, list'.head = some x ∧ list'.heap.prev x = some (some a) := by
  simp only [linkedListAdd, put, ne_eq, h, not_false_eq_true, if_true] at he
  obtain ⟨list₁, -, he⟩ := bind_eq_ok.mp he
  obtain ⟨list₂, h₂, he⟩ := bind_eq_ok.mp he
  obtain ⟨x, hx, hhead, hprev⟩ := storePrev_eq_ok h₂
  cases he
  exact ⟨x, hhead.trans hx, hprev⟩

/-! ## Sequences of calls -/

end LinkedList

/-- A call on a list, with what `malloc` returns to `linked_list_add` and the fuel of
the loop of `linked_list_remove_eq`. -/
inductive ListCall (Value : Type) where
  | add (value : Value) (elt : Option Nat)
  | popFront
  | popTail
  | removeAt (index : UInt32)
  | removeEq (eqFunc : Option (Value → UInt32)) (fuel : Nat)

namespace LinkedList

variable {list list' : LinkedList Value}

/-- One call on the list. -/
def call (list : LinkedList Value) : ListCall Value → Except Fault (LinkedList Value)
  | .add value elt => do
      let (list, _) ← linkedListAdd list value elt
      .ok list
  | .popFront => do
      let (list, _) ← linkedListPopFront list
      .ok list
  | .popTail => do
      let (list, _) ← linkedListPopTail list
      .ok list
  | .removeAt index => do
      let (list, _) ← linkedListRemoveAt list index
      .ok list
  | .removeEq eqFunc fuel => do
      let (list, _) ← linkedListRemoveEq list eqFunc fuel
      .ok list

/-- `malloc` returns a block that is not in use, and there is fuel for every node. -/
def Allowed (list : LinkedList Value) : ListCall Value → Prop
  | .add _ (some a) => list.heap a = none
  | .removeEq _ fuel => list.size.toNat ≤ fuel
  | _ => True

/-- A node is added to an empty list only. -/
def AddsToEmpty (list : LinkedList Value) : ListCall Value → Prop
  | .add _ (some _) => list.tail = none
  | _ => True

/-- The calls other than an addition to a list with nodes keep a list doubly linked. -/
theorem call_keeps (h : list.WellFormed) {c : ListCall Value} (ha : list.Allowed c)
    (hc : list.AddsToEmpty c) : ∃ list', list.call c = .ok list' ∧ list'.WellFormed := by
  obtain ⟨-, -, nodes, h⟩ := h
  cases c with
  | add value elt =>
      cases elt with
      | none => exact ⟨list, rfl, h.wellFormed⟩
      | some a =>
          have hnil : nodes = [] := List.getLast?_eq_none_iff.mp (h.tail_eq ▸ hc)
          obtain ⟨list', he, h'⟩ := add_empty (hnil ▸ h) value a
          exact ⟨list', by rw [call, he, ok_bind], h'.wellFormed⟩
  | popFront =>
      cases nodes with
      | nil =>
          have hhead : list.head = none := h.head_eq
          exact ⟨list, by rw [call, linkedListPopFront, if_pos hhead, ok_bind], h.wellFormed⟩
      | cons x r =>
          obtain ⟨list', value, he, hr⟩ := popFront_spec h
          exact ⟨list', by rw [call, he, ok_bind], (DoublyLinked.remove (l := []) h hr).wellFormed⟩
  | popTail =>
      rcases List.eq_nil_or_concat nodes with rfl | ⟨l, x, rfl⟩
      · have htail : list.tail = none := h.tail_eq
        exact ⟨list, by rw [call, linkedListPopTail, if_pos htail, ok_bind], h.wellFormed⟩
      · rw [List.concat_eq_append] at h
        obtain ⟨list', value, he, hr⟩ := popTail_spec h
        exact ⟨list', by rw [call, he, ok_bind], (h.remove hr).wellFormed⟩
  | removeAt index =>
      obtain ⟨list', he, h'⟩ := removeAtLoop_spec (l := []) h index.toNat
      exact ⟨list', by rw [call, linkedListRemoveAt, h.head_eq, he, ok_bind], h'.wellFormed⟩
  | removeEq eqFunc fuel =>
      cases eqFunc with
      | none => exact ⟨list, rfl, h.wellFormed⟩
      | some eqFunc =>
          have hfuel : nodes.length ≤ fuel := h.size ▸ ha
          obtain ⟨list', removed, he, h'⟩ := removeEqLoop_spec (l := []) eqFunc h 0 hfuel
          exact ⟨list', by rw [call, linkedListRemoveEq, h.head_eq, he, ok_bind], h'⟩

/-- An addition to a list with nodes leaves one that is not doubly linked. -/
theorem call_breaks {c : ListCall Value} (hc : ¬ list.AddsToEmpty c)
    (he : list.call c = .ok list') : ¬ list'.WellFormed := by
  rintro ⟨-, -, nodes, h⟩
  cases c with
  | add value elt =>
      cases elt with
      | none => exact hc trivial
      | some a =>
          obtain ⟨⟨list₁, added⟩, hadd, hret⟩ := bind_eq_ok.mp he
          cases hret
          obtain ⟨x, hhead, hprev⟩ := add_nonempty hc hadd
          cases nodes with
          | nil => cases hhead.symm.trans h.head_eq
          | cons y r =>
              cases hhead.symm.trans h.head_eq
              obtain ⟨elt, hx, hnone, -⟩ := DoublyLinked.node (l := []) h
              rw [LinkedListHeap.prev_eq hx, hnone] at hprev
              cases hprev
  | popFront => exact hc trivial
  | popTail => exact hc trivial
  | removeAt index => exact hc trivial
  | removeEq eqFunc fuel => exact hc trivial

/-- A new list is doubly linked. -/
theorem wellFormed_of_new {freeFunc block : Bool}
    (hnew : linkedListNew Value freeFunc block = some list) : list.WellFormed := by
  have hnil : list.DoublyLinked [] := by
    cases block with
    | false => cases hnew
    | true =>
        cases hnew
        exact ⟨rfl, rfl, rfl⟩
  exact hnil.wellFormed

end LinkedList

/-- **A list stays doubly linked exactly as long as nothing is added behind a node.**
In a run of calls on a new list, the list is doubly linked after each call if and only
if every call of `linked_list_add` that gets a block from `malloc` is made on an empty
list. -/
theorem linked_list_shape_iff {freeFunc block : Bool} {list : LinkedList Value}
    (hnew : linkedListNew Value freeFunc block = some list) {calls : List (ListCall Value)}
    (ha : Runs.EachStep LinkedList.call LinkedList.Allowed list calls) :
    Runs.AlwaysAlong LinkedList.call LinkedList.WellFormed list calls ↔
      Runs.EachStep LinkedList.call LinkedList.AddsToEmpty list calls :=
  Runs.alwaysAlong_iff_eachStep (I := fun _ => True)
    (fun _ _ _ h ha hc =>
      (LinkedList.call_keeps h ha hc).imp fun _ h' => ⟨h'.1, trivial, h'.2⟩)
    (fun _ _ _ _ _ _ hc he => LinkedList.call_breaks hc he)
    trivial (LinkedList.wellFormed_of_new hnew) ha

/-- A list that two nodes take turns in. -/
theorem linked_list_shape_iff_turns :
    ∃ list, linkedListNew Nat false true = some list ∧
      (Runs.AlwaysAlong LinkedList.call LinkedList.WellFormed list
          [.add 7 (some 0x10), .popTail, .add 8 (some 0x20), .removeEq (some fun _ => 1) 1] ↔
        Runs.EachStep LinkedList.call LinkedList.AddsToEmpty list
          [.add 7 (some 0x10), .popTail, .add 8 (some 0x20), .removeEq (some fun _ => 1) 1]) := by
  refine ⟨_, rfl, linked_list_shape_iff
    (show linkedListNew Nat false true = some _ from rfl) ?_⟩
  refine .cons rfl rfl ?_
  refine .cons trivial rfl ?_
  refine .cons rfl rfl ?_
  exact .cons (Nat.le_refl 1) rfl trivial

/-- After two additions the first node points back to the second one. -/
theorem linked_list_two_adds :
    ∃ list, linkedListNew Nat false true = some list ∧
      Runs.EachStep LinkedList.call LinkedList.Allowed list
        [.add 7 (some 0x10), .add 8 (some 0x20)] ∧
      ¬ Runs.AlwaysAlong LinkedList.call LinkedList.WellFormed list
        [.add 7 (some 0x10), .add 8 (some 0x20)] := by
  refine ⟨_, rfl, ?_, fun h => ?_⟩
  · exact .cons rfl rfl (.cons rfl rfl trivial)
  · obtain ⟨list, he, -, -, nodes, hlist⟩ := h.last
    cases he
    cases nodes with
    | nil => cases hlist.head_eq
    | cons x r =>
        cases hlist.head_eq
        obtain ⟨elt, hx, hprev, -⟩ := LinkedList.DoublyLinked.node (l := []) hlist
        cases hx
        cases hprev

end BlackHV
