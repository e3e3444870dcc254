import BlackHV.LinkedListShape

/-! # A list that is only added to

Whatever `linked_list_add` does to the `prev` pointers, it gets the others right: from
the head along `next`, a list that is only added to has its values in the order of the
additions, and `size` counts them in 32 bits.
-/
namespace BlackHV

open Chains

variable {Value : Type}

namespace LinkedList

/-- From the head along `next` the list has `nodes`, with `items` in them. -/
structure Holds (list : LinkedList Value) (nodes : List Nat) (items : List Value) : Prop where
  next : Chain list.heap.next list.head nodes
  tail : list.tail = nodes.getLast?
  value : nodes.map list.heap.value = items.map some
  size : list.size = UInt32.ofNat items.length

variable {list list' : LinkedList Value} {nodes : List Nat} {items : List Value} {a : Nat}

theorem holds_new {freeFunc : Bool} (h : linkedListNew Value freeFunc true = some list) :
    list.Holds [] [] := by
  cases h
  exact ⟨rfl, rfl, rfl, rfl⟩

namespace Holds

theorem length_eq (h : list.Holds nodes items) : nodes.length = items.length := by
  have := congrArg List.length h.value
  rwa [List.length_map, List.length_map] at this

/-- As many nodes as values, also behind those that are passed over. -/
theorem length_rest {l rest : List Nat} {before : List Value}
    (h : list.Holds (l ++ rest) (before ++ items)) (hlen : before.length = l.length) :
    rest.length = items.length := by
  have := h.length_eq
  rw [List.length_append, List.length_append, hlen] at this
  exact Nat.add_left_cancel this

theorem forward (h : list.Holds nodes items) : list.Forward nodes :=
  ⟨h.next, h.tail, by rw [h.length_eq, h.size]⟩

end Holds

/-- `list'` is `list` with `value` behind its nodes, in the node `a`.  The first node points
back to `a`. -/
structure Appended (list list' : LinkedList Value) (nodes : List Nat) (a : Nat) (value : Value) :
    Prop where
  next : list'.heap.next a = some none
  next_last : ∀ t, nodes.getLast? = some t → list'.heap.next t = some (some a)
  next_other : ∀ b, b ≠ a → nodes.getLast? ≠ some b → list'.heap.next b = list.heap.next b
  prev : list'.heap.prev a = some nodes.getLast?
  prev_head : ∀ x, nodes.head? = some x → list'.heap.prev x = some (some a)
  prev_other : ∀ b, b ≠ a → nodes.head? ≠ some b → list'.heap.prev b = list.heap.prev b
  value : list'.heap.value a = some value
  value_other : ∀ b, b ≠ a → list'.heap.value b = list.heap.value b
  head : list'.head = if nodes = [] then some a else list.head
  tail : list'.tail = some a
  size : list'.size = list.size + 1
  freeFunc : list'.freeFunc = list.freeFunc
  freed : list'.freed = list.freed

/-- A list that has no other nodes has none with one more either. -/
theorem Appended.only {value : Value} (happ : Appended list list' nodes a value)
    (h : ∀ b, b ∉ nodes → list.heap b = none) {b : Nat} (hb : b ∉ nodes ++ [a]) :
    list'.heap b = none := by
  rw [List.mem_append, List.mem_singleton, not_or] at hb
  refine LinkedListHeap.eq_none_of_value ?_
  rw [happ.value_other b hb.2, LinkedListHeap.value_eq_none (h b hb.1)]

namespace Forward

/-- The first addition. -/
theorem append_first (h : list.Forward []) (value : Value) (a : Nat) :
    ∃ list', linkedListAdd list value (some a) = .ok (list', 1) ∧
      Appended list list' [] a value := by
  have htail : list.tail = none := h.tail
  refine ⟨{ list with
      heap := list.heap.put a (some { prev := none, next := none, value })
      head := some a
      tail := some a
      size := list.size + 1 }, ?_, LinkedListHeap.next_put_self, ?_,
    fun b hb _ => LinkedListHeap.next_put_ne hb _, LinkedListHeap.prev_put_self, ?_,
    fun b hb _ => LinkedListHeap.prev_put_ne hb _, LinkedListHeap.value_put_self,
    fun b hb => LinkedListHeap.value_put_ne hb _, rfl, rfl, rfl, rfl, rfl⟩
  · simp [linkedListAdd, LinkedList.put, htail]
  · rintro t ⟨⟩
  · rintro x ⟨⟩

/-- The stores of an addition behind other nodes: the new node, `next` of the last, and
`prev` of the first. -/
theorem append_behind (h : list.Forward nodes) (hne : nodes ≠ []) (ha : a ∉ nodes)
    (value : Value) :
    ∃ list', linkedListAdd list value (some a) = .ok (list', 1) ∧
      Appended list list' nodes a value := by
  obtain ⟨x, hx⟩ := Option.ne_none_iff_exists'.mp (mt List.head?_eq_none_iff.mp hne)
  obtain ⟨t, ht⟩ := Option.ne_none_iff_exists'.mp (mt List.getLast?_eq_none_iff.mp hne)
  have hhead : list.head = some x := h.next.head_eq.trans hx
  have htail : list.tail = some t := h.tail.trans ht
  have hmem : ∀ b ∈ nodes, b ≠ a := fun b hb he => ha (he ▸ hb)
  have hta := hmem t (List.mem_of_getLast? ht)
  have hxa := hmem x (List.mem_of_head? hx)
  obtain ⟨last, hlast⟩ := h.live (List.mem_of_getLast? ht)
  obtain ⟨first, hfirst⟩ := h.live (List.mem_of_head? hx)
  have h₁ : list.heap.put a (some { prev := some t, next := none, value }) t = some last :=
    (LinkedListHeap.put_ne hta _).trans hlast
  generalize hheap₁ : list.heap.put a (some { prev := some t, next := none, value }) = heap₁ at h₁
  have h₂ : ∃ first', heap₁.put t (some { last with next := some a }) x = some first' := by
    by_cases hxt : x = t
    · subst hxt
      exact ⟨_, LinkedListHeap.put_self _⟩
    · refine ⟨first, ?_⟩
      rw [LinkedListHeap.put_ne hxt, ← hheap₁, LinkedListHeap.put_ne hxa, hfirst]
  obtain ⟨first', h₂⟩ := h₂
  generalize hheap₂ : heap₁.put t (some { last with next := some a }) = heap₂ at h₂
  refine ⟨{ list with
      heap := heap₂.put x (some { first' with prev := some a })
      tail := some a
      size := list.size + 1 }, ?_, ?_, fun t' ht' => ?_, fun b hb hbt => ?_, ?_, fun x' hx' => ?_,
    fun b hb hbx => ?_, ?_, fun b hb => ?_, (if_neg hne).symm, rfl, rfl, rfl, rfl⟩
  · have hnext : ∀ l : LinkedList Value, l.heap = heap₁ → l.storeNext (some t) (some a) =
        .ok { l with heap := heap₂ } := by
      rintro l hl
      rw [storeNext_ok (hl ▸ h₁), put, hl, hheap₂]
    have hprev : ∀ l : LinkedList Value, l.heap = heap₂ → l.storePrev (some x) (some a) =
        .ok { l with heap := heap₂.put x (some { first' with prev := some a }) } := by
      rintro l hl
      rw [storePrev_ok (hl ▸ h₂), put, hl]
    simp only [linkedListAdd, LinkedList.put, htail, hhead, hheap₁]
    rw [if_pos (Option.some_ne_none t), hnext _ rfl, ok_bind, hprev _ rfl, ok_bind]
  · show (heap₂.put x _).next a = _
    rw [LinkedListHeap.next_put_prev h₂, ← hheap₂, LinkedListHeap.next_put_ne hta.symm, ← hheap₁,
      LinkedListHeap.next_put_self]
  · cases ht.symm.trans ht'
    show (heap₂.put x _).next t = _
    rw [LinkedListHeap.next_put_prev h₂, ← hheap₂, LinkedListHeap.next_put_self]
  · show (heap₂.put x _).next b = _
    rw [LinkedListHeap.next_put_prev h₂, ← hheap₂,
      LinkedListHeap.next_put_ne (fun he : b = t => hbt (he ▸ ht)), ← hheap₁,
      LinkedListHeap.next_put_ne hb]
  · show (heap₂.put x _).prev a = _
    rw [LinkedListHeap.prev_put_ne hxa.symm, ← hheap₂, LinkedListHeap.prev_put_next h₁, ← hheap₁,
      LinkedListHeap.prev_put_self, ht]
  · cases hx.symm.trans hx'
    exact LinkedListHeap.prev_put_self
  · show (heap₂.put x _).prev b = _
    rw [LinkedListHeap.prev_put_ne (fun he : b = x => hbx (he ▸ hx)), ← hheap₂,
      LinkedListHeap.prev_put_next h₁, ← hheap₁, LinkedListHeap.prev_put_ne hb]
  · show (heap₂.put x _).value a = _
    rw [LinkedListHeap.value_put_prev h₂, ← hheap₂, LinkedListHeap.value_put_next h₁, ← hheap₁,
      LinkedListHeap.value_put_self]
  · show (heap₂.put x _).value b = _
    rw [LinkedListHeap.value_put_prev h₂, ← hheap₂, LinkedListHeap.value_put_next h₁, ← hheap₁,
      LinkedListHeap.value_put_ne hb]

/-- `linked_list_add` with a node that is not one of the list's. -/
theorem append (h : list.Forward nodes) (ha : a ∉ nodes) (value : Value) :
    ∃ list', linkedListAdd list value (some a) = .ok (list', 1) ∧
      Appended list list' nodes a value := by
  by_cases hne : nodes = []
  · subst hne
    exact h.append_first value a
  · exact h.append_behind hne ha value

theorem appended (h : list.Forward nodes) (ha : a ∉ nodes) {value : Value} {r : UInt32}
    (hadd : linkedListAdd list value (some a) = .ok (list', r)) :
    Appended list list' nodes a value := by
  obtain ⟨list₁, he, happ⟩ := h.append ha value
  rw [hadd] at he
  cases he
  exact happ

/-- The nodes of the list with one more behind them. -/
theorem behind (h : list.Forward nodes) (ha : a ∉ nodes) {value : Value}
    (happ : Appended list list' nodes a value) : list'.Forward (nodes ++ [a]) := by
  refine ⟨?_, ?_, ?_⟩
  · rw [happ.head]
    exact h.next.concat happ.next happ.next_last fun b hb hne =>
      happ.next_other b (fun he => ha (he ▸ hb)) hne
  · rw [happ.tail, List.getLast?_concat]
  · rw [happ.size, h.size, List.length_append, List.length_singleton, UInt32.ofNat_add]
    rfl

end Forward

namespace Holds

/-- The values of the list with one more behind them. -/
theorem behind (h : list.Holds nodes items) (ha : a ∉ nodes) {value : Value}
    (happ : Appended list list' nodes a value) :
    list'.Holds (nodes ++ [a]) (items ++ [value]) := by
  have hf := h.forward.behind ha happ
  refine ⟨hf.next, hf.tail, ?_, ?_⟩
  · rw [List.map_append, List.map_append, ← h.value, List.map_singleton, happ.value]
    exact congrArg (· ++ [some value]) (List.map_congr_left fun b hb =>
      happ.value_other b fun he => ha (he ▸ hb))
  · rw [hf.size, List.length_append, List.length_append, h.length_eq]
    rfl

/-- **`linked_list_add` puts the value behind those of the list**, in a node that is not
one of the list's. -/
theorem add (h : list.Holds nodes items) (ha : a ∉ nodes) (value : Value) :
    ∃ list', linkedListAdd list value (some a) = .ok (list', 1) ∧
      list'.Holds (nodes ++ [a]) (items ++ [value]) := by
  obtain ⟨list', he, happ⟩ := h.forward.append ha value
  exact ⟨list', he, h.behind ha happ⟩

/-- A node and its value, with those before and behind it. -/
theorem split {l r : List Nat} {x : Nat} (h : list.Holds (l ++ x :: r) items) :
    ∃ before value after, items = before ++ value :: after ∧ before.length = l.length ∧
      list.heap.value x = some value := by
  have hvalue := h.value
  rw [List.map_append, List.map_cons] at hvalue
  obtain ⟨before, rest, rfl, hb, hrest⟩ := List.map_eq_append_iff.mp hvalue.symm
  obtain ⟨value, after, rfl, hv, -⟩ := List.map_eq_cons_iff.mp hrest
  refine ⟨before, value, after, rfl, ?_, hv.symm⟩
  simpa using congrArg List.length hb

/-- The value of a node. -/
theorem value_at {l r : List Nat} {x : Nat} {before after : List Value} {value : Value}
    (h : list.Holds (l ++ x :: r) (before ++ value :: after)) (hlen : before.length = l.length) :
    list.heap.value x = some value := by
  have hvalue := h.value
  rw [List.map_append, List.map_append, List.map_cons, List.map_cons] at hvalue
  obtain ⟨-, hrest⟩ := List.append_inj hvalue (by rw [List.length_map, List.length_map, hlen])
  exact (List.cons.inj hrest).1

/-- What is left where a node is taken out. -/
theorem take {l r : List Nat} {x : Nat} {before after : List Value} {value : Value}
    (h : list.Holds (l ++ x :: r) (before ++ value :: after)) (hlen : before.length = l.length)
    (ht : Taken list list' l x r) : list'.Holds (l ++ r) (before ++ after) := by
  have hf := h.forward.take ht
  have hvalue := h.value
  rw [List.map_append, List.map_append, List.map_cons, List.map_cons] at hvalue
  obtain ⟨hb, hrest⟩ := List.append_inj hvalue (by rw [List.length_map, List.length_map, hlen])
  refine ⟨hf.next, hf.tail, ?_, ?_⟩
  · rw [List.map_append, List.map_append, ← hb, ← (List.cons.inj hrest).2, ← List.map_append,
      ← List.map_append]
    exact List.map_congr_left fun y hy => ht.value y (h.forward.ne_of_mem hy)
  · have hafter := congrArg List.length (List.cons.inj hrest).2
    rw [List.length_map, List.length_map] at hafter
    rw [hf.size, List.length_append, List.length_append, hlen, hafter]

/-- `linked_list_pop_front` takes the first value. -/
theorem popFront {x : Nat} {r : List Nat} (h : list.Holds (x :: r) items) :
    ∃ value rest list', items = value :: rest ∧
      linkedListPopFront list = .ok (list', some value) ∧ list'.Holds r rest ∧
      Taken list list' [] x r ∧ list'.freed = list.freed := by
  obtain ⟨list', elt, hx, he, ht, hfreed⟩ := popFront_taken h.forward
  have h : list.Holds ([] ++ x :: r) items := h
  obtain ⟨before, value, rest, rfl, hlen, hv⟩ := h.split
  obtain rfl := List.length_eq_zero_iff.mp hlen
  rw [LinkedListHeap.value_eq hx] at hv
  cases hv
  exact ⟨elt.value, rest, list', rfl, he, h.take rfl ht, ht, hfreed⟩

end Holds

end LinkedList

/-- Additions one after the other, each with the address `malloc` returns for its node. -/
def linkedListAddAll (list : LinkedList Value) :
    List (Value × Nat) → Except Fault (LinkedList Value)
  | [] => .ok list
  | (value, elt) :: rest => do
      let (list, _) ← linkedListAdd list value (some elt)
      linkedListAddAll list rest

/-- **A list holds what was added to it**, if `malloc` never returns a node in use. -/
theorem LinkedList.Holds.addAll {list : LinkedList Value} {nodes : List Nat} {items : List Value}
    (h : list.Holds nodes items) {adds : List (Value × Nat)}
    (hnodup : (nodes ++ adds.map Prod.snd).Nodup) :
    ∃ list', linkedListAddAll list adds = .ok list' ∧
      list'.Holds (nodes ++ adds.map Prod.snd) (items ++ adds.map Prod.fst) := by
  induction adds generalizing list nodes items with
  | nil =>
      refine ⟨list, rfl, ?_⟩
      rwa [List.map_nil, List.map_nil, List.append_nil, List.append_nil]
  | cons add rest ih =>
      obtain ⟨value, a⟩ := add
      rw [List.map_cons] at hnodup
      have ha : a ∉ nodes := fun hmem =>
        (List.nodup_append.mp hnodup).2.2 a hmem a List.mem_cons_self rfl
      obtain ⟨list₁, he, h₁⟩ := h.add ha value
      obtain ⟨list', hrest, h'⟩ := ih h₁ (by rwa [List.append_assoc, List.singleton_append])
      refine ⟨list', ?_, ?_⟩
      · rw [linkedListAddAll, he, ok_bind]
        exact hrest
      · rwa [List.append_assoc, List.append_assoc, List.singleton_append,
          List.singleton_append] at h'

end BlackHV
