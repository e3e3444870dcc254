import BlackHV.LinkedList
import Mathlib.Data.List.Nodup

/-! # What the calls do to the links

The three functions that take a node out of a list, `remove_elt` and the two pops, need
little of it: the links along `next`, from the head to the tail, and the `prev` link of
the node they take.  What they leave is said once here (`Taken`), and the other modules
draw from it what they are about.
-/
namespace BlackHV

open Chains

variable {Value : Type}

namespace LinkedListHeap

/-- The `next` pointer of a live node. -/
def next (heap : LinkedListHeap Value) (a : Nat) : Option (Option Nat) := (heap a).map (·.next)

/-- The `prev` pointer of a live node. -/
def prev (heap : LinkedListHeap Value) (a : Nat) : Option (Option Nat) := (heap a).map (·.prev)

/-- The value of a live node. -/
def value (heap : LinkedListHeap Value) (a : Nat) : Option Value := (heap a).map (·.value)

variable {heap : LinkedListHeap Value} {a b : Nat} {elt : LinkedListElt Value}

theorem next_eq (h : heap a = some elt) : heap.next a = some elt.next := by rw [next, h]; rfl

theorem prev_eq (h : heap a = some elt) : heap.prev a = some elt.prev := by rw [prev, h]; rfl

theorem put_self (elt : Option (LinkedListElt Value)) : heap.put a elt a = elt := if_pos rfl

theorem put_ne (h : b ≠ a) (elt : Option (LinkedListElt Value)) : heap.put a elt b = heap b :=
  if_neg h

theorem next_put_ne (h : b ≠ a) (elt : Option (LinkedListElt Value)) :
    (heap.put a elt).next b = heap.next b := by rw [next, put_ne h]; rfl

theorem prev_put_ne (h : b ≠ a) (elt : Option (LinkedListElt Value)) :
    (heap.put a elt).prev b = heap.prev b := by rw [prev, put_ne h]; rfl

theorem next_put_self : (heap.put a (some elt)).next a = some elt.next := next_eq (put_self _)

theorem prev_put_self : (heap.put a (some elt)).prev a = some elt.prev := prev_eq (put_self _)

/-- A store into `prev` leaves every `next` pointer as it is. -/
theorem next_put_prev (h : heap a = some elt) (p : Option Nat) (b : Nat) :
    (heap.put a (some { elt with prev := p })).next b = heap.next b := by
  by_cases hb : b = a
  · rw [hb, next_put_self, next_eq h]
  · exact next_put_ne hb _

/-- A store into `next` leaves every `prev` pointer as it is. -/
theorem prev_put_next (h : heap a = some elt) (q : Option Nat) (b : Nat) :
    (heap.put a (some { elt with next := q })).prev b = heap.prev b := by
  by_cases hb : b = a
  · rw [hb, prev_put_self, prev_eq h]
  · exact prev_put_ne hb _

theorem value_eq (h : heap a = some elt) : heap.value a = some elt.value := by rw [value, h]; rfl

theorem value_eq_none (h : heap a = none) : heap.value a = none := by rw [value, h]; rfl

theorem eq_none_of_value (h : heap.value a = none) : heap a = none := Option.map_eq_none_iff.mp h

theorem value_put_self : (heap.put a (some elt)).value a = some elt.value := value_eq (put_self _)

theorem value_put_ne (h : b ≠ a) (elt : Option (LinkedListElt Value)) :
    (heap.put a elt).value b = heap.value b := by rw [value, put_ne h]; rfl

/-- A store into `prev` leaves every value as it is. -/
theorem value_put_prev (h : heap a = some elt) (p : Option Nat) (b : Nat) :
    (heap.put a (some { elt with prev := p })).value b = heap.value b := by
  by_cases hb : b = a
  · rw [hb, value_put_self, value_eq h]
  · exact value_put_ne hb _

/-- A store into `next` leaves every value as it is. -/
theorem value_put_next (h : heap a = some elt) (q : Option Nat) (b : Nat) :
    (heap.put a (some { elt with next := q })).value b = heap.value b := by
  by_cases hb : b = a
  · rw [hb, value_put_self, value_eq h]
  · exact value_put_ne hb _

theorem deref_ok (h : heap a = some elt) : heap.deref (some a) = .ok (a, elt) := by
  simp only [deref, h]

theorem exists_of_next {q : Option Nat} (h : heap.next a = some q) : ∃ elt, heap a = some elt := by
  obtain ⟨elt, he, -⟩ := Option.map_eq_some_iff.mp h
  exact ⟨elt, he⟩

theorem exists_of_prev {p : Option Nat} (h : heap.prev a = some p) : ∃ elt, heap a = some elt := by
  obtain ⟨elt, he, -⟩ := Option.map_eq_some_iff.mp h
  exact ⟨elt, he⟩

end LinkedListHeap

namespace LinkedList

section Accesses
variable {list : LinkedList Value} {a : Nat} {elt : LinkedListElt Value}

theorem loadPrev_ok (h : list.heap a = some elt) : list.loadPrev (some a) = .ok elt.prev := by
  rw [loadPrev, LinkedListHeap.deref_ok h, ok_bind]

theorem loadNext_ok (h : list.heap a = some elt) : list.loadNext (some a) = .ok elt.next := by
  rw [loadNext, LinkedListHeap.deref_ok h, ok_bind]

theorem loadValue_ok (h : list.heap a = some elt) : list.loadValue (some a) = .ok elt.value := by
  rw [loadValue, LinkedListHeap.deref_ok h, ok_bind]

theorem storePrev_ok (h : list.heap a = some elt) (p : Option Nat) :
    list.storePrev (some a) p = .ok (list.put a (some { elt with prev := p })) := by
  rw [storePrev, LinkedListHeap.deref_ok h, ok_bind]

theorem storeNext_ok (h : list.heap a = some elt) (q : Option Nat) :
    list.storeNext (some a) q = .ok (list.put a (some { elt with next := q })) := by
  rw [storeNext, LinkedListHeap.deref_ok h, ok_bind]

theorem deref_eq_ok {pointer : Option Nat} (h : list.heap.deref pointer = .ok (a, elt)) :
    pointer = some a := by
  cases pointer with
  | none => cases h
  | some b =>
      rw [LinkedListHeap.deref] at h
      split at h
      · cases h
        rfl
      · cases h

theorem heap_of_deref {pointer : Option Nat} (h : list.heap.deref pointer = .ok (a, elt)) :
    list.heap a = some elt := by
  have hp := deref_eq_ok h
  subst hp
  rw [LinkedListHeap.deref] at h
  split at h
  · rename_i he
    cases h
    exact he
  · cases h

theorem loadNext_eq_ok {q : Option Nat} (h : list.loadNext (some a) = .ok q) :
    list.heap.next a = some q := by
  obtain ⟨⟨b, elt⟩, hd, h⟩ := bind_eq_ok.mp h
  cases deref_eq_ok hd
  cases h
  exact LinkedListHeap.next_eq (heap_of_deref hd)

theorem loadPrev_eq_ok {p : Option Nat} (h : list.loadPrev (some a) = .ok p) :
    list.heap.prev a = some p := by
  obtain ⟨⟨b, elt⟩, hd, h⟩ := bind_eq_ok.mp h
  cases deref_eq_ok hd
  cases h
  exact LinkedListHeap.prev_eq (heap_of_deref hd)

theorem storeNext_eq_ok {list' : LinkedList Value} {p q : Option Nat}
    (h : list.storeNext p q = .ok list') :
    ∃ x elt, p = some x ∧ list' = list.put x (some elt) := by
  obtain ⟨⟨x, elt⟩, hd, h⟩ := bind_eq_ok.mp h
  cases h
  exact ⟨x, _, deref_eq_ok hd, rfl⟩

theorem storePrev_eq_put {list' : LinkedList Value} {p q : Option Nat}
    (h : list.storePrev p q = .ok list') :
    ∃ x elt, p = some x ∧ list' = list.put x (some elt) := by
  obtain ⟨⟨x, elt⟩, hd, h⟩ := bind_eq_ok.mp h
  cases h
  exact ⟨x, _, deref_eq_ok hd, rfl⟩

/-- A store into `prev` that returns was at a node. -/
theorem storePrev_eq_ok {list' : LinkedList Value} {pointer p : Option Nat}
    (h : list.storePrev pointer p = .ok list') :
    ∃ a, pointer = some a ∧ list'.head = list.head ∧ list'.heap.prev a = some p := by
  obtain ⟨⟨a, elt⟩, hd, h⟩ := bind_eq_ok.mp h
  cases h
  exact ⟨a, deref_eq_ok hd, rfl, LinkedListHeap.prev_put_self⟩

/-- What the node before an element points to after `bypassNext`. -/
theorem bypassNext_spec (h : list.heap a = some elt)
    (hlive : ∀ y, elt.prev = some y → ∃ before, list.heap y = some before) :
    ∃ heap', bypassNext list (some a) = .ok { list with heap := heap' } ∧
      (∀ y, elt.prev = some y → heap'.next y = some elt.next) ∧
      (∀ y, elt.prev ≠ some y → heap' y = list.heap y) ∧
      (∀ y, heap'.prev y = list.heap.prev y) ∧ ∀ y, heap'.value y = list.heap.value y := by
  rw [bypassNext, loadPrev_ok h, ok_bind]
  cases hp : elt.prev with
  | none =>
      refine ⟨list.heap, rfl, ?_, fun _ _ => rfl, fun _ => rfl, fun _ => rfl⟩
      rintro y ⟨⟩
  | some y =>
      obtain ⟨before, hy⟩ := hlive y hp
      refine ⟨list.heap.put y (some { before with next := elt.next }), ?_, ?_, ?_,
        LinkedListHeap.prev_put_next hy _, LinkedListHeap.value_put_next hy _⟩
      · rw [if_pos (Option.some_ne_none y), loadNext_ok h, ok_bind, storeNext_ok hy]
        rfl
      · rintro _ ⟨⟩
        exact LinkedListHeap.next_put_self
      · intro z hz
        exact LinkedListHeap.put_ne (fun he => hz (by rw [he])) _

/-- What the node after an element points back to after `bypassPrev`. -/
theorem bypassPrev_spec (h : list.heap a = some elt)
    (hlive : ∀ z, elt.next = some z → ∃ after, list.heap z = some after) :
    ∃ heap', bypassPrev list (some a) = .ok { list with heap := heap' } ∧
      (∀ z, elt.next = some z → heap'.prev z = some elt.prev) ∧
      (∀ z, elt.next ≠ some z → heap' z = list.heap z) ∧
      (∀ z, heap'.next z = list.heap.next z) ∧ ∀ z, heap'.value z = list.heap.value z := by
  rw [bypassPrev, loadNext_ok h, ok_bind]
  cases hn : elt.next with
  | none =>
      refine ⟨list.heap, rfl, ?_, fun _ _ => rfl, fun _ => rfl, fun _ => rfl⟩
      rintro z ⟨⟩
  | some z =>
      obtain ⟨after, hz⟩ := hlive z hn
      refine ⟨list.heap.put z (some { after with prev := elt.prev }), ?_, ?_, ?_,
        LinkedListHeap.next_put_prev hz _, LinkedListHeap.value_put_prev hz _⟩
      · rw [if_pos (Option.some_ne_none z), loadPrev_ok h, ok_bind, storePrev_ok hz]
        rfl
      · rintro _ ⟨⟩
        exact LinkedListHeap.prev_put_self
      · intro y hy
        exact LinkedListHeap.put_ne (fun he => hy (by rw [he])) _

end Accesses

/-! ## A node in its list -/

/-- The list consists of `nodes`, from the head along `next`, and the tail is the last of
them. -/
structure Forward (list : LinkedList Value) (nodes : List Nat) : Prop where
  next : Chain list.heap.next list.head nodes
  tail : list.tail = nodes.getLast?
  size : list.size = UInt32.ofNat nodes.length

/-- `list'` is `list` without the node `x`, whose predecessors are `l` and whose
successors are `r`: the neighbours of `x` point to each other. -/
structure Taken (list list' : LinkedList Value) (l : List Nat) (x : Nat) (r : List Nat) :
    Prop where
  next_last : ∀ y, l.getLast? = some y → list'.heap.next y = some r.head?
  next_other : ∀ y, y ≠ x → l.getLast? ≠ some y → list'.heap.next y = list.heap.next y
  prev_head : ∀ y, r.head? = some y → list'.heap.prev y = some l.getLast?
  prev_other : ∀ y, y ≠ x → r.head? ≠ some y → list'.heap.prev y = list.heap.prev y
  value : ∀ y, y ≠ x → list'.heap.value y = list.heap.value y
  gone : list'.heap x = none
  head : list'.head = if l = [] then r.head? else list.head
  tail : list'.tail = if r = [] then l.getLast? else list.tail
  size : list'.size = list.size - 1
  freeFunc : list'.freeFunc = list.freeFunc

section Nodes
variable {list list' : LinkedList Value} {nodes l r : List Nat} {x : Nat}

namespace Forward

theorem head_eq (h : list.Forward nodes) : list.head = nodes.head? := h.next.head_eq

theorem nodup (h : list.Forward nodes) : nodes.Nodup := h.next.nodup

theorem live (h : list.Forward nodes) {y : Nat} (hy : y ∈ nodes) :
    ∃ elt, list.heap y = some elt := by
  obtain ⟨q, hq⟩ := h.next.live hy
  exact LinkedListHeap.exists_of_next hq

/-- A node points to the one behind it. -/
theorem node (h : list.Forward (l ++ x :: r)) :
    ∃ elt, list.heap x = some elt ∧ elt.next = r.head? := by
  have hn := h.next.rest.1
  obtain ⟨elt, hx⟩ := LinkedListHeap.exists_of_next hn
  rw [LinkedListHeap.next_eq hx] at hn
  exact ⟨elt, hx, Option.some.inj hn⟩

/-- The node is none of the others. -/
theorem ne_of_mem (h : list.Forward (l ++ x :: r)) {y : Nat} (hy : y ∈ l ++ r) : y ≠ x := by
  rintro rfl
  have hnodup := h.nodup
  rw [List.nodup_middle, List.nodup_cons] at hnodup
  exact hnodup.1 hy

theorem head_eq_iff (h : list.Forward (l ++ x :: r)) : list.head = some x ↔ l = [] := by
  rw [h.head_eq]
  cases l with
  | nil => simp
  | cons y l =>
      have hne := h.ne_of_mem (List.mem_append_left r List.mem_cons_self)
      simpa using hne

theorem tail_eq_iff (h : list.Forward (l ++ x :: r)) : list.tail = some x ↔ r = [] := by
  rw [h.tail]
  rcases List.eq_nil_or_concat r with rfl | ⟨r', y, rfl⟩
  · simp
  · have hne : y ≠ x := h.ne_of_mem (by simp)
    have hlast : (l ++ x :: r'.concat y).getLast? = some y := by
      rw [List.concat_eq_append, ← List.cons_append, ← List.append_assoc, List.getLast?_concat]
    rw [hlast]
    simpa using hne

/-- The nodes beside `x` are live. -/
theorem live_beside (h : list.Forward (l ++ x :: r)) {y : Nat} (hy : y ∈ l ++ r) :
    ∃ elt, list.heap y = some elt := by
  refine h.live ?_
  rw [List.mem_append, List.mem_cons]
  exact (List.mem_append.mp hy).imp_right Or.inr

theorem size_single (h : list.Forward [x]) : list.size = 1 := h.size

/-- The list without one of its nodes. -/
theorem take (h : list.Forward (l ++ x :: r)) (ht : Taken list list' l x r) :
    list'.Forward (l ++ r) := by
  refine ⟨?_, ?_, ?_⟩
  · rw [ht.head]
    refine h.next.unlink (fun y hy => ?_) fun y hy hne => ht.next_other y (h.ne_of_mem hy) hne
    rw [ht.next_last y hy, h.next.rest.1]
  · rw [ht.tail, h.tail]
    by_cases hr : r = []
    · rw [if_pos hr, hr, List.append_nil]
    · rw [if_neg hr, List.getLast?_append_of_ne_nil _ (List.cons_ne_nil _ _),
        List.getLast?_cons_of_ne_nil hr, List.getLast?_append_of_ne_nil _ hr]
  · rw [ht.size, h.size, List.length_append, List.length_cons, List.length_append, ← Nat.add_assoc,
      UInt32.ofNat_add]
    exact UInt32.add_sub_cancel _ _

end Forward

/-- A list that has no other nodes has none without one of them either. -/
theorem Taken.only (ht : Taken list list' l x r) (h : ∀ b, b ∉ l ++ x :: r → list.heap b = none)
    {b : Nat} (hb : b ∉ l ++ r) : list'.heap b = none := by
  by_cases hbx : b = x
  · rw [hbx]
    exact ht.gone
  · have hmem : b ∉ l ++ x :: r := fun hmem => hb (by simpa [hbx] using hmem)
    refine LinkedListHeap.eq_none_of_value ?_
    rw [ht.value b hbx, LinkedListHeap.value_eq_none (h b hmem)]

/-- `malloc` does not return a node of the list. -/
theorem Forward.not_mem (h : list.Forward nodes) (hx : list.heap x = none) : x ∉ nodes :=
  fun hmem => by
    obtain ⟨elt, he⟩ := h.live hmem
    cases he.symm.trans hx

/-! ## The three functions -/

/-- `remove_elt` takes out a node whose `prev` link is right. -/
theorem removeElt_taken (h : list.Forward (l ++ x :: r))
    (hback : list.heap.prev x = some l.getLast?) :
    ∃ list' elt, list.heap x = some elt ∧ removeElt list (some x) = .ok list' ∧
      Taken list list' l x r ∧
      list'.freed = if list.freeFunc then list.freed ++ [elt.value] else list.freed := by
  obtain ⟨elt, hx, hnext⟩ := h.node
  rw [LinkedListHeap.prev_eq hx] at hback
  have hprev : elt.prev = l.getLast? := Option.some.inj hback
  -- the neighbours of `x` are live, and none of them is `x`
  have hbefore : ∀ y, elt.prev = some y → y ∈ l ++ r := fun y hy =>
    List.mem_append_left r (List.mem_of_getLast? (hprev ▸ hy))
  have hafter : ∀ z, elt.next = some z → z ∈ l ++ r := fun z hz =>
    List.mem_append_right l (List.mem_of_head? (hnext ▸ hz))
  obtain ⟨heap₁, hb₁, hnext₁, hsame₁, hprev₁, hvalue₁⟩ :=
    bypassNext_spec hx fun y hy => h.live_beside (hbefore y hy)
  have hx₁ : heap₁ x = some elt := by
    rw [hsame₁ x fun he => h.ne_of_mem (hbefore x he) rfl, hx]
  obtain ⟨heap₂, hb₂, hprev₂, hsame₂, hnext₂, hvalue₂⟩ :=
    @bypassPrev_spec _ { list with heap := heap₁ } _ _ hx₁ fun z hz => by
      obtain ⟨e, he⟩ := h.live_beside (hafter z hz)
      exact LinkedListHeap.exists_of_prev ((hprev₁ z).trans (LinkedListHeap.prev_eq he))
  have hx₂ : heap₂ x = some elt := by
    rw [hsame₂ x fun he => h.ne_of_mem (hafter x he) rfl]
    exact hx₁
  have hhead := h.head_eq_iff
  have htail := h.tail_eq_iff
  refine ⟨{ list with
      heap := heap₂.put x none
      head := if list.head = some x then elt.next else list.head
      tail := if list.tail = some x then elt.prev else list.tail
      freed := if list.freeFunc then list.freed ++ [elt.value] else list.freed
      size := list.size - 1 }, elt, hx, ?_, ?_, rfl⟩
  · have hderef := LinkedListHeap.deref_ok hx₂
    rw [removeElt, hb₁, ok_bind, hb₂, ok_bind]
    simp only [loadNext, loadPrev, loadValue, free, put, hderef, ok_bind]
  · refine ⟨fun y hy => ?_, fun y hne hy => ?_, fun y hy => ?_, fun y hne hy => ?_, fun y hne => ?_,
      LinkedListHeap.put_self _, ?_, ?_, rfl, rfl⟩
    · have hmem := hbefore y (hprev.trans hy)
      show (heap₂.put x none).next y = _
      rw [LinkedListHeap.next_put_ne (h.ne_of_mem hmem), hnext₂, ← hnext]
      exact hnext₁ y (hprev.trans hy)
    · show (heap₂.put x none).next y = _
      rw [LinkedListHeap.next_put_ne hne, hnext₂]
      exact congrArg _ (hsame₁ y (hprev ▸ hy))
    · have hmem := hafter y (hnext.trans hy)
      show (heap₂.put x none).prev y = _
      rw [LinkedListHeap.prev_put_ne (h.ne_of_mem hmem), ← hprev]
      exact hprev₂ y (hnext.trans hy)
    · show (heap₂.put x none).prev y = _
      rw [LinkedListHeap.prev_put_ne hne, ← hprev₁]
      exact congrArg _ (hsame₂ y (hnext ▸ hy))
    · show (heap₂.put x none).value y = _
      rw [LinkedListHeap.value_put_ne hne, hvalue₂]
      exact hvalue₁ y
    · show (if list.head = some x then elt.next else list.head) = _
      rw [hnext]
      simp only [hhead]
    · show (if list.tail = some x then elt.prev else list.tail) = _
      rw [hprev]
      simp only [htail]

/-- `linked_list_pop_tail` on a list of one node: the tail is what its `prev` link says. -/
theorem popTail_single {elt : LinkedListElt Value} (h : list.Forward [x])
    (hx : list.heap x = some elt) :
    linkedListPopTail list = .ok ({ list with
      heap := list.heap.put x none, head := none, tail := elt.prev, size := 0 },
      some elt.value) := by
  have hderef := LinkedListHeap.deref_ok hx
  have hhead : list.head = some x := h.head_eq
  have htail : list.tail = some x := h.tail
  simp only [linkedListPopTail, htail, hhead, loadValue, loadPrev, free, put, hderef, ok_bind,
    if_pos, reduceCtorEq, if_false]

/-- `linked_list_pop_tail` takes out the last node, if its `prev` link is right. -/
theorem popTail_taken (h : list.Forward (l ++ [x]))
    (hback : list.heap.prev x = some l.getLast?) :
    ∃ list' elt, list.heap x = some elt ∧ linkedListPopTail list = .ok (list', some elt.value) ∧
      Taken list list' l x [] ∧ list'.freed = list.freed := by
  obtain ⟨elt, hx, hnext⟩ := h.node
  have hderef := LinkedListHeap.deref_ok hx
  have htail : list.tail = some x := h.tail_eq_iff.mpr rfl
  rw [LinkedListHeap.prev_eq hx] at hback
  have hprev : elt.prev = l.getLast? := Option.some.inj hback
  -- the source empties the list where the last node is the only one
  rcases List.eq_nil_or_concat l with rfl | ⟨l', y, hl⟩
  · refine ⟨_, elt, hx, popTail_single h hx, ?_, rfl⟩
    have hone := h.size_single
    refine ⟨?_, fun y hne _ => LinkedListHeap.next_put_ne hne _, ?_,
      fun y hne _ => LinkedListHeap.prev_put_ne hne _,
      fun y hne => LinkedListHeap.value_put_ne hne _, LinkedListHeap.put_self _, rfl, hprev,
      by rw [hone]; rfl, rfl⟩
    · rintro y ⟨⟩
    · rintro y ⟨⟩
  · have hy : l.getLast? = some y := by rw [hl, List.concat_eq_append, List.getLast?_concat]
    have hne : l ≠ [] := fun he => by rw [he] at hy; cases hy
    have hhead : list.head ≠ some x := mt h.head_eq_iff.mp hne
    have hymem : y ∈ l ++ [] := List.mem_append_left _ (List.mem_of_getLast? hy)
    have hyx := h.ne_of_mem hymem
    obtain ⟨before, hbefore⟩ := h.live_beside hymem
    have hprevy : elt.prev = some y := hprev.trans hy
    have hderefy := LinkedListHeap.deref_ok hbefore
    have hderef' : (list.heap.put y (some { before with next := none })).deref (some x) =
        .ok (x, elt) := LinkedListHeap.deref_ok ((LinkedListHeap.put_ne hyx.symm _).trans hx)
    refine ⟨{ list with
        heap := (list.heap.put y (some { before with next := none })).put x none
        tail := elt.prev
        size := list.size - 1 }, elt, hx, ?_, ?_, rfl⟩
    · simp only [linkedListPopTail, htail, if_neg hhead.symm, loadValue, loadPrev, storeNext, free,
        put, hderef, hprevy, hderefy, hderef', ok_bind, reduceCtorEq, if_false]
    · refine ⟨fun z hz => ?_, fun z hzx hz => ?_, ?_, fun z hzx _ => ?_, fun z hzx => ?_,
        LinkedListHeap.put_self _, (if_neg hne).symm, hprev, rfl, rfl⟩
      · cases hy.symm.trans hz
        show ((list.heap.put y _).put x none).next y = _
        rw [LinkedListHeap.next_put_ne hyx, LinkedListHeap.next_put_self]
        rfl
      · have hzy : z ≠ y := fun he => hz (he ▸ hy)
        show ((list.heap.put y _).put x none).next z = _
        rw [LinkedListHeap.next_put_ne hzx, LinkedListHeap.next_put_ne hzy]
      · rintro z ⟨⟩
      · show ((list.heap.put y _).put x none).prev z = _
        rw [LinkedListHeap.prev_put_ne hzx, LinkedListHeap.prev_put_next hbefore]
      · show ((list.heap.put y _).put x none).value z = _
        rw [LinkedListHeap.value_put_ne hzx, LinkedListHeap.value_put_next hbefore]

/-- `linked_list_pop_front` takes out the first node, and needs none of the `prev` links for
it. -/
theorem popFront_taken (h : list.Forward (x :: r)) :
    ∃ list' elt, list.heap x = some elt ∧ linkedListPopFront list = .ok (list', some elt.value) ∧
      Taken list list' [] x r ∧ list'.freed = list.freed := by
  have h : list.Forward ([] ++ x :: r) := h
  obtain ⟨elt, hx, hnext⟩ := h.node
  have hderef := LinkedListHeap.deref_ok hx
  have hhead : list.head = some x := h.head_eq_iff.mpr rfl
  -- the source empties the list where the first node is the only one
  cases r with
  | nil =>
      have htail : list.tail = some x := h.tail_eq_iff.mpr rfl
      have hone := h.size_single
      refine ⟨{ list with heap := list.heap.put x none, head := elt.next, tail := none, size := 0 },
        elt, hx, ?_, ?_, rfl⟩
      · simp only [linkedListPopFront, htail, hhead, loadValue, loadNext, free, put, hderef,
          ok_bind, if_pos, reduceCtorEq, if_false]
      · refine ⟨?_, fun y hne _ => LinkedListHeap.next_put_ne hne _, ?_,
          fun y hne _ => LinkedListHeap.prev_put_ne hne _,
          fun y hne => LinkedListHeap.value_put_ne hne _, LinkedListHeap.put_self _, hnext, rfl,
          by rw [hone]; rfl, rfl⟩
        · rintro y ⟨⟩
        · rintro y ⟨⟩
  | cons z r =>
      have htail : list.tail ≠ some x := mt h.tail_eq_iff.mp (List.cons_ne_nil _ _)
      have hzmem : z ∈ [] ++ z :: r := List.mem_cons_self
      have hzx := h.ne_of_mem hzmem
      obtain ⟨after, hafter⟩ := h.live_beside hzmem
      have hnextz : elt.next = some z := hnext
      have hderefz := LinkedListHeap.deref_ok hafter
      have hderef' : (list.heap.put z (some { after with prev := none })).deref (some x) =
          .ok (x, elt) := LinkedListHeap.deref_ok ((LinkedListHeap.put_ne hzx.symm _).trans hx)
      refine ⟨{ list with
          heap := (list.heap.put z (some { after with prev := none })).put x none
          head := elt.next
          size := list.size - 1 }, elt, hx, ?_, ?_, rfl⟩
      · simp only [linkedListPopFront, hhead, if_neg htail.symm, loadValue, loadNext, storePrev,
          free, put, hderef, hnextz, hderefz, hderef', ok_bind, reduceCtorEq, if_false]
      · refine ⟨?_, fun y hyx _ => ?_, fun y hy => ?_, fun y hyx hy => ?_, fun y hyx => ?_,
          LinkedListHeap.put_self _, hnext, (if_neg (List.cons_ne_nil _ _)).symm, rfl, rfl⟩
        · rintro y ⟨⟩
        · show ((list.heap.put z _).put x none).next y = _
          rw [LinkedListHeap.next_put_ne hyx, LinkedListHeap.next_put_prev hafter]
        · cases hy
          show ((list.heap.put z _).put x none).prev z = _
          rw [LinkedListHeap.prev_put_ne hzx, LinkedListHeap.prev_put_self]
          rfl
        · have hyz : y ≠ z := fun he => hy (by rw [he]; rfl)
          show ((list.heap.put z _).put x none).prev y = _
          rw [LinkedListHeap.prev_put_ne hyx, LinkedListHeap.prev_put_ne hyz]
        · show ((list.heap.put z _).put x none).value y = _
          rw [LinkedListHeap.value_put_ne hyx, LinkedListHeap.value_put_prev hafter]

end Nodes

end LinkedList

end BlackHV
