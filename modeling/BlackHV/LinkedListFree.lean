import BlackHV.LinkedListGrowth

/-! # Freeing a list

`linked_list_free` walks the list along `next`, hands every value to `free_func`, frees
the node, and at the end frees the list itself.  What `free_func` does is a parameter
here, a function on a state of its own.
-/
namespace BlackHV

open Chains

variable {Value State : Type}

/-- The loop of `linked_list_free`.  It need not terminate on a list whose nodes form a
cycle; `fuel` bounds the number of its passes. -/
def linkedListFreeLoop (freeFunc : State → Value → Except Fault State) (list : LinkedList Value)
    (s : State) : Option Nat → Nat → Except Fault (LinkedList Value × State)
  | none, _ => .ok (list, s)
  | some _, 0 => .error .divergence
  | some current, fuel + 1 => do
      let tmp ← list.loadNext (some current)
      let value ← list.loadValue (some current)
      let s ← if list.freeFunc then freeFunc s value else .ok s
      let list := { list with freed := if list.freeFunc then list.freed ++ [value] else list.freed }
      let list ← list.free (some current)
      linkedListFreeLoop freeFunc list s tmp fuel

/-- `linked_list_free` on a list that is not `NULL`: the nodes that are left, and the
state after all calls of `free_func`. -/
def linkedListFree (freeFunc : State → Value → Except Fault State) (list : LinkedList Value)
    (s : State) (fuel : Nat) : Except Fault (LinkedListHeap Value × State) := do
  let (list, s) ← linkedListFreeLoop freeFunc list s list.head fuel
  .ok (list.heap, s)

namespace LinkedList

theorem free_ok {list : LinkedList Value} {a : Nat} {elt : LinkedListElt Value}
    (h : list.heap a = some elt) : list.free (some a) = .ok (list.put a none) := by
  rw [free, LinkedListHeap.deref_ok h, ok_bind]

/-- The nodes from `p` on are freed, and their values are handed over in order, if there is
a `free_func` to hand them to.  `J` is what holds of the state while certain values are
still to come. -/
theorem freeLoop_spec {freeFunc : State → Value → Except Fault State} {hasFunc : Bool}
    {J : List Value → State → Prop}
    (call : ∀ value rest s, J (value :: rest) s →
      ∃ s', (if hasFunc then freeFunc s value else .ok s) = .ok s' ∧ J rest s')
    {list : LinkedList Value} (hfunc : list.freeFunc = hasFunc) {p : Option Nat} {nodes : List Nat}
    (hchain : Chain list.heap.next p nodes) {items : List Value}
    (hvalue : nodes.map list.heap.value = items.map some) {s : State} (hJ : J items s) {fuel : Nat}
    (hfuel : nodes.length ≤ fuel) :
    ∃ list' s', linkedListFreeLoop freeFunc list s p fuel = .ok (list', s') ∧ J [] s' ∧
      (∀ a ∈ nodes, list'.heap a = none) ∧ ∀ a, a ∉ nodes → list'.heap a = list.heap a := by
  induction nodes generalizing list p items s fuel with
  | nil =>
      cases List.map_eq_nil_iff.mp hvalue.symm
      have hp : p = none := hchain
      subst hp
      refine ⟨list, s, ?_, hJ, fun _ h => absurd h List.not_mem_nil, fun _ _ => rfl⟩
      rw [linkedListFreeLoop]
  | cons a nodes ih =>
      have hnodup := hchain.nodup
      obtain ⟨rfl, q, hq, hrest⟩ := hchain
      obtain ⟨elt, helt⟩ := LinkedListHeap.exists_of_next hq
      rw [LinkedListHeap.next_eq helt] at hq
      cases hq
      cases items with
      | nil => cases hvalue
      | cons value rest =>
          rw [List.map_cons, List.map_cons, LinkedListHeap.value_eq helt] at hvalue
          obtain ⟨hv, hvalues⟩ := List.cons.inj hvalue
          cases hv
          obtain ⟨s₁, hcall, hJ₁⟩ := call _ _ _ hJ
          obtain ⟨fuel, rfl⟩ : ∃ n, fuel = n + 1 := by
            rw [List.length_cons] at hfuel
            exact ⟨fuel - 1, by omega⟩
          have hne : ∀ b ∈ nodes, b ≠ a := fun b hb he =>
            (List.nodup_cons.mp hnodup).1 (he ▸ hb)
          -- the rest of the list does not see that `a` is gone
          let list₁ : LinkedList Value := { list with
            freed := if list.freeFunc then list.freed ++ [elt.value] else list.freed }
          have hchain₁ : Chain (list₁.put a none).heap.next elt.next nodes :=
            hrest.congr fun b hb => LinkedListHeap.next_put_ne (hne b hb) _
          have hvalue₁ : nodes.map (list₁.put a none).heap.value = rest.map some :=
            (List.map_congr_left fun b hb => LinkedListHeap.value_put_ne (hne b hb) _).trans hvalues
          rw [List.length_cons] at hfuel
          have hfunc₁ : (list₁.put a none).freeFunc = hasFunc := hfunc
          obtain ⟨list', s', hloop, hJ', hgone, hkept⟩ :=
            ih hfunc₁ hchain₁ hvalue₁ hJ₁ (Nat.le_of_succ_le_succ hfuel)
          refine ⟨list', s', ?_, hJ', ?_, ?_⟩
          · have hfree : list₁.free (some a) = .ok (list₁.put a none) := free_ok helt
            rw [← hfunc] at hcall
            rw [linkedListFreeLoop, loadNext_ok helt, ok_bind, loadValue_ok helt, ok_bind]
            by_cases hf : list.freeFunc = true
            · rw [if_pos hf] at hcall
              rw [if_pos hf, hcall, ok_bind]
              exact (congrArg (· >>= _) hfree).trans hloop
            · rw [if_neg hf] at hcall
              rw [if_neg hf, hcall, ok_bind]
              exact (congrArg (· >>= _) hfree).trans hloop
          · intro b hb
            rcases List.mem_cons.mp hb with rfl | hmem
            · by_cases hin : b ∈ nodes
              · exact hgone b hin
              · exact (hkept b hin).trans (LinkedListHeap.put_self _)
            · exact hgone b hmem
          · intro b hb
            rw [List.mem_cons, not_or] at hb
            exact (hkept b hb.2).trans (LinkedListHeap.put_ne hb.1 _)

/-- `linked_list_free`, whether or not the list has a `free_func`. -/
theorem Holds.free_any {freeFunc : State → Value → Except Fault State} {hasFunc : Bool}
    {J : List Value → State → Prop}
    (call : ∀ value rest s, J (value :: rest) s →
      ∃ s', (if hasFunc then freeFunc s value else .ok s) = .ok s' ∧ J rest s')
    {list : LinkedList Value} (hfunc : list.freeFunc = hasFunc) {nodes : List Nat}
    {items : List Value} (h : list.Holds nodes items)
    (honly : ∀ a, a ∉ nodes → list.heap a = none) {s : State} (hJ : J items s) {fuel : Nat}
    (hfuel : nodes.length ≤ fuel) :
    ∃ heap s', linkedListFree freeFunc list s fuel = .ok (heap, s') ∧ J [] s' ∧
      ∀ a, heap a = none := by
  obtain ⟨list', s', hloop, hJ', hgone, hkept⟩ :=
    freeLoop_spec call hfunc h.next h.value hJ hfuel
  refine ⟨list'.heap, s', ?_, hJ', fun a => ?_⟩
  · rw [linkedListFree, hloop, ok_bind]
  · by_cases ha : a ∈ nodes
    · exact hgone a ha
    · exact (hkept a ha).trans (honly a ha)

/-- **`linked_list_free` frees every node of the list, once**, and hands every value to
`free_func` in the order of the list. -/
theorem Holds.free {freeFunc : State → Value → Except Fault State} {J : List Value → State → Prop}
    (call : ∀ value rest s, J (value :: rest) s → ∃ s', freeFunc s value = .ok s' ∧ J rest s')
    {list : LinkedList Value} (hfunc : list.freeFunc = true) {nodes : List Nat}
    {items : List Value} (h : list.Holds nodes items)
    (honly : ∀ a, a ∉ nodes → list.heap a = none) {s : State} (hJ : J items s) {fuel : Nat}
    (hfuel : nodes.length ≤ fuel) :
    ∃ heap s', linkedListFree freeFunc list s fuel = .ok (heap, s') ∧ J [] s' ∧
      ∀ a, heap a = none :=
  h.free_any call hfunc honly hJ hfuel

end LinkedList

end BlackHV
