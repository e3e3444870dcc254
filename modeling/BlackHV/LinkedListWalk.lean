import BlackHV.LinkedListFree
import Mathlib.Algebra.Group.Nat.Defs

/-! # Walks over a list

`linked_list_for_each`, `linked_list_get` and `linked_list_free` follow the `next` links
from the head.  On a list that holds values they meet each of them once, in order.
`linked_list_for_each_rev` follows the `prev` links from the tail.  A walk that ends has
followed a chain.
-/
namespace BlackHV

open Chains

variable {Value State : Type}

/-- The visits of a walk over `items`: each value with its index, counted in 32 bits
from `i` on. -/
def visits (i : Nat) (items : List Value) : List (UInt32 × Value) :=
  (items.zipIdx i).map fun (value, i) => (UInt32.ofNat i, value)

/-- A `func` that notes what it is called with. -/
def noteVisit (visited : List (UInt32 × Value)) (i : UInt32) (value : Value) :
    Except Fault (List (UInt32 × Value)) :=
  .ok (visited ++ [(i, value)])

/-- A `free_func` that notes what it is called with. -/
def noteFree (freed : List Value) (value : Value) : Except Fault (List Value) :=
  .ok (freed ++ [value])

theorem visits_cons (i : Nat) (value : Value) (items : List Value) :
    visits i (value :: items) = (UInt32.ofNat i, value) :: visits (i + 1) items := rfl

theorem length_visits (i : Nat) (items : List Value) : (visits i items).length = items.length := by
  rw [visits, List.length_map, List.length_zipIdx]

theorem foldlM_noteVisit (vs visited : List (UInt32 × Value)) :
    vs.foldlM (fun s v => noteVisit s v.1 v.2) visited = .ok (visited ++ vs) := by
  induction vs generalizing visited with
  | nil => rw [List.append_nil]; rfl
  | cons v vs ih =>
      rw [List.foldlM_cons, noteVisit, ok_bind, ih, List.append_assoc, List.singleton_append]

namespace LinkedList

variable {list : LinkedList Value} {p : Option Nat} {nodes : List Nat} {items : List Value}

/-! ## Along `next` -/

/-- The loop of `linked_list_for_each` calls `func` once for each node. -/
theorem forEachLoop_eq (func : State → UInt32 → Value → Except Fault State)
    (hchain : Chain list.heap.next p nodes) (hvalue : nodes.map list.heap.value = items.map some)
    (s : State) (i : Nat) {fuel : Nat} (hfuel : nodes.length ≤ fuel) :
    forEachLoop func list s (UInt32.ofNat i) p fuel =
      (visits i items).foldlM (fun s v => func s v.1 v.2) s := by
  induction nodes generalizing p items s i fuel with
  | nil =>
      cases List.map_eq_nil_iff.mp hvalue.symm
      have hp : p = none := hchain
      rw [hp, forEachLoop]
      rfl
  | cons a nodes ih =>
      obtain ⟨rfl, q, hq, hrest⟩ := hchain
      obtain ⟨elt, helt⟩ := LinkedListHeap.exists_of_next hq
      rw [LinkedListHeap.next_eq helt] at hq
      cases hq
      obtain ⟨value, rest, rfl, hv, hvalues⟩ := List.map_eq_cons_iff.mp hvalue.symm
      rw [LinkedListHeap.value_eq helt] at hv
      cases hv
      obtain ⟨fuel, rfl⟩ : ∃ n, fuel = n + 1 := by
        rw [List.length_cons] at hfuel
        exact ⟨fuel - 1, by omega⟩
      rw [forEachLoop, loadValue_ok helt, ok_bind, visits_cons, List.foldlM_cons]
      cases func s (UInt32.ofNat i) elt.value with
      | error f => rfl
      | ok s₁ =>
          rw [ok_bind, loadNext_ok helt, ok_bind, ok_bind]
          have hi : UInt32.ofNat i + 1 = UInt32.ofNat (i + 1) := (UInt32.ofNat_add i 1).symm
          rw [hi]
          exact ih hrest hvalues.symm s₁ (i + 1) (Nat.le_of_succ_le_succ hfuel)

/-- The loop of `linked_list_get` finds the value behind `left` others. -/
theorem getLoop_eq (hchain : Chain list.heap.next p nodes)
    (hvalue : nodes.map list.heap.value = items.map some) (left : Nat) :
    getLoop list p left = .ok items[left]? := by
  induction nodes generalizing p items left with
  | nil =>
      cases List.map_eq_nil_iff.mp hvalue.symm
      have hp : p = none := hchain
      rw [hp, getLoop]
      rfl
  | cons a nodes ih =>
      obtain ⟨rfl, q, hq, hrest⟩ := hchain
      obtain ⟨elt, helt⟩ := LinkedListHeap.exists_of_next hq
      rw [LinkedListHeap.next_eq helt] at hq
      cases hq
      obtain ⟨value, rest, rfl, hv, hvalues⟩ := List.map_eq_cons_iff.mp hvalue.symm
      rw [LinkedListHeap.value_eq helt] at hv
      cases hv
      cases left with
      | zero =>
          rw [getLoop, loadValue_ok helt, ok_bind]
          rfl
      | succ left =>
          rw [getLoop, loadNext_ok helt, ok_bind, ih hrest hvalues.symm left]
          rfl

namespace Holds

/-- **`linked_list_for_each` visits each value once, in order.** -/
theorem forEach (h : list.Holds nodes items) {fuel : Nat} (hfuel : nodes.length ≤ fuel) :
    linkedListForEach list (some noteVisit) [] fuel = .ok (visits 0 items) := by
  rw [linkedListForEach]
  have hloop := forEachLoop_eq noteVisit h.next h.value [] 0 hfuel
  rw [foldlM_noteVisit, List.nil_append] at hloop
  exact hloop

/-- `linked_list_get` is a look up. -/
theorem get (h : list.Holds nodes items) (index : UInt32) :
    linkedListGet list index = .ok items[index.toNat]? :=
  getLoop_eq h.next h.value index.toNat

/-- `linked_list_size` counts the values in 32 bits. -/
theorem size_toNat (h : list.Holds nodes items) :
    (linkedListSize list).toNat = items.length % 2 ^ 32 := by
  rw [linkedListSize, h.size, UInt32.toNat_toUInt64, UInt32.toNat_ofNat']

theorem size_iff (h : list.Holds nodes items) :
    (linkedListSize list).toNat = items.length ↔ items.length < 2 ^ 32 := by
  rw [h.size_toNat, Nat.mod_eq_iff_lt (by decide)]

/-- `linked_list_free` hands over each value once, and leaves no node. -/
theorem free_noted (h : list.Holds nodes items) (honly : ∀ a, a ∉ nodes → list.heap a = none)
    (freed : List Value) {fuel : Nat} (hfuel : nodes.length ≤ fuel) :
    ∃ heap, linkedListFree noteFree list freed fuel =
        .ok (heap, if list.freeFunc then freed ++ items else freed) ∧ ∀ a, heap a = none := by
  -- what is noted and what is still to come make up the whole
  have hcall : ∀ value rest s,
      (if list.freeFunc then s ++ value :: rest = freed ++ items else s = freed) →
      ∃ s', (if list.freeFunc then noteFree s value else .ok s) = .ok s' ∧
        (if list.freeFunc then s' ++ rest = freed ++ items else s' = freed) := by
    intro value rest s hs
    by_cases hf : list.freeFunc = true
    · rw [if_pos hf] at hs
      refine ⟨s ++ [value], by rw [if_pos hf, noteFree], ?_⟩
      rwa [if_pos hf, List.append_assoc, List.singleton_append]
    · rw [if_neg hf] at hs
      exact ⟨s, by rw [if_neg hf], by rwa [if_neg hf]⟩
  obtain ⟨heap, s', hfree, hs', hnone⟩ := h.free_any
    (J := fun rest s => if list.freeFunc then s ++ rest = freed ++ items else s = freed)
    hcall rfl honly (by split <;> rfl) hfuel
  refine ⟨heap, ?_, hnone⟩
  rw [hfree]
  by_cases hf : list.freeFunc = true
  · rw [if_pos hf, List.append_nil] at hs'
    rw [hs', if_pos hf]
  · rw [if_neg hf] at hs'
    rw [hs', if_neg hf]

end Holds

/-! ## Walks that end -/

/-- A walk of `linked_list_for_each` that ends has followed a chain of `next` links. -/
theorem exists_chain_of_forEachLoop {func : State → UInt32 → Value → Except Fault State}
    {s s' : State} {i : UInt32} {fuel : Nat} (h : forEachLoop func list s i p fuel = .ok s') :
    ∃ nodes, Chain list.heap.next p nodes := by
  induction fuel generalizing s i p with
  | zero =>
      cases p with
      | none => exact ⟨[], rfl⟩
      | some a => cases h
  | succ fuel ih =>
      cases p with
      | none => exact ⟨[], rfl⟩
      | some a =>
          rw [forEachLoop] at h
          obtain ⟨_, -, h⟩ := bind_eq_ok.mp h
          obtain ⟨_, -, h⟩ := bind_eq_ok.mp h
          obtain ⟨next, hnext, h⟩ := bind_eq_ok.mp h
          obtain ⟨nodes, hrest⟩ := ih h
          exact ⟨a :: nodes, rfl, next, loadNext_eq_ok hnext, hrest⟩

/-- A walk of `linked_list_for_each_rev` that ends has followed a chain of `prev` links. -/
theorem exists_chain_of_forEachRevLoop {func : State → UInt32 → Value → Except Fault State}
    {s s' : State} {i : UInt32} {fuel : Nat} (h : forEachRevLoop func list s i p fuel = .ok s') :
    ∃ nodes, Chain list.heap.prev p nodes := by
  induction fuel generalizing s i p with
  | zero =>
      cases p with
      | none => exact ⟨[], rfl⟩
      | some a => cases h
  | succ fuel ih =>
      cases p with
      | none => exact ⟨[], rfl⟩
      | some a =>
          rw [forEachRevLoop] at h
          obtain ⟨_, -, h⟩ := bind_eq_ok.mp h
          obtain ⟨_, -, h⟩ := bind_eq_ok.mp h
          obtain ⟨prev, hprev, h⟩ := bind_eq_ok.mp h
          obtain ⟨nodes, hrest⟩ := ih h
          exact ⟨a :: nodes, rfl, prev, loadPrev_eq_ok hprev, hrest⟩

end LinkedList

end BlackHV
