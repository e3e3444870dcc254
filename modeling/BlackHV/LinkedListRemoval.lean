import BlackHV.LinkedListBackLinks

/-! # Removing values

`linked_list_remove_at` and `linked_list_remove_eq` go forward from the head and take nodes
out with `remove_elt`, which trusts the links of a node in both directions.  In a list that
was only added to, the links of all nodes but the first one are right.  Where the first of
several is taken out, the last one gets a `next` link to the second: the list becomes a
ring that no walk leaves.
-/
namespace BlackHV

open Chains

variable {Value : Type}

namespace LinkedList

/-- What a removal should leave: `kept`, in order, whichever way the list is looked at, and
each of `removed` handed to `free_func` once.  If the list is freed then, each of `kept` is
handed over too, and no node is left. -/
structure Leaves (list : LinkedList Value) (kept removed : List Value) : Prop where
  walk : ∃ fuel, linkedListForEach list (some noteVisit) [] fuel = .ok (visits 0 kept)
  size : (linkedListSize list).toNat = kept.length
  beyond : ∀ index : UInt32, kept.length ≤ index.toNat → linkedListGet list index = .ok none
  freed : list.freed = if list.freeFunc then removed else []
  free : ∃ fuel heap, linkedListFree noteFree list list.freed fuel =
    .ok (heap, if list.freeFunc then removed ++ kept else []) ∧ ∀ a, heap a = none

/-- `linked_list_remove_at` does what it should, on a list of `values`. -/
def RemovesAt (list : LinkedList Value) (values : List Value) (index : UInt32) : Prop :=
  ∃ list', linkedListRemoveAt list index =
      .ok (list', if index.toNat < values.length then 1 else 0) ∧
    list'.Leaves (values.eraseIdx index.toNat) values[index.toNat]?.toList

/-- `linked_list_remove_eq` does what it should, on a list of `values`. -/
def RemovesEq (list : LinkedList Value) (values : List Value) (eqFunc : Value → UInt32) : Prop :=
  ∃ fuel list' removed, linkedListRemoveEq list (some eqFunc) fuel = .ok (list', removed) ∧
    removed.toNat = values.countP (eqFunc · = 1) ∧
    list'.Leaves (values.filter (eqFunc · ≠ 1)) (values.filter (eqFunc · = 1))

variable {list list' : LinkedList Value} {nodes l r : List Nat} {items before after : List Value}
  {p : Option Nat} {x z : Nat} {value : Value}

/-! ## Where the links are right -/

/-- A list with the links of `Linked` shows its values, if their number fits in `size`. -/
theorem Linked.leaves_iff {kept removed : List Value} (h : list.Linked nodes kept p)
    (hfreed : list.freed = if list.freeFunc then removed else []) :
    list.Leaves kept removed ↔ kept.length < 2 ^ 32 := by
  refine ⟨fun hl => h.size_iff.mp hl.size, fun hsize => ?_⟩
  refine ⟨⟨_, h.forEach (Nat.le_refl _)⟩, h.size_iff.mpr hsize, fun index hindex => ?_, hfreed, ?_⟩
  · rw [h.get, List.getElem?_eq_none hindex]
  · obtain ⟨heap, hfree, hnone⟩ := h.free_noted h.only list.freed (Nat.le_refl _)
    refine ⟨nodes.length, heap, ?_, hnone⟩
    rw [hfree, hfreed]
    split <;> rfl

/-- `remove_elt` on a node that points back to the one before it. -/
theorem Linked.removeElt (h : list.Linked (l ++ x :: r) (before ++ value :: after) p)
    (hlen : before.length = l.length) (hl : l ≠ [] ∨ p = none) :
    ∃ list', BlackHV.removeElt list (some x) = .ok list' ∧
      list'.Linked (l ++ r) (before ++ after) (if l = [] then none else p) ∧
      list'.freeFunc = list.freeFunc ∧
      list'.freed = list.freed ++ if list.freeFunc then [value] else [] := by
  obtain ⟨list', elt, hx, he, ht, hfreed⟩ := removeElt_taken h.forward (h.back_of hl)
  refine ⟨list', he, h.take hlen ht, ht.freeFunc, ?_⟩
  have hv := h.value_at hlen
  rw [LinkedListHeap.value_eq hx] at hv
  cases hv
  rw [hfreed]
  split
  · rfl
  · rw [List.append_nil]

/-- The loop of `linked_list_remove_at`, with the nodes `l` behind it. -/
theorem removeAtLoop_linked {rest : List Nat} (h : list.Linked (l ++ rest) (before ++ items) p)
    (hlen : before.length = l.length) (left : Nat) (hl : l ≠ [] ∨ p = none ∨ left ≠ 0) :
    ∃ list' nodes' p', removeAtLoop list rest.head? left =
        .ok (list', if left < items.length then 1 else 0) ∧
      list'.Linked nodes' (before ++ items.eraseIdx left) p' ∧
      list'.freeFunc = list.freeFunc ∧
      list'.freed = list.freed ++ if list.freeFunc then items[left]?.toList else [] := by
  induction rest generalizing l before items left with
  | nil =>
      obtain rfl := List.length_eq_zero_iff.mp (h.length_rest hlen).symm
      refine ⟨list, _, p, ?_, h, rfl, ?_⟩
      · rw [List.head?_nil, removeAtLoop, List.length_nil, if_neg (Nat.not_lt_zero left)]
      · rw [List.getElem?_nil, Option.toList_none, ite_self, List.append_nil]
  | cons x rest ih =>
      cases items with
      | nil => exact absurd (h.length_rest hlen) (Nat.succ_ne_zero _)
      | cons value items =>
          cases left with
          | zero =>
              obtain ⟨list', he, h', hfunc, hfreed⟩ :=
                h.removeElt hlen (hl.imp_right fun hl => hl.resolve_right fun hc => hc rfl)
              refine ⟨list', _, _, ?_, h', hfunc, hfreed⟩
              rw [List.head?_cons, removeAtLoop, he, ok_bind, if_pos (by simp)]
          | succ left =>
              obtain ⟨elt, hx, hnext⟩ := h.forward.node
              rw [List.append_cons, List.append_cons before] at h
              obtain ⟨list', nodes', p', he, h', hfunc, hfreed⟩ :=
                ih h (by simp [hlen]) left (Or.inl (by simp))
              refine ⟨list', nodes', p', ?_, ?_, hfunc, hfreed⟩
              · rw [List.head?_cons, removeAtLoop, loadNext_ok hx, ok_bind, hnext, he]
                simp only [List.length_cons, Nat.add_lt_add_iff_right]
              · rwa [List.eraseIdx_cons_succ, List.append_cons]

/-- The loop of `linked_list_remove_eq`, with the nodes `l` behind it that stay. -/
theorem removeEqLoop_linked (eqFunc : Value → UInt32) {rest : List Nat}
    (h : list.Linked (l ++ rest) (before ++ items) p) (hlen : before.length = l.length)
    (hl : l ≠ [] ∨ p = none ∨ ∀ v ∈ items.head?, eqFunc v ≠ 1) (removed : Nat) {fuel : Nat}
    (hfuel : rest.length ≤ fuel) :
    ∃ list' nodes' p', removeEqLoop eqFunc list (UInt32.ofNat removed) rest.head? fuel =
        .ok (list', UInt32.ofNat (removed + items.countP (eqFunc · = 1))) ∧
      list'.Linked nodes' (before ++ items.filter (eqFunc · ≠ 1)) p' ∧
      list'.freeFunc = list.freeFunc ∧
      list'.freed = list.freed ++ if list.freeFunc then items.filter (eqFunc · = 1) else [] := by
  induction rest generalizing list l before items p removed fuel with
  | nil =>
      obtain rfl := List.length_eq_zero_iff.mp (h.length_rest hlen).symm
      refine ⟨list, _, p, ?_, h, rfl, ?_⟩
      · rw [List.head?_nil, removeEqLoop]
        rfl
      · rw [List.filter_nil, ite_self, List.append_nil]
  | cons x rest ih =>
      cases items with
      | nil => exact absurd (h.length_rest hlen) (Nat.succ_ne_zero _)
      | cons value items =>
          obtain ⟨fuel, rfl⟩ : ∃ f, fuel = f + 1 :=
            ⟨fuel - 1, by rw [List.length_cons] at hfuel; omega⟩
          have hfuel' : rest.length ≤ fuel := Nat.le_of_succ_le_succ hfuel
          obtain ⟨elt, hx, hnext⟩ := h.forward.node
          have hv := h.value_at hlen
          rw [LinkedListHeap.value_eq hx] at hv
          cases hv
          rw [List.head?_cons, removeEqLoop, loadNext_ok hx, ok_bind, loadValue_ok hx, ok_bind,
            hnext]
          by_cases heq : eqFunc elt.value = 1
          · -- the node goes, and the links of the others are right again
            have hl' : l ≠ [] ∨ p = none :=
              hl.imp_right fun hl => hl.resolve_right fun hc => hc _ rfl heq
            obtain ⟨list₁, he, h₁, hfunc₁, hfreed₁⟩ := h.removeElt hlen hl'
            have hl₁ : l ≠ [] ∨ (if l = [] then none else p) = none := by
              by_cases hnil : l = []
              · exact Or.inr (if_pos hnil)
              · exact Or.inl hnil
            obtain ⟨list', nodes', p', hloop, h', hfunc, hfreed⟩ :=
              ih h₁ hlen (hl₁.imp_right Or.inl) (removed + 1) hfuel'
            refine ⟨list', nodes', p', ?_, ?_, hfunc.trans hfunc₁, ?_⟩
            · rw [if_pos heq, he, ok_bind, List.countP_cons_of_pos (by simpa using heq),
                ← Nat.add_assoc, Nat.add_right_comm, ← hloop, UInt32.ofNat_add]
              rfl
            · rwa [List.filter_cons_of_neg (by simpa using heq)]
            · rw [hfreed, hfreed₁, hfunc₁, List.filter_cons_of_pos (by simpa using heq),
                List.append_assoc]
              split <;> rfl
          · rw [List.append_cons, List.append_cons before] at h
            obtain ⟨list', nodes', p', hloop, h', hfunc, hfreed⟩ :=
              ih h (by simp [hlen]) (Or.inl (by simp)) removed hfuel'
            refine ⟨list', nodes', p', ?_, ?_, hfunc, ?_⟩
            · rw [if_neg heq, List.countP_cons_of_neg (by simpa using heq), hloop]
            · rwa [List.filter_cons_of_pos (by simpa using heq), List.append_cons]
            · rwa [List.filter_cons_of_neg (by simpa using heq)]

/-! ## Where the first of several nodes is taken out -/

/-- What a `bypassNext` that returns has done. -/
theorem bypassNext_eq_ok (h : bypassNext list (some x) = .ok list') :
    ∃ elt, list.heap x = some elt ∧ list'.heap.next x = some elt.next ∧ list'.head = list.head ∧
      ∀ y q, list'.heap.next y = some q →
        elt.prev = some y ∧ q = elt.next ∨ elt.prev ≠ some y ∧ list.heap.next y = some q := by
  rw [bypassNext] at h
  obtain ⟨prev, hprev, h⟩ := bind_eq_ok.mp h
  obtain ⟨elt, hx⟩ := LinkedListHeap.exists_of_prev (loadPrev_eq_ok hprev)
  rw [loadPrev_ok hx] at hprev
  cases hprev
  refine ⟨elt, hx, ?_⟩
  cases hp : elt.prev with
  | none =>
      rw [if_neg (fun hc => hc hp)] at h
      cases h
      exact ⟨LinkedListHeap.next_eq hx, rfl, fun y q hq => Or.inr ⟨(fun hc => by cases hc), hq⟩⟩
  | some y =>
      rw [if_pos (by rw [hp]; exact Option.some_ne_none y), loadNext_ok hx, ok_bind, hp] at h
      obtain ⟨⟨_, last⟩, hd, h⟩ := bind_eq_ok.mp h
      cases deref_eq_ok hd
      cases h
      refine ⟨?_, rfl, fun w q hq => ?_⟩
      · by_cases hxy : x = y
        · rw [hxy]
          exact LinkedListHeap.next_put_self
        · exact (LinkedListHeap.next_put_ne hxy _).trans (LinkedListHeap.next_eq hx)
      · by_cases hwy : w = y
        · rw [hwy] at hq ⊢
          have := LinkedListHeap.next_put_self.symm.trans hq
          cases this
          exact Or.inl ⟨rfl, rfl⟩
        · refine Or.inr ⟨fun hc => hwy (Option.some.inj hc).symm, ?_⟩
          exact (LinkedListHeap.next_put_ne hwy _).symm.trans hq

/-- A `bypassPrev` that returns has left every `next` link as it was. -/
theorem bypassPrev_eq_ok (h : bypassPrev list (some x) = .ok list') :
    list'.head = list.head ∧ ∀ y, list'.heap.next y = list.heap.next y := by
  rw [bypassPrev] at h
  obtain ⟨next, -, h⟩ := bind_eq_ok.mp h
  by_cases hn : next = none
  · rw [if_neg (fun hc => hc hn)] at h
    cases h
    exact ⟨rfl, fun _ => rfl⟩
  · rw [if_pos hn] at h
    obtain ⟨prev, -, h⟩ := bind_eq_ok.mp h
    obtain ⟨⟨z, after⟩, hd, h⟩ := bind_eq_ok.mp h
    cases h
    exact ⟨rfl, LinkedListHeap.next_put_prev (heap_of_deref hd) _⟩

/-- **What `remove_elt` does to the `next` links**, whatever the links are: only the node
that `x` points back to gets another one. -/
theorem removeElt_eq_ok (h : removeElt list (some x) = .ok list') :
    ∃ elt, list.heap x = some elt ∧
      list'.head = (if list.head = some x then elt.next else list.head) ∧
      ∀ y q, list'.heap.next y = some q →
        elt.prev = some y ∧ q = elt.next ∨ elt.prev ≠ some y ∧ list.heap.next y = some q := by
  rw [removeElt] at h
  obtain ⟨list₁, h₁, h⟩ := bind_eq_ok.mp h
  obtain ⟨list₂, h₂, h⟩ := bind_eq_ok.mp h
  obtain ⟨next, hnext, h⟩ := bind_eq_ok.mp h
  obtain ⟨prev, -, h⟩ := bind_eq_ok.mp h
  obtain ⟨v, -, h⟩ := bind_eq_ok.mp h
  obtain ⟨list₃, h₃, h⟩ := bind_eq_ok.mp h
  obtain ⟨⟨_, last⟩, hd, h₃⟩ := bind_eq_ok.mp h₃
  cases deref_eq_ok hd
  cases h₃
  cases h
  obtain ⟨elt, hx, hxnext, hhead₁, hnext₁⟩ := bypassNext_eq_ok h₁
  obtain ⟨hhead₂, hnext₂⟩ := bypassPrev_eq_ok h₂
  have hsame : next = elt.next := by
    have := loadNext_eq_ok hnext
    rw [hnext₂, hxnext] at this
    exact (Option.some.inj this).symm
  refine ⟨elt, hx, ?_, fun y q hq => ?_⟩
  · rw [← hsame, ← hhead₁, ← hhead₂]
    rfl
  · by_cases hy : y = x
    · have hgone : (list₂.heap.put x none).next x = none := by
        rw [LinkedListHeap.next, LinkedListHeap.put_self]
        rfl
      rw [hy] at hq
      cases hgone.symm.trans hq
    · refine hnext₁ y q ?_
      rw [← hnext₂ y]
      exact (LinkedListHeap.next_put_ne hy _).symm.trans hq

/-- Taking a node out of a ring leaves a ring, or nothing. -/
theorem noExit_removeElt {S : Nat → Prop} (hS : NoExit list.heap.next S) (hx : S x)
    (h : removeElt list (some x) = .ok list') : NoExit list'.heap.next S := by
  obtain ⟨elt, helt, -, hnext⟩ := removeElt_eq_ok h
  rintro y hy q hq
  rcases hnext y q hq with ⟨-, rfl⟩ | ⟨-, hq⟩
  · exact hS x hx _ (LinkedListHeap.next_eq helt)
  · exact hS y hy q hq

/-- The loop of `linked_list_remove_eq` does not leave a ring. -/
theorem removeEqLoop_ne_ok (eqFunc : Value → UInt32) {S : Nat → Prop} {removed : UInt32}
    {fuel : Nat} {out : LinkedList Value × UInt32} (hS : NoExit list.heap.next S) (hx : S x) :
    removeEqLoop eqFunc list removed (some x) fuel ≠ .ok out := by
  induction fuel generalizing list removed x with
  | zero => rintro ⟨⟩
  | succ fuel ih =>
      intro h
      rw [removeEqLoop] at h
      obtain ⟨tmp, htmp, h⟩ := bind_eq_ok.mp h
      obtain ⟨v, -, h⟩ := bind_eq_ok.mp h
      obtain ⟨y, rfl, hy⟩ := hS x hx tmp (loadNext_eq_ok htmp)
      split at h
      · obtain ⟨list₁, h₁, h⟩ := bind_eq_ok.mp h
        exact ih (noExit_removeElt hS hx h₁) hy h
      · exact ih hS hy h

/-- **The ring.**  If the first of several nodes points back to the last one and is taken
out, the other nodes are a ring, and the list starts in it. -/
theorem Linked.ring (h : list.Linked (x :: z :: r) items (x :: z :: r).getLast?)
    (he : BlackHV.removeElt list (some x) = .ok list') :
    list.heap.next x = some (some z) ∧ list'.head = some z ∧
      NoExit list'.heap.next (· ∈ z :: r) := by
  obtain ⟨elt, hx, hhead, hnext⟩ := removeElt_eq_ok he
  have hxnext : list.heap.next x = some (some z) := (h.next.rest (l := [])).1
  have hback := h.back [] x (z :: r) rfl
  rw [LinkedListHeap.next_eq hx] at hxnext
  rw [LinkedListHeap.prev_eq hx] at hback
  have hprev : elt.prev = (z :: r).getLast? := (Option.some.inj hback).trans List.getLast?_cons_cons
  refine ⟨(LinkedListHeap.next_eq hx).trans hxnext, ?_, ?_⟩
  · have hfirst : list.head = some x := h.forward.head_eq
    rw [hhead, if_pos hfirst]
    exact Option.some.inj hxnext
  · rintro y hy q hq
    rcases hnext y q hq with ⟨-, rfl⟩ | ⟨hne, hq⟩
    · exact ⟨z, Option.some.inj hxnext, List.mem_cons_self⟩
    · -- not the last node, so there is one behind it
      obtain ⟨l, r', hnodes⟩ := List.append_of_mem hy
      have hchain : Chain list.heap.next list.head ((x :: l) ++ y :: r') := by
        have := h.next
        rwa [hnodes] at this
      rw [hchain.rest.1] at hq
      cases hq
      cases r' with
      | nil =>
          refine absurd ?_ hne
          rw [hprev, hnodes, List.getLast?_concat]
      | cons w r' => exact ⟨w, rfl, by rw [hnodes]; simp⟩

/-- A list that starts in a ring shows no end. -/
theorem not_leaves_of_noExit {kept removed : List Value} {S : Nat → Prop}
    (hS : NoExit list.heap.next S) (hhead : list.head = some x) (hx : S x) :
    ¬ list.Leaves kept removed := by
  intro h
  obtain ⟨fuel, hwalk⟩ := h.walk
  obtain ⟨nodes, hchain⟩ := exists_chain_of_forEachLoop hwalk
  rw [hhead] at hchain
  exact hchain.not_of_noExit hS hx

/-! ## The two functions -/

theorem exists_two_of_length (h : ¬ nodes.length ≤ 1) : ∃ x z r, nodes = x :: z :: r := by
  rcases nodes with _ | ⟨x, _ | ⟨z, r⟩⟩
  · exact absurd (Nat.zero_le 1) h
  · exact absurd (Nat.le_refl 1) h
  · exact ⟨x, z, r, rfl⟩

/-- More fuel changes nothing once there is enough. -/
theorem removeEqLoop_mono {eqFunc : Value → UInt32} {removed : UInt32} {q : Option Nat}
    {fuel fuel' : Nat} {out : LinkedList Value × UInt32}
    (h : removeEqLoop eqFunc list removed q fuel = .ok out) (hf : fuel ≤ fuel') :
    removeEqLoop eqFunc list removed q fuel' = .ok out := by
  induction fuel generalizing list removed q fuel' with
  | zero =>
      cases q with
      | none =>
          rw [removeEqLoop] at h
          rw [removeEqLoop, h]
      | some x => cases h
  | succ fuel ih =>
      cases q with
      | none =>
          rw [removeEqLoop] at h
          rw [removeEqLoop, h]
      | some x =>
          obtain ⟨fuel', rfl⟩ : ∃ f, fuel' = f + 1 := ⟨fuel' - 1, by omega⟩
          have hf' := Nat.le_of_succ_le_succ hf
          rw [removeEqLoop] at h ⊢
          obtain ⟨tmp, htmp, h⟩ := bind_eq_ok.mp h
          obtain ⟨v, hv, h⟩ := bind_eq_ok.mp h
          rw [htmp, ok_bind, hv, ok_bind]
          split at h
          · rename_i heq
            obtain ⟨list₁, he, h⟩ := bind_eq_ok.mp h
            rw [if_pos heq, he, ok_bind]
            exact ih h hf'
          · rename_i heq
            rw [if_neg heq]
            exact ih h hf'

/-- Exactly when `linked_list_remove_at` does what it should. -/
theorem Linked.removesAt_iff (h : list.Linked nodes items (firstBack nodes))
    (hfreed : list.freed = []) (index : UInt32) :
    list.RemovesAt items index ↔
      (items.length ≤ 1 ∨ index ≠ 0) ∧ (items.eraseIdx index.toNat).length < 2 ^ 32 := by
  have hlen := h.length_eq
  by_cases hsafe : items.length ≤ 1 ∨ index ≠ 0
  · have hl : ([] : List Nat) ≠ [] ∨ firstBack nodes = none ∨ index.toNat ≠ 0 := by
      refine Or.inr (hsafe.imp (fun hn => ?_) fun hi hc => hi ?_)
      · rw [firstBack, if_pos (by rw [hlen]; exact hn)]
      · exact UInt32.toNat_inj.mp hc
    obtain ⟨list', nodes', p', he, h', hfunc, hfreed'⟩ :=
      removeAtLoop_linked h (rfl : ([] : List Value).length = ([] : List Nat).length) index.toNat hl
    rw [hfreed, List.nil_append, ← hfunc] at hfreed'
    have hrun : linkedListRemoveAt list index =
        .ok (list', if index.toNat < items.length then 1 else 0) := by
      rw [linkedListRemoveAt, h.forward.head_eq]
      exact he
    refine Iff.trans ⟨?_, fun hleaves => ⟨list', hrun, hleaves⟩⟩
      ((h'.leaves_iff hfreed').trans (and_iff_right hsafe).symm)
    rintro ⟨list₁, he₁, hleaves⟩
    rw [hrun] at he₁
    cases he₁
    exact hleaves
  · refine iff_of_false ?_ fun hc => hsafe hc.1
    rw [not_or, not_not] at hsafe
    obtain ⟨hn, rfl⟩ := hsafe
    rintro ⟨list', he, hleaves⟩
    obtain ⟨x, z, r, rfl⟩ := exists_two_of_length (by rwa [hlen] : ¬ nodes.length ≤ 1)
    rw [firstBack, if_neg (by rw [hlen]; exact hn)] at h
    rw [linkedListRemoveAt, h.forward.head_eq] at he
    obtain ⟨list₁, he₁, he⟩ := bind_eq_ok.mp he
    obtain ⟨rfl, -⟩ := Prod.mk.inj (Except.ok.inj he)
    obtain ⟨-, hhead, hring⟩ := h.ring he₁
    exact not_leaves_of_noExit hring hhead List.mem_cons_self hleaves

/-- `linked_list_remove_eq` where it does not take out the first of several values. -/
theorem Linked.removeEq_runs {eqFunc : Value → UInt32}
    (h : list.Linked nodes items (firstBack nodes)) (hfreed : list.freed = [])
    (hsafe : items.length ≤ 1 ∨ ∀ v ∈ items.head?, eqFunc v ≠ 1) {fuel : Nat}
    (hfuel : nodes.length ≤ fuel) :
    ∃ list', linkedListRemoveEq list (some eqFunc) fuel =
        .ok (list', UInt32.ofNat (items.countP (eqFunc · = 1))) ∧
      (list'.Leaves (items.filter (eqFunc · ≠ 1)) (items.filter (eqFunc · = 1)) ↔
        (items.filter (eqFunc · ≠ 1)).length < 2 ^ 32) := by
  have hl : ([] : List Nat) ≠ [] ∨ firstBack nodes = none ∨ ∀ v ∈ items.head?, eqFunc v ≠ 1 := by
    refine Or.inr (hsafe.imp_left fun hn => ?_)
    rw [firstBack, if_pos (by rw [h.length_eq]; exact hn)]
  obtain ⟨list', nodes', p', he, h', hfunc, hfreed'⟩ :=
    removeEqLoop_linked eqFunc h (rfl : ([] : List Value).length = ([] : List Nat).length) hl 0
      hfuel
  rw [hfreed, List.nil_append, ← hfunc] at hfreed'
  refine ⟨list', ?_, h'.leaves_iff hfreed'⟩
  rw [linkedListRemoveEq, h.forward.head_eq]
  rw [Nat.zero_add] at he
  exact he

/-- Where it does, it never returns. -/
theorem Linked.removeEq_ne_ok {eqFunc : Value → UInt32}
    (h : list.Linked nodes items (firstBack nodes))
    (hsafe : ¬ (items.length ≤ 1 ∨ ∀ v ∈ items.head?, eqFunc v ≠ 1)) {fuel : Nat}
    {out : LinkedList Value × UInt32} : linkedListRemoveEq list (some eqFunc) fuel ≠ .ok out := by
  intro he
  rw [not_or] at hsafe
  obtain ⟨hn, hfirst⟩ := hsafe
  have hlen := h.length_eq
  obtain ⟨x, z, r, rfl⟩ := exists_two_of_length (by rwa [hlen] : ¬ nodes.length ≤ 1)
  obtain ⟨v, rest, rfl⟩ : ∃ v rest, items = v :: rest :=
    List.exists_cons_of_ne_nil fun hnil => hn (by rw [hnil]; exact Nat.zero_le 1)
  have heq : eqFunc v = 1 := Classical.not_not.mp fun hv =>
    hfirst fun w hw => by cases hw; exact hv
  rw [firstBack, if_neg (by rw [hlen]; exact hn)] at h
  obtain ⟨elt, hx, hnext⟩ := h.forward.node (l := [])
  have hv : list.heap.value x = some v := (List.cons.inj h.value).1
  rw [LinkedListHeap.value_eq hx] at hv
  cases hv
  rw [linkedListRemoveEq, h.forward.head_eq] at he
  cases fuel with
  | zero => cases he
  | succ fuel =>
      rw [List.head?_cons, removeEqLoop, loadNext_ok hx, ok_bind, loadValue_ok hx, ok_bind,
        if_pos heq, hnext] at he
      obtain ⟨list₁, he₁, he⟩ := bind_eq_ok.mp he
      obtain ⟨-, -, hring⟩ := h.ring he₁
      exact removeEqLoop_ne_ok eqFunc hring List.mem_cons_self he

/-- Exactly when `linked_list_remove_eq` does what it should. -/
theorem Linked.removesEq_iff (h : list.Linked nodes items (firstBack nodes))
    (hfreed : list.freed = []) (eqFunc : Value → UInt32) :
    list.RemovesEq items eqFunc ↔ (items.length ≤ 1 ∨ ∀ v ∈ items.head?, eqFunc v ≠ 1) ∧
      items.countP (eqFunc · = 1) < 2 ^ 32 ∧ (items.filter (eqFunc · ≠ 1)).length < 2 ^ 32 := by
  by_cases hsafe : items.length ≤ 1 ∨ ∀ v ∈ items.head?, eqFunc v ≠ 1
  · rw [and_iff_right hsafe]
    constructor
    · rintro ⟨fuel, list', removed, he, hcount, hleaves⟩
      obtain ⟨list₁, he₁, hiff⟩ := h.removeEq_runs hfreed hsafe (Nat.le_max_right fuel _)
      have hsame := removeEqLoop_mono he (Nat.le_max_left fuel nodes.length)
      have hpair := Except.ok.inj (he₁.symm.trans hsame)
      obtain ⟨rfl, rfl⟩ := Prod.mk.inj hpair
      refine ⟨?_, hiff.mp hleaves⟩
      rw [UInt32.toNat_ofNat'] at hcount
      rw [← hcount]
      exact Nat.mod_lt _ (by decide)
    · rintro ⟨hcount, hkept⟩
      obtain ⟨list', he, hleaves⟩ := h.removeEq_runs hfreed hsafe (Nat.le_refl _)
      refine ⟨_, list', _, he, ?_, hleaves.mpr hkept⟩
      rw [UInt32.toNat_ofNat', Nat.mod_eq_of_lt hcount]
  · refine iff_of_false ?_ fun hc => hsafe hc.1
    rintro ⟨fuel, list', removed, he, -, -⟩
    exact h.removeEq_ne_ok hsafe he

end LinkedList

/-- **When a value can be removed.**  On a list that any number of values were added to,
`linked_list_remove_at` does what it should if and only if it does not take out the first of
several values, and what is left can be counted in 32 bits; and so does
`linked_list_remove_eq`, whose result counts the removed values in 32 bits as well. -/
theorem linked_list_removes_iff {freeFunc block : Bool} {list : LinkedList Value}
    (hnew : linkedListNew Value freeFunc block = some list) {adds : List (Value × Nat)}
    (hnodup : (adds.map Prod.snd).Nodup) :
    let values := adds.map Prod.fst
    ∃ built, linkedListAddAll list adds = .ok built ∧
      (∀ index, built.RemovesAt values index ↔
        (values.length ≤ 1 ∨ index ≠ 0) ∧ (values.eraseIdx index.toNat).length < 2 ^ 32) ∧
      ∀ eqFunc, built.RemovesEq values eqFunc ↔
        (values.length ≤ 1 ∨ ∀ v ∈ values.head?, eqFunc v ≠ 1) ∧
          values.countP (eqFunc · = 1) < 2 ^ 32 ∧
            (values.filter (eqFunc · ≠ 1)).length < 2 ^ 32 := by
  obtain ⟨built, hadd, h, -, hfreed⟩ := LinkedList.linked_of_addAll hnew hnodup
  exact ⟨built, hadd, h.removesAt_iff hfreed, h.removesEq_iff hfreed⟩

/-- A list of three values. -/
theorem linked_list_removes_iff_three :
    ∃ list built, linkedListNew Nat true true = some list ∧
      linkedListAddAll list [(7, 0x10), (8, 0x20), (9, 0x30)] = .ok built ∧
      (built.RemovesAt [7, 8, 9] 1 ↔
        (3 ≤ 1 ∨ (1 : UInt32) ≠ 0) ∧ [7, 9].length < 2 ^ 32) := by
  obtain ⟨built, hadd, h, -⟩ := linked_list_removes_iff
    (show linkedListNew Nat true true = some _ from rfl)
    (show (List.map Prod.snd [(7, 0x10), (8, 0x20), (9, 0x30)]).Nodup by decide)
  exact ⟨_, built, rfl, hadd, h 1⟩

/-- Of two values, the first one is removed: the second node points to itself then. -/
theorem linked_list_removes_first_of_two :
    ∃ list built, linkedListNew Nat true true = some list ∧
      linkedListAddAll list [(7, 0x10), (8, 0x20)] = .ok built ∧
      ¬ built.RemovesAt [7, 8] 0 ∧ ¬ built.RemovesEq [7, 8] fun v => if v = 7 then 1 else 0 := by
  obtain ⟨built, hadd, h, -, hfreed⟩ := LinkedList.linked_of_addAll
    (show linkedListNew Nat true true = some _ from rfl)
    (show (List.map Prod.snd [(7, 0x10), (8, 0x20)]).Nodup by decide)
  refine ⟨_, built, rfl, hadd, fun hc => ?_, fun hc => ?_⟩
  · exact absurd ((h.removesAt_iff hfreed 0).mp hc).1 (by decide)
  · exact absurd ((h.removesEq_iff hfreed _).mp hc).1 (by decide)

end BlackHV
