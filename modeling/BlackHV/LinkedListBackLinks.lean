import BlackHV.LinkedListWalk
import Mathlib.Data.List.Induction

/-! # The links back

Every node that `linked_list_add` puts into a list points back to the node before it, and
the first node of the list points back to the newest one.  So a walk along `prev` comes
round to the tail again on every list of two values or more.
-/
namespace BlackHV

open Chains

variable {Value State : Type}

namespace LinkedList

/-- The list holds `items` in `nodes` and has no other nodes.  Every node points back to the
one before it, and the first one to `p`. -/
structure Linked (list : LinkedList Value) (nodes : List Nat) (items : List Value)
    (p : Option Nat) : Prop extends Holds list nodes items where
  back : ∀ l x r, nodes = l ++ x :: r → list.heap.prev x = some (l.getLast?.or p)
  only : ∀ b, b ∉ nodes → list.heap b = none

/-- Where the first node of a list that was only added to points back to. -/
def firstBack (nodes : List Nat) : Option Nat :=
  if nodes.length ≤ 1 then none else nodes.getLast?

variable {list list' : LinkedList Value} {nodes l r : List Nat} {items before after : List Value}
  {p : Option Nat} {a x : Nat} {value : Value}

theorem getLast?_or_of_ne_nil (h : l ≠ []) (p : Option Nat) : l.getLast?.or p = l.getLast? := by
  obtain ⟨t, ht⟩ := Option.ne_none_iff_exists'.mp (mt List.getLast?_eq_none_iff.mp h)
  rw [ht]
  rfl

theorem getLast?_or_ite (l : List Nat) (p : Option Nat) :
    l.getLast?.or (if l = [] then none else p) = l.getLast? := by
  by_cases h : l = []
  · rw [if_pos h, Option.or_none]
  · exact getLast?_or_of_ne_nil h _

theorem linked_new {freeFunc block : Bool} (h : linkedListNew Value freeFunc block = some list) :
    list.Linked [] [] p ∧ list.freeFunc = freeFunc ∧ list.freed = [] := by
  cases block with
  | false => cases h
  | true =>
      refine ⟨⟨holds_new h, fun l x r hnil => ?_, fun b _ => ?_⟩, ?_, ?_⟩
      · exact absurd hnil.symm (List.append_ne_nil_of_right_ne_nil l (List.cons_ne_nil x r))
      · cases h
        rfl
      · cases h
        rfl
      · cases h
        rfl

namespace Linked

/-- What `linked_list_add` leaves. -/
theorem behind (h : list.Linked nodes items p) (ha : a ∉ nodes)
    (happ : Appended list list' nodes a value) :
    list'.Linked (nodes ++ [a]) (items ++ [value]) (if nodes = [] then none else some a) := by
  refine ⟨h.toHolds.behind ha happ, fun l x r heq => ?_, fun b => happ.only h.only⟩
  · rcases List.eq_nil_or_concat r with rfl | ⟨r', y, rfl⟩
    · -- the new node
      obtain ⟨rfl, hx⟩ := List.append_inj' heq rfl
      cases hx
      rw [happ.prev, getLast?_or_ite]
    · rw [List.concat_eq_append, ← List.cons_append, ← List.append_assoc] at heq
      obtain ⟨hnodes, -⟩ := List.append_inj' heq rfl
      have hxa : x ≠ a := fun he => ha (by rw [hnodes, he]; simp)
      rw [if_neg (by rw [hnodes]; simp)]
      -- the first node, or one behind it
      rcases List.eq_nil_or_concat l with rfl | ⟨l', z, rfl⟩
      · exact happ.prev_head x (by rw [hnodes]; rfl)
      · rw [happ.prev_other x hxa fun hhead => ?_, h.back _ _ _ hnodes]
        · rw [List.concat_eq_append, List.getLast?_concat]
          rfl
        · have hne := h.forward.nodup
          rw [hnodes, List.nodup_middle, List.nodup_cons] at hne
          refine hne.1 (List.mem_append_left _ (List.mem_of_head? ?_))
          rw [← hhead, hnodes]
          simp

/-- What is left where a node is taken out. -/
theorem take (h : list.Linked (l ++ x :: r) (before ++ value :: after) p)
    (hlen : before.length = l.length) (ht : Taken list list' l x r) :
    list'.Linked (l ++ r) (before ++ after) (if l = [] then none else p) := by
  refine ⟨h.toHolds.take hlen ht, fun l' y r' heq => ?_, fun b => ht.only h.only⟩
  · have hyx : y ≠ x := h.forward.ne_of_mem (by rw [heq]; simp)
    have hnodup := h.forward.nodup
    rcases List.append_eq_append_iff.mp heq with ⟨m, rfl, hr⟩ | ⟨m, rfl, hr⟩
    · -- behind `x`: next to it, or further down
      cases m with
      | nil =>
          rw [List.nil_append] at hr
          rw [ht.prev_head y (by rw [hr]; rfl), List.append_nil, getLast?_or_ite]
      | cons z m =>
          have hprev := h.back (l ++ x :: z :: m) y r' (by rw [hr]; simp)
          rw [ht.prev_other y hyx fun hhead => ?_, hprev]
          · rw [getLast?_or_of_ne_nil (by simp), getLast?_or_of_ne_nil (by simp),
              List.getLast?_append_of_ne_nil _ (List.cons_ne_nil _ _), List.getLast?_cons_cons,
              List.getLast?_append_of_ne_nil _ (List.cons_ne_nil _ _)]
          · rw [hr] at hnodup hhead
            cases hhead
            have := (List.nodup_append.mp hnodup).2.1
            simp at this
    · cases m with
      | nil =>
          rw [List.nil_append] at hr
          rw [List.append_nil, ht.prev_head y (by rw [← hr]; rfl), List.append_nil, getLast?_or_ite]
      | cons z m =>
          -- before `x`
          rw [List.cons_append] at hr
          obtain ⟨rfl, rfl⟩ := List.cons.inj hr
          rw [if_neg (by simp), ht.prev_other y hyx fun hhead => ?_]
          · exact h.back l' y (m ++ x :: r) (by simp)
          · have hmem : y ∈ r := List.mem_of_head? hhead
            rw [List.append_assoc, List.cons_append, List.nodup_middle, List.nodup_cons] at hnodup
            exact hnodup.1 (by simp [hmem])

/-- A node that points back to the one before it, or to nothing. -/
theorem back_of (h : list.Linked (l ++ x :: r) items p) (hl : l ≠ [] ∨ p = none) :
    list.heap.prev x = some l.getLast? := by
  rw [h.back l x r rfl]
  rcases hl with hl | hp
  · rw [getLast?_or_of_ne_nil hl]
  · rw [hp, Option.or_none]

/-- `linked_list_pop_front` needs none of these links. -/
theorem popFront_linked (h : list.Linked (x :: r) items p) : ∃ value rest list',
    items = value :: rest ∧ linkedListPopFront list = .ok (list', some value) ∧
      list'.Linked r rest none := by
  obtain ⟨value, rest, list', rfl, he, -, ht, -⟩ := h.popFront
  have h : list.Linked ([] ++ x :: r) ([] ++ value :: rest) p := h
  exact ⟨value, rest, list', rfl, he, h.take rfl ht⟩

end Linked

/-! ## Lists that were only added to -/

theorem firstBack_concat (nodes : List Nat) (a : Nat) :
    firstBack (nodes ++ [a]) = if nodes = [] then none else some a := by
  rw [firstBack, List.length_append, List.length_singleton, List.getLast?_concat]
  by_cases h : nodes = []
  · rw [if_pos h, if_pos (by rw [h]; exact Nat.le_refl 1)]
  · have := List.length_pos_iff.mpr h
    rw [if_neg h, if_neg (by omega)]

/-- Additions one after the other. -/
theorem Linked.addAll (h : list.Linked nodes items (firstBack nodes)) {adds : List (Value × Nat)}
    (hnodup : (nodes ++ adds.map Prod.snd).Nodup) :
    ∃ list', linkedListAddAll list adds = .ok list' ∧
      list'.Linked (nodes ++ adds.map Prod.snd) (items ++ adds.map Prod.fst)
        (firstBack (nodes ++ adds.map Prod.snd)) ∧
      list'.freeFunc = list.freeFunc ∧ list'.freed = list.freed := by
  induction adds generalizing list nodes items with
  | nil =>
      refine ⟨list, rfl, ?_, rfl, rfl⟩
      rwa [List.map_nil, List.map_nil, List.append_nil, List.append_nil]
  | cons add rest ih =>
      obtain ⟨value, a⟩ := add
      rw [List.map_cons] at hnodup
      have ha : a ∉ nodes := fun hmem =>
        (List.nodup_append.mp hnodup).2.2 a hmem a List.mem_cons_self rfl
      obtain ⟨list₁, he, happ⟩ := h.forward.append ha value
      have h₁ := h.behind ha happ
      rw [← firstBack_concat] at h₁
      obtain ⟨list', hrest, h', hfunc, hfreed⟩ :=
        ih h₁ (by rwa [List.append_assoc, List.singleton_append])
      refine ⟨list', ?_, ?_, hfunc.trans happ.freeFunc, hfreed.trans happ.freed⟩
      · rw [linkedListAddAll, he, ok_bind]
        exact hrest
      · rwa [List.append_assoc, List.append_assoc, List.singleton_append,
          List.singleton_append] at h'

/-- A list that was only added to. -/
theorem linked_of_addAll {freeFunc block : Bool}
    (h : linkedListNew Value freeFunc block = some list)
    {adds : List (Value × Nat)} (hnodup : (adds.map Prod.snd).Nodup) :
    ∃ built, linkedListAddAll list adds = .ok built ∧
      built.Linked (adds.map Prod.snd) (adds.map Prod.fst) (firstBack (adds.map Prod.snd)) ∧
      built.freeFunc = freeFunc ∧ built.freed = [] := by
  obtain ⟨hnew, hfunc, hfreed⟩ := linked_new h
  obtain ⟨built, hadd, hlinked, hfunc', hfreed'⟩ := hnew.addAll hnodup
  exact ⟨built, hadd, hlinked, hfunc'.trans hfunc, hfreed'.trans hfreed⟩

/-! ## The walk back -/

namespace Linked

/-- Where the first node points back to nothing, the walk back ends there. -/
theorem back_chain (h : list.Linked nodes items none) :
    Chain list.heap.prev list.tail nodes.reverse := by
  have hfront : ∀ l r, nodes = l ++ r → Chain list.heap.prev l.getLast? l.reverse := by
    intro l
    induction l using List.reverseRecOn with
    | nil => exact fun _ _ => rfl
    | append_singleton l y ih =>
        intro r hr
        rw [List.append_assoc, List.singleton_append] at hr
        rw [List.getLast?_concat, List.reverse_concat]
        refine ⟨rfl, l.getLast?, ?_, ih _ hr⟩
        rw [h.back l y r hr, Option.or_none]
  rw [h.tail]
  exact hfront nodes [] (List.append_nil _).symm

/-- Where it points back to a node of the list, no `prev` link leads out of the list. -/
theorem noExit (h : list.Linked nodes items p) {t : Nat} (hp : p = some t) (ht : t ∈ nodes) :
    NoExit list.heap.prev (· ∈ nodes) := by
  rintro x hx q hq
  obtain ⟨l, r, hnodes⟩ := List.append_of_mem hx
  rw [h.back l x r hnodes] at hq
  cases hq
  rcases List.eq_nil_or_concat l with rfl | ⟨l', y, rfl⟩
  · exact ⟨t, hp, ht⟩
  · refine ⟨y, ?_, ?_⟩
    · rw [List.concat_eq_append, List.getLast?_concat]
      rfl
    · rw [hnodes, List.concat_eq_append]
      simp

end Linked

theorem visits_concat (i : Nat) (items : List Value) (value : Value) :
    visits i (items ++ [value]) = visits i items ++ [(UInt32.ofNat (i + items.length), value)] := by
  rw [visits, List.zipIdx_append, List.map_append]
  rfl

/-- The loop of `linked_list_for_each_rev`, where the walk back ends: the visits of a walk
forward, the last one first. -/
theorem forEachRevLoop_eq (func : State → UInt32 → Value → Except Fault State)
    (hchain : Chain list.heap.prev p nodes.reverse)
    (hvalue : nodes.map list.heap.value = items.map some) (s : State) {fuel : Nat}
    (hfuel : nodes.length ≤ fuel) :
    forEachRevLoop func list s (UInt32.ofNat items.length - 1) p fuel =
      (visits 0 items).reverse.foldlM (fun s v => func s v.1 v.2) s := by
  induction nodes using List.reverseRecOn generalizing p items s fuel with
  | nil =>
      cases List.map_eq_nil_iff.mp hvalue.symm
      have hp : p = none := hchain
      rw [hp, forEachRevLoop]
      rfl
  | append_singleton nodes a ih =>
      rw [List.reverse_concat] at hchain
      obtain ⟨rfl, q, hq, hrest⟩ := hchain
      obtain ⟨elt, helt⟩ := LinkedListHeap.exists_of_prev hq
      rw [LinkedListHeap.prev_eq helt] at hq
      cases hq
      rw [List.map_append, List.map_singleton] at hvalue
      obtain ⟨before, rest, rfl, hb, hv⟩ := List.map_eq_append_iff.mp hvalue.symm
      obtain ⟨value, hrest', hv⟩ := List.map_eq_singleton_iff.mp hv
      subst hrest'
      rw [LinkedListHeap.value_eq helt] at hv
      cases hv
      obtain ⟨fuel, rfl⟩ : ∃ n, fuel = n + 1 := by
        rw [List.length_append, List.length_singleton] at hfuel
        exact ⟨fuel - 1, by omega⟩
      have hi : UInt32.ofNat (before ++ [elt.value]).length - 1 = UInt32.ofNat before.length := by
        rw [List.length_append, List.length_singleton, UInt32.ofNat_add]
        exact UInt32.add_sub_cancel _ _
      rw [hi, forEachRevLoop, loadValue_ok helt, ok_bind, visits_concat, List.reverse_concat,
        List.foldlM_cons, Nat.zero_add]
      cases func s (UInt32.ofNat before.length) elt.value with
      | error f => rfl
      | ok s₁ =>
          rw [ok_bind, loadPrev_ok helt, ok_bind, ok_bind]
          rw [List.length_append, List.length_singleton] at hfuel
          exact ih hrest hb.symm s₁ (Nat.le_of_succ_le_succ hfuel)

/-- `linked_list_for_each_rev` terminates, and makes the `n` visits of
`linked_list_for_each` in reverse order. -/
def VisitsReversed (list : LinkedList Value) (n : Nat) : Prop :=
  ∃ fuel visited, linkedListForEach list (some noteVisit) [] fuel = .ok visited ∧
    visited.length = n ∧ linkedListForEachRev list (some noteVisit) [] fuel = .ok visited.reverse

/-- Where the first node points back to nothing, the walk back is the walk forward in
reverse. -/
theorem Linked.visitsReversed (h : list.Linked nodes items none) :
    list.VisitsReversed items.length := by
  refine ⟨nodes.length, visits 0 items, h.forEach (Nat.le_refl _), length_visits 0 items, ?_⟩
  have hloop := forEachRevLoop_eq noteVisit h.back_chain h.value [] (Nat.le_refl _)
  rw [foldlM_noteVisit, List.nil_append, ← h.size] at hloop
  exact hloop

/-- Where it points back to a node of the list, the walk back does not end, whatever `func`
does. -/
theorem Linked.forEachRev_ne_ok (h : list.Linked nodes items p) {t : Nat} (hp : p = some t)
    (ht : t ∈ nodes) (func : State → UInt32 → Value → Except Fault State) (s s' : State)
    (fuel : Nat) : linkedListForEachRev list (some func) s fuel ≠ .ok s' := by
  intro hrun
  obtain ⟨visited, hchain⟩ := exists_chain_of_forEachRevLoop hrun
  obtain ⟨y, hy⟩ := Option.ne_none_iff_exists'.mp
    (mt List.getLast?_eq_none_iff.mp (List.ne_nil_of_mem ht))
  rw [h.tail, hy] at hchain
  exact hchain.not_of_noExit (h.noExit hp ht) (List.mem_of_getLast? hy)

theorem Linked.visitsReversed_iff (h : list.Linked nodes items (firstBack nodes)) :
    list.VisitsReversed items.length ↔ items.length ≤ 1 := by
  rw [← h.length_eq]
  by_cases hn : nodes.length ≤ 1
  · rw [firstBack, if_pos hn] at h
    rw [h.length_eq] at hn ⊢
    exact iff_of_true h.visitsReversed hn
  · refine iff_of_false ?_ hn
    rintro ⟨fuel, visited, -, -, hrev⟩
    obtain ⟨t, ht⟩ := Option.ne_none_iff_exists'.mp
      (mt List.getLast?_eq_none_iff.mp fun he : nodes = [] => hn (by rw [he]; exact Nat.zero_le 1))
    refine h.forEachRev_ne_ok ?_ (List.mem_of_getLast? ht) noteVisit _ _ _ hrev
    rw [firstBack, if_neg hn, ht]

end LinkedList

/-- **When the walk back ends.**  On a list that any number of values were added to,
`linked_list_for_each_rev` terminates, with the visits of `linked_list_for_each` in reverse
order, if and only if there is at most one value. -/
theorem linked_list_for_each_rev_iff {freeFunc block : Bool} {list : LinkedList Value}
    (hnew : linkedListNew Value freeFunc block = some list) {adds : List (Value × Nat)}
    (hnodup : (adds.map Prod.snd).Nodup) :
    ∃ built, linkedListAddAll list adds = .ok built ∧
      (built.VisitsReversed adds.length ↔ adds.length ≤ 1) := by
  obtain ⟨built, hadd, h, -, -⟩ := LinkedList.linked_of_addAll hnew hnodup
  refine ⟨built, hadd, ?_⟩
  have hiff := h.visitsReversed_iff
  rwa [List.length_map] at hiff

/-- A list of three values. -/
theorem linked_list_for_each_rev_iff_three :
    ∃ list built, linkedListNew Nat false true = some list ∧
      linkedListAddAll list [(7, 0x10), (8, 0x20), (9, 0x30)] = .ok built ∧
      (built.VisitsReversed 3 ↔ 3 ≤ 1) := by
  obtain ⟨built, hadd, h⟩ := linked_list_for_each_rev_iff
    (show linkedListNew Nat false true = some _ from rfl)
    (show (List.map Prod.snd [(7, 0x10), (8, 0x20), (9, 0x30)]).Nodup by decide)
  exact ⟨_, built, rfl, hadd, h⟩

/-- Two additions are enough: the first node points back to the second one, which points
back to the first. -/
theorem linked_list_for_each_rev_two :
    ∃ list built, linkedListNew Nat false true = some list ∧
      linkedListAddAll list [(7, 0x10), (8, 0x20)] = .ok built ∧ ¬ built.VisitsReversed 2 := by
  obtain ⟨built, hadd, h, -, -⟩ := LinkedList.linked_of_addAll
    (show linkedListNew Nat false true = some _ from rfl)
    (show (List.map Prod.snd [(7, 0x10), (8, 0x20)]).Nodup by decide)
  exact ⟨_, built, rfl, hadd, fun hc => absurd (h.visitsReversed_iff.mp hc) (by decide)⟩

end BlackHV
