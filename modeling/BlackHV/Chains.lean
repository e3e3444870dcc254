/-! # Chains of pointers

A link field is a function `link : Node → Option (Option Node)`: `none` at a node that
is not live, and otherwise the pointer stored there, `some none` being the null
pointer.  `Chain link p nodes` says that following `link` from `p` visits the live
nodes `nodes`, in this order, and then meets the null pointer.

A chain determines its nodes, so no node occurs twice in it; `Chain.unlink` is what
a removal from the middle does.  A doubly linked list is two chains, the second one
over the reversed nodes, and one lemma serves both directions.  A walk does not end if it
starts where no pointer leads out (`NoExit`).
-/
namespace Chains

variable {Node : Type} {link link' : Node → Option (Option Node)} {p : Option Node}
  {nodes l r : List Node} {x : Node}

/-- Following `link` from `p` visits `nodes`, and then ends. -/
def Chain (link : Node → Option (Option Node)) : Option Node → List Node → Prop
  | p, [] => p = none
  | p, x :: nodes => p = some x ∧ ∃ q, link x = some q ∧ Chain link q nodes

/-- No pointer at a node of `S` leads out of `S`, or to nothing. -/
def NoExit (link : Node → Option (Option Node)) (S : Node → Prop) : Prop :=
  ∀ x, S x → ∀ q, link x = some q → ∃ y, q = some y ∧ S y

namespace Chain

theorem head_eq (h : Chain link p nodes) : p = nodes.head? := by
  cases nodes with
  | nil => exact h
  | cons x nodes => exact h.1

/-- A node of a chain is live, and points to the rest of the chain. -/
theorem rest (h : Chain link p (l ++ x :: r)) : link x = some r.head? ∧ Chain link r.head? r := by
  induction l generalizing p with
  | nil =>
      obtain ⟨-, q, hq, hr⟩ := h
      rw [← hr.head_eq]
      exact ⟨hq, hr⟩
  | cons y l ih =>
      obtain ⟨-, q, -, hrest⟩ := h
      exact ih hrest

theorem live (h : Chain link p nodes) (hx : x ∈ nodes) : ∃ q, link x = some q := by
  obtain ⟨l, r, rfl⟩ := List.append_of_mem hx
  exact ⟨_, h.rest.1⟩

/-- A chain determines its nodes. -/
theorem unique {nodes' : List Node} (h : Chain link p nodes) (h' : Chain link p nodes') :
    nodes = nodes' := by
  induction nodes generalizing p nodes' with
  | nil =>
      cases nodes' with
      | nil => rfl
      | cons y nodes' =>
          have hp : p = none := h
          rw [hp] at h'
          cases h'.1
  | cons x nodes ih =>
      obtain ⟨rfl, q, hq, hrest⟩ := h
      cases nodes' with
      | nil => cases h'.head_eq
      | cons y nodes' =>
          obtain ⟨hxy, q', hq', hrest'⟩ := h'
          cases hxy
          rw [hq] at hq'
          cases hq'
          rw [ih hrest hrest']

/-- No node occurs twice in a chain: from both occurrences the same nodes follow. -/
theorem nodup (h : Chain link p nodes) : nodes.Nodup := by
  induction nodes generalizing p with
  | nil => exact List.nodup_nil
  | cons x nodes ih =>
      obtain ⟨-, q, hq, hrest⟩ := h
      refine List.nodup_cons.mpr ⟨fun hmem => ?_, ih hrest⟩
      obtain ⟨l, r, rfl⟩ := List.append_of_mem hmem
      obtain ⟨hx, hr⟩ := hrest.rest
      rw [hx] at hq
      cases hq
      -- `r` and a longer list would both follow `x`
      have hlen := congrArg List.length (hr.unique hrest)
      rw [List.length_append, List.length_cons] at hlen
      omega

/-- A chain depends on the links of its own nodes only. -/
theorem congr (h : Chain link p nodes) (heq : ∀ y ∈ nodes, link' y = link y) :
    Chain link' p nodes := by
  induction nodes generalizing p with
  | nil => exact h
  | cons x nodes ih =>
      obtain ⟨hp, q, hq, hrest⟩ := h
      refine ⟨hp, q, ?_, ih hrest fun y hy => heq y (List.mem_cons_of_mem _ hy)⟩
      rw [heq x List.mem_cons_self, hq]

/-- **A removal from a chain.**  If the node before `x` now points where `x` points,
and the other nodes point where they did, the chain without `x` is left; where `x`
was the first node, it starts at the second. -/
theorem unlink (h : Chain link p (l ++ x :: r))
    (hlast : ∀ y, l.getLast? = some y → link' y = link x)
    (hother : ∀ y, y ∈ l ++ r → l.getLast? ≠ some y → link' y = link y) :
    Chain link' (if l = [] then r.head? else p) (l ++ r) := by
  induction l generalizing p with
  | nil =>
      exact h.rest.2.congr fun y hy => hother y hy (by simp)
  | cons y l ih =>
      obtain ⟨hy, -⟩ := List.nodup_cons.mp h.nodup
      obtain ⟨rfl, q, hq, hrest⟩ := h
      rw [if_neg (List.cons_ne_nil _ _)]
      -- `y` is the node before `x`, and points past it now, or it is further up and keeps
      -- its pointer
      by_cases hl : l = []
      · subst hl
        obtain ⟨hx, hr⟩ := hrest.rest
        refine ⟨rfl, r.head?, (hlast y rfl).trans hx, hr.congr fun z hz => ?_⟩
        refine hother z (List.mem_cons_of_mem _ hz) fun he => hy ?_
        cases he
        exact List.mem_cons_of_mem _ hz
      · have hgl : (y :: l).getLast? = l.getLast? := List.getLast?_cons_of_ne_nil hl
        rw [hgl] at hlast hother
        have hkeep : link' y = link y := by
          refine hother y List.mem_cons_self fun he => hy ?_
          exact List.mem_append_left _ (List.mem_of_getLast? he)
        have := ih hrest hlast fun z hz => hother z (List.mem_cons_of_mem _ hz)
        rw [if_neg hl] at this
        exact ⟨rfl, q, hkeep.trans hq, this⟩

/-- **An addition behind a chain.**  If the last node now points to `x`, `x` points to
nothing, and the other nodes point where they did, the chain goes on to `x`; where there
was no node, it starts there. -/
theorem concat (h : Chain link p nodes) (hx : link' x = some none)
    (hlast : ∀ y, nodes.getLast? = some y → link' y = some (some x))
    (hother : ∀ y ∈ nodes, nodes.getLast? ≠ some y → link' y = link y) :
    Chain link' (if nodes = [] then some x else p) (nodes ++ [x]) := by
  induction nodes generalizing p with
  | nil => exact ⟨rfl, none, hx, rfl⟩
  | cons y nodes ih =>
      obtain ⟨hy, -⟩ := List.nodup_cons.mp h.nodup
      obtain ⟨rfl, q, hq, hrest⟩ := h
      rw [if_neg (List.cons_ne_nil _ _)]
      by_cases hn : nodes = []
      · subst hn
        exact ⟨rfl, some x, hlast y rfl, rfl, none, hx, rfl⟩
      · have hgl : (y :: nodes).getLast? = nodes.getLast? := List.getLast?_cons_of_ne_nil hn
        rw [hgl] at hlast hother
        have hkeep : link' y = link y := by
          refine hother y List.mem_cons_self fun he => hy ?_
          exact List.mem_of_getLast? he
        have := ih hrest hlast fun z hz => hother z (List.mem_cons_of_mem _ hz)
        rw [if_neg hn] at this
        exact ⟨rfl, q, hkeep.trans hq, this⟩

/-- A walk that ends does not start where there is no exit. -/
theorem not_of_noExit {S : Node → Prop} (hS : NoExit link S) (h : Chain link (some x) nodes) :
    ¬ S x := by
  induction nodes generalizing x with
  | nil => cases h
  | cons y nodes ih =>
      obtain ⟨hxy, q, hq, hrest⟩ := h
      cases hxy
      intro hx
      obtain ⟨z, rfl, hz⟩ := hS y hx q hq
      exact ih hrest hz

end Chain

end Chains
