import BlackHV.Runs

/-! # Flows

A machine that items go through, in order: `carried` are those it has put out so far and then
those that are still in it, and `input` those that an event brings in.  A step may lose items,
but brings none twice and none before another.  `carried_sublist` says what is left of the
items after a run, and `carried_eq_iff` when all of them are.
-/
namespace Flows

open Runs

variable {State Event Out Fault α : Type}

/-- The items that the events of a run bring in. -/
def taken (input : Event → Out → List α) (es : List Event) (os : List Out) : List α :=
  (es.zip os).flatMap fun p => input p.1 p.2

theorem taken_cons (input : Event → Out → List α) (e : Event) (es : List Event) (o : Out)
    (os : List Out) : taken input (e :: es) (o :: os) = input e o ++ taken input es os :=
  List.flatMap_cons

/-- Where only the events count. -/
theorem taken_of_trace {step : State → Event → Except Fault (State × Out)} {s s' : State}
    {es : List Event} {os : List Out} (h : trace step s es = .ok (s', os)) (f : Event → List α) :
    taken (fun e _ => f e) es os = es.flatMap f := by
  induction es generalizing s os with
  | nil => rfl
  | cons e es ih =>
      obtain ⟨s₁, o, os₁, -, hes, rfl⟩ := trace_cons_eq_ok h
      rw [taken_cons, ih hes, List.flatMap_cons]

/-- The steps that meet `C` carry everything on, and the others lose items.  `I` is an
invariant, and `E` is what is asked of the events. -/
structure Carries (step : State → Event → Except Fault (State × Out)) (I : State → Prop)
    (E : Event → Prop) (carried : State → List α) (input : Event → Out → List α)
    (C : State → Event → Prop) : Prop where
  inv : ∀ s e s' o, I s → E e → step s e = .ok (s', o) → I s'
  keeps : ∀ s e s' o, I s → E e → step s e = .ok (s', o) → C s e →
    carried s' = carried s ++ input e o
  loses : ∀ s e s' o, I s → E e → step s e = .ok (s', o) → ¬ C s e →
    (carried s').Sublist (carried s ++ input e o) ∧
      (carried s').length < (carried s ++ input e o).length

namespace Carries
variable {step : State → Event → Except Fault (State × Out)} {I : State → Prop}
  {E : Event → Prop} {carried : State → List α} {input : Event → Out → List α}
  {C : State → Event → Prop} {s s' : State} {es : List Event} {os : List Out}

theorem step_sublist (h : Carries step I E carried input C) (hI : I s) {e : Event} {o : Out}
    (hE : E e) (he : step s e = .ok (s', o)) :
    (carried s').Sublist (carried s ++ input e o) := by
  by_cases hC : C s e
  · exact h.keeps s e s' o hI hE he hC ▸ List.Sublist.refl _
  · exact (h.loses s e s' o hI hE he hC).1

/-- **Nothing twice, and nothing before what came in before it.** -/
theorem carried_sublist (h : Carries step I E carried input C) (hI : I s) (hE : ∀ e ∈ es, E e)
    (ht : trace step s es = .ok (s', os)) :
    (carried s').Sublist (carried s ++ taken input es os) := by
  induction es generalizing s os with
  | nil =>
      cases ht
      exact List.sublist_append_left _ _
  | cons e es ih =>
      obtain ⟨s₁, o, os₁, he, hes, rfl⟩ := trace_cons_eq_ok ht
      have hEe := hE e List.mem_cons_self
      rw [taken_cons, ← List.append_assoc]
      have hrest := ih (h.inv s e s₁ o hI hEe he) (fun e' he' => hE e' (List.mem_cons_of_mem e he'))
        hes
      exact hrest.trans ((h.step_sublist hI hEe he).append_right _)

/-- **Nothing is lost exactly if no step loses anything.** -/
theorem carried_eq_iff (h : Carries step I E carried input C) (hI : I s) (hE : ∀ e ∈ es, E e)
    (ht : trace step s es = .ok (s', os)) :
    carried s' = carried s ++ taken input es os ↔
      EachStep (fun s e => (step s e).map Prod.fst) C s es := by
  induction es generalizing s os with
  | nil =>
      cases ht
      exact iff_of_true (List.append_nil _).symm trivial
  | cons e es ih =>
      obtain ⟨s₁, o, os₁, he, hes, rfl⟩ := trace_cons_eq_ok ht
      have hEe := hE e List.mem_cons_self
      have hEes : ∀ e' ∈ es, E e' := fun e' he' => hE e' (List.mem_cons_of_mem e he')
      have hI₁ := h.inv s e s₁ o hI hEe he
      have hstep : (step s e).map Prod.fst = .ok s₁ := congrArg (Except.map Prod.fst) he
      rw [taken_cons, ← List.append_assoc]
      by_cases hC : C s e
      · rw [← h.keeps s e s₁ o hI hEe he hC, ih hI₁ hEes hes]
        refine ⟨EachStep.cons hC hstep, fun hall => hall.2 s₁ hstep⟩
      · refine iff_of_false (fun heq => ?_) fun hall => hC hall.1
        -- what is lost here is not made up for later
        have hshort := (h.loses s e s₁ o hI hEe he hC).2
        have hrest := (h.carried_sublist hI₁ hEes hes).length_le
        have hlen : (carried s ++ input e o).length + (taken input es os₁).length ≤
            (carried s₁).length + (taken input es os₁).length := by
          rw [← List.length_append, ← List.length_append, ← heq]
          exact hrest
        exact absurd hshort (Nat.not_lt_of_le (Nat.le_of_add_le_add_right hlen))

end Carries

end Flows
