import BlackHV.Runs

/-! # Families of machines

Several machines side by side, each with a state of its own; an event is for one of them.
Their runs may be interleaved in any way: what happens to a member is what happens to it
alone on the events for it, so members can be taken apart (`trace_member`) and put together
(`trace_family`).

A machine that is not built as a family may still behave as one, if each of its events
follows one member and keeps what the other members are related to
(`trace_refines_family`).
-/
namespace Families

open Runs

variable {ι Cmd Out Fault : Type} [DecidableEq ι] {Abs : ι → Type}

/-- One event of a family: it is for one member, and moves that member alone. -/
def step (member : (i : ι) → Abs i → Cmd → Except Fault (Abs i × Out)) (a : (i : ι) → Abs i)
    (e : ι × Cmd) : Except Fault (((i : ι) → Abs i) × Out) :=
  match member e.1 (a e.1) e.2 with
  | .error f => .error f
  | .ok (b, o) => .ok (Function.update a e.1 b, o)

/-- The commands for a member, in order. -/
def commandsOf (i : ι) (es : List (ι × Cmd)) : List Cmd :=
  es.filterMap fun e => if e.1 = i then some e.2 else none

/-- The outputs of the events for a member, in order. -/
def outputsOf (i : ι) (es : List (ι × Cmd)) (os : List Out) : List Out :=
  (es.zip os).filterMap fun p => if p.1.1 = i then some p.2 else none

section Own
variable {i : ι} {e : ι × Cmd} {es : List (ι × Cmd)} {o : Out} {os : List Out}

theorem commandsOf_cons_self (h : e.1 = i) : commandsOf i (e :: es) = e.2 :: commandsOf i es :=
  List.filterMap_cons_some (if_pos h)

theorem commandsOf_cons_other (h : e.1 ≠ i) : commandsOf i (e :: es) = commandsOf i es :=
  List.filterMap_cons_none (if_neg h)

theorem outputsOf_cons_self (h : e.1 = i) :
    outputsOf i (e :: es) (o :: os) = o :: outputsOf i es os :=
  List.filterMap_cons_some (if_pos h)

theorem outputsOf_cons_other (h : e.1 ≠ i) :
    outputsOf i (e :: es) (o :: os) = outputsOf i es os :=
  List.filterMap_cons_none (if_neg h)

theorem mem_commandsOf {c : Cmd} : c ∈ commandsOf i es ↔ (i, c) ∈ es := by
  simp only [commandsOf, List.mem_filterMap, Option.ite_none_right_eq_some, Option.some.injEq]
  constructor
  · rintro ⟨⟨j, c'⟩, hmem, rfl, rfl⟩
    exact hmem
  · exact fun h => ⟨(i, c), h, rfl, rfl⟩

end Own

variable {member : (i : ι) → Abs i → Cmd → Except Fault (Abs i × Out)} {a a' : (i : ι) → Abs i}
  {es : List (ι × Cmd)} {os : List Out}

theorem step_ok {e : ι × Cmd} {b : Abs e.1} {o : Out} (h : member e.1 (a e.1) e.2 = .ok (b, o)) :
    step member a e = .ok (Function.update a e.1 b, o) := by
  rw [step, h]

theorem step_eq_ok {e : ι × Cmd} {o : Out} (h : step member a e = .ok (a', o)) :
    member e.1 (a e.1) e.2 = .ok (a' e.1, o) ∧ ∀ j, j ≠ e.1 → a' j = a j := by
  unfold step at h
  split at h
  · cases h
  · rename_i b o' he
    cases h
    exact ⟨by rw [he, Function.update_self], fun j hj => Function.update_of_ne hj _ _⟩

/-- **A member of a run runs alone** on the commands for it, with the same outputs. -/
theorem trace_member (h : trace (step member) a es = .ok (a', os)) (i : ι) :
    trace (member i) (a i) (commandsOf i es) = .ok (a' i, outputsOf i es os) := by
  induction es generalizing a os with
  | nil =>
      cases h
      rfl
  | cons e es ih =>
      obtain ⟨a₁, o, os₁, he, hes, rfl⟩ := trace_cons_eq_ok h
      obtain ⟨hself, hother⟩ := step_eq_ok he
      have hrest := ih hes
      by_cases hi : e.1 = i
      · subst hi
        rw [commandsOf_cons_self rfl, outputsOf_cons_self rfl]
        exact trace_cons_ok hself hrest
      · rw [commandsOf_cons_other hi, outputsOf_cons_other hi, ← hother i (Ne.symm hi)]
        exact hrest

/-- **Members that run alone run together**, however their commands are interleaved. -/
theorem trace_family (h : ∀ i, ∃ r, trace (member i) (a i) (commandsOf i es) = .ok r) :
    ∃ a' os, trace (step member) a es = .ok (a', os) := by
  induction es generalizing a with
  | nil => exact ⟨a, [], rfl⟩
  | cons e es ih =>
      obtain ⟨⟨b', os'⟩, ht⟩ := h e.1
      rw [commandsOf_cons_self rfl] at ht
      obtain ⟨b, o, os₁, he, hrest, -⟩ := trace_cons_eq_ok ht
      have hstep := step_ok he
      -- the other members have not moved, and the rest of this one's commands is left
      obtain ⟨a', os, htail⟩ := ih (a := Function.update a e.1 b) fun i => by
        by_cases hi : e.1 = i
        · subst hi
          rw [Function.update_self]
          exact ⟨_, hrest⟩
        · obtain ⟨r, hr⟩ := h i
          rw [commandsOf_cons_other hi] at hr
          rw [Function.update_of_ne (Ne.symm hi)]
          exact ⟨r, hr⟩
      exact ⟨a', o :: os, trace_cons_ok hstep htail⟩

/-- A machine that keeps an invariant on each of some events, without faulting, runs them. -/
theorem exists_trace {State Event : Type} {next : State → Event → Except Fault (State × Out)}
    {I : State → Prop} {es : List Event}
    (keep : ∀ e ∈ es, ∀ s, I s → ∃ s' o, next s e = .ok (s', o) ∧ I s') {s : State} (hs : I s) :
    ∃ s' os, trace next s es = .ok (s', os) ∧ I s' := by
  induction es generalizing s with
  | nil => exact ⟨s, [], rfl, hs⟩
  | cons e es ih =>
      obtain ⟨s₁, o, he, h₁⟩ := keep e List.mem_cons_self s hs
      obtain ⟨s', os, hes, h'⟩ := ih (fun e' he' => keep e' (List.mem_cons_of_mem _ he')) h₁
      exact ⟨s', o :: os, trace_cons_ok he hes, h'⟩

/-- **Refinement of a family.**  If an event follows the member it is for, and keeps what the
other members are related to, every run of the family is one of the machine.  `E` is what is
asked of the events. -/
theorem trace_refines_family {State : Type} {E : ι × Cmd → Prop}
    {next : State → ι × Cmd → Except Fault (State × Out)} (R : (i : ι) → State → Abs i → Prop)
    (sim : ∀ s (e : ι × Cmd) (b b' : Abs e.1) o, E e → R e.1 s b →
      member e.1 b e.2 = .ok (b', o) →
      ∃ s', next s e = .ok (s', o) ∧ R e.1 s' b' ∧ ∀ j, j ≠ e.1 → ∀ c, R j s c → R j s' c)
    {s : State} (hR : ∀ i, R i s (a i)) (hes : ∀ e ∈ es, E e)
    (h : trace (step member) a es = .ok (a', os)) :
    ∃ s', trace next s es = .ok (s', os) ∧ ∀ i, R i s' (a' i) := by
  induction es generalizing s a os with
  | nil =>
      cases h
      exact ⟨s, rfl, hR⟩
  | cons e es ih =>
      obtain ⟨a₁, o, os₁, he, hrest, rfl⟩ := trace_cons_eq_ok h
      obtain ⟨hself, hother⟩ := step_eq_ok he
      obtain ⟨hE, hEs⟩ := List.forall_mem_cons.mp hes
      obtain ⟨s₁, hs, hRe, hRj⟩ := sim s e _ _ o hE (hR e.1) hself
      have hR₁ : ∀ i, R i s₁ (a₁ i) := by
        intro i
        by_cases hi : i = e.1
        · subst hi
          exact hRe
        · rw [hother i hi]
          exact hRj i hi _ (hR i)
      obtain ⟨s', ht, hR'⟩ := ih hR₁ hEs hrest
      exact ⟨s', trace_cons_ok hs ht, hR'⟩

end Families
