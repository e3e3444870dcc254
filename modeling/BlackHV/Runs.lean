import Mathlib.Logic.Function.Basic

/-! # Runs of a machine that may fault

A machine is a step function `step : State → Event → Except Fault State`: an event
either takes the state to the next one, or faults.  `run` plays a list of events
in order and stops at the first fault.

Nine rules carry every statement about runs of any length:

* `run_of_eachStep`: an invariant that each step keeps, without faulting, holds at
  the end of every run;
* `run_keeps`: where steps may fault, what the others keep holds at the end of every
  run that does not fault;
* `run_eq_error`: where the steps of certain events fault and the others keep an invariant,
  a run with such an event faults;
* `alwaysAlong_of_eachStep`: such an invariant holds in every state on the way, and so
  does what it implies;
* `alwaysAlong_iff_eachStep`: where a step keeps a property exactly when it meets
  a condition, the property holds in every state a run reaches exactly when every
  step of that run meets the condition;
* `trace_simulates`: a machine with outputs that simulates an abstract one step by
  step produces the abstract outputs on every run;
* `trace_eq_iff_eachTotal`: where a step has the abstract output exactly if it meets a
  condition, a run has the abstract outputs exactly if each of its steps does;
* `trace_simulates_family`: a machine whose events each belong to one part, and
  simulate that part's abstract machine without touching what the other parts are
  related to, produces the outputs of independent abstract machines;
* `unnoticed_iff_eachStep`: where a hidden event leaves a state as it is exactly when it
  meets a condition, the hidden events of a run go unnoticed exactly when each of them
  meets the condition.
-/
namespace Runs

variable {State Event Fault Out : Type}

/-! ## States -/

section States
variable (step : State → Event → Except Fault State)

/-- The state after the events `es`, in order, from `s`. -/
def run (s : State) : List Event → Except Fault State
  | [] => .ok s
  | e :: es =>
      match step s e with
      | .ok s' => run s' es
      | .error f => .error f

/-- `P` holds in `s` and in every state reached along `es`, and no step of `es`
faults. -/
def AlwaysAlong (P : State → Prop) (s : State) : List Event → Prop
  | [] => P s
  | e :: es => P s ∧ ∃ s', step s e = .ok s' ∧ AlwaysAlong P s' es

/-- Every step taken along `es` meets the condition `C`, on the state before the
step and on its event. -/
def EachStep (C : State → Event → Prop) (s : State) : List Event → Prop
  | [] => True
  | e :: es => C s e ∧ ∀ s', step s e = .ok s' → EachStep C s' es

variable {step}

theorem run_cons_ok {s s' : State} {e : Event} {es : List Event} (h : step s e = .ok s') :
    run step s (e :: es) = run step s' es := by
  simp only [run, h]

/-- A run that does not fault does not fault at its first step. -/
theorem run_cons_eq_ok {s s' : State} {e : Event} {es : List Event}
    (h : run step s (e :: es) = .ok s') : ∃ s₁, step s e = .ok s₁ ∧ run step s₁ es = .ok s' := by
  cases he : step s e with
  | error f => simp [run, he] at h
  | ok s₁ =>
      rw [run_cons_ok he] at h
      exact ⟨s₁, rfl, h⟩

/-- **An invariant of every step is an invariant of every run**, for steps that meet
`C`. -/
theorem run_of_eachStep {I : State → Prop} {C : State → Event → Prop}
    (keep : ∀ s e, I s → C s e → ∃ s', step s e = .ok s' ∧ I s') {s : State} (hs : I s)
    {es : List Event} (hes : EachStep step C s es) : ∃ s', run step s es = .ok s' ∧ I s' := by
  induction es generalizing s with
  | nil => exact ⟨s, rfl, hs⟩
  | cons e es ih =>
      obtain ⟨s₁, he, h₁⟩ := keep s e hs hes.1
      obtain ⟨s', hr, h'⟩ := ih h₁ (hes.2 s₁ he)
      exact ⟨s', (run_cons_ok he).trans hr, h'⟩

/-- An invariant of the steps that do not fault holds at the end of a run that does
not fault. -/
theorem run_keeps {I : State → Prop} (keep : ∀ s e s', I s → step s e = .ok s' → I s')
    {s s' : State} (hs : I s) {es : List Event} (hrun : run step s es = .ok s') : I s' := by
  induction es generalizing s with
  | nil =>
      cases hrun
      exact hs
  | cons e es ih =>
      obtain ⟨s₁, he, hrest⟩ := run_cons_eq_ok hrun
      exact ih (keep s e s₁ hs he) hrest

/-- What grows by one a step at most grows by the length of a run at most. -/
theorem run_measure_le {m : State → Nat} (h : ∀ s e s', step s e = .ok s' → m s' ≤ m s + 1)
    {s s' : State} {es : List Event} (hrun : run step s es = .ok s') : m s' ≤ m s + es.length := by
  induction es generalizing s with
  | nil =>
      cases hrun
      exact Nat.le_refl _
  | cons e es ih =>
      obtain ⟨s₁, he, hrest⟩ := run_cons_eq_ok hrun
      have hs := h s e s₁ he
      have hs₁ := ih hrest
      rw [List.length_cons]
      omega

theorem AlwaysAlong.head {P : State → Prop} {s : State} {es : List Event}
    (h : AlwaysAlong step P s es) : P s := by
  cases es with
  | nil => exact h
  | cons e es => exact h.1

/-- What holds along a run holds in the state it ends in. -/
theorem AlwaysAlong.last {P : State → Prop} {s : State} {es : List Event}
    (h : AlwaysAlong step P s es) : ∃ s', run step s es = .ok s' ∧ P s' := by
  induction es generalizing s with
  | nil => exact ⟨s, rfl, h⟩
  | cons e es ih =>
      obtain ⟨-, s₁, he, h₁⟩ := h
      obtain ⟨s', hr, hP⟩ := ih h₁
      exact ⟨s', (run_cons_ok he).trans hr, hP⟩

/-- What an invariant implies holds all along every run whose steps all meet `C`, if
such steps keep the invariant. -/
theorem alwaysAlong_of_eachStep {I P : State → Prop} {C : State → Event → Prop}
    (keep : ∀ s e, I s → C s e → ∃ s', step s e = .ok s' ∧ I s') (implies : ∀ s, I s → P s)
    {s : State} (hs : I s) {es : List Event} (hes : EachStep step C s es) :
    AlwaysAlong step P s es := by
  induction es generalizing s with
  | nil => exact implies s hs
  | cons e es ih =>
      obtain ⟨s₁, he, h₁⟩ := keep s e hs hes.1
      exact ⟨implies s hs, s₁, he, ih h₁ (hes.2 s₁ he)⟩

theorem eachStep_congr {C D : State → Event → Prop} (h : ∀ s e, C s e ↔ D s e) {s : State}
    {es : List Event} : EachStep step C s es ↔ EachStep step D s es := by
  rw [show C = D from funext fun s => funext fun e => propext (h s e)]

/-- Conditions that say the same wherever an invariant holds are met along the same runs. -/
theorem eachStep_iff_of_keeps {I : State → Prop} {C C' D : State → Event → Prop}
    (keep : ∀ s e s', I s → D s e → step s e = .ok s' → I s')
    (iff : ∀ s e, I s → D s e → (C s e ↔ C' s e)) {s : State} (hI : I s) {es : List Event}
    (hD : EachStep step D s es) : EachStep step C s es ↔ EachStep step C' s es := by
  induction es generalizing s with
  | nil => exact Iff.rfl
  | cons e es ih =>
      refine and_congr (iff s e hI hD.1) (forall_congr' fun s' => imp_congr_right fun hs' => ?_)
      exact ih (keep s e s' hI hD.1 hs') (hD.2 s' hs')

theorem EachStep.and {C D : State → Event → Prop} {s : State} {es : List Event}
    (hC : EachStep step C s es) (hD : EachStep step D s es) :
    EachStep step (fun s e => C s e ∧ D s e) s es := by
  induction es generalizing s with
  | nil => trivial
  | cons e es ih => exact ⟨⟨hC.1, hD.1⟩, fun s' hs' => ih (hC.2 s' hs') (hD.2 s' hs')⟩

/-- What every step that does not fault meets is met along a run that does not fault. -/
theorem eachStep_of_run {D : State → Event → Prop} (h : ∀ s e s', step s e = .ok s' → D s e)
    {s s' : State} {es : List Event} (hrun : run step s es = .ok s') : EachStep step D s es := by
  induction es generalizing s with
  | nil => trivial
  | cons e es ih =>
      obtain ⟨s₁, he, hrest⟩ := run_cons_eq_ok hrun
      refine ⟨h s e s₁ he, fun s₂ hs₂ => ?_⟩
      rw [he] at hs₂
      cases hs₂
      exact ih hrest

/-- **What is recorded changes nothing.**  Where a machine with a record beside its state
steps as the machine does, a condition on the states is met along the runs of both. -/
theorem eachStep_recorded {Recorded : Type} {stepR : Recorded → Event → Except Fault Recorded}
    {state : Recorded → State} (hstep : ∀ r e, step (state r) e = (stepR r e).map state)
    {C : State → Event → Prop} {r : Recorded} {es : List Event} :
    EachStep stepR (fun r e => C (state r) e) r es ↔ EachStep step C (state r) es := by
  induction es generalizing r with
  | nil => exact Iff.rfl
  | cons e es ih =>
      refine and_congr_right fun _ => ?_
      rw [hstep r e]
      cases stepR r e with
      | error f => exact ⟨(fun _ _ h => nomatch h), fun _ _ h => nomatch h⟩
      | ok r₁ =>
          constructor
          · rintro h s' ⟨⟩
            exact ih.mp (h r₁ rfl)
          · rintro h r' ⟨⟩
            exact ih.mpr (h (state r₁) rfl)

theorem EachStep.cons {C : State → Event → Prop} {s s' : State} {e : Event} {es : List Event}
    (hC : C s e) (he : step s e = .ok s') (h : EachStep step C s' es) :
    EachStep step C s (e :: es) := by
  refine ⟨hC, fun s₁ hs₁ => ?_⟩
  rw [he] at hs₁
  cases hs₁
  exact h

/-- The condition of a run can be evaluated, if that of a step can. -/
instance decidableEachStep {C : State → Event → Prop} [∀ s e, Decidable (C s e)] :
    (s : State) → (es : List Event) → Decidable (EachStep step C s es)
  | _, [] => isTrue trivial
  | s, e :: es =>
      match he : step s e with
      | .error _ => decidable_of_iff (C s e) ⟨fun hC => ⟨hC, fun s' hs' => by
          rw [he] at hs'
          cases hs'⟩, fun h => h.1⟩
      | .ok s₁ =>
          have := decidableEachStep (C := C) s₁ es
          decidable_of_iff (C s e ∧ EachStep step C s₁ es)
            ⟨fun h => EachStep.cons h.1 he h.2, fun h => ⟨h.1, h.2 s₁ he⟩⟩

/-- What is asked of every event is met at every step. -/
theorem eachStep_of_forall {E : Event → Prop} {s : State} {es : List Event}
    (h : ∀ e ∈ es, E e) : EachStep step (fun _ e => E e) s es := by
  induction es generalizing s with
  | nil => trivial
  | cons e es ih =>
      exact ⟨h e List.mem_cons_self, fun _ _ => ih fun e' he' => h e' (List.mem_cons_of_mem _ he')⟩

/-- **Events that fault.**  If an event that fails `E` faults, and the others keep an invariant,
a run with one that fails `E` faults.  `D` is what is asked of all events. -/
theorem run_eq_error {I : State → Prop} {D E : Event → Prop} {f : Fault}
    (keep : ∀ s e, I s → D e → E e → ∃ s', step s e = .ok s' ∧ I s')
    (fails : ∀ s e, I s → ¬ E e → step s e = .error f) {s : State} (hs : I s) {es : List Event}
    (hD : ∀ e ∈ es, D e) (hes : ¬ ∀ e ∈ es, E e) : run step s es = .error f := by
  induction es generalizing s with
  | nil => exact absurd (fun e he => absurd he List.not_mem_nil) hes
  | cons e es ih =>
      obtain ⟨hd, hrest⟩ := List.forall_mem_cons.mp hD
      by_cases he : E e
      · obtain ⟨s₁, hstep, hs₁⟩ := keep s e hs hd he
        rw [run_cons_ok hstep]
        exact ih hs₁ hrest fun hall => hes (List.forall_mem_cons.mpr ⟨he, hall⟩)
      · rw [run, fails s e hs he]

/-- What an invariant of every step implies holds all along every run.  `E` is what
is asked of the events. -/
theorem alwaysAlong_of_invariant {I P : State → Prop} {E : Event → Prop}
    (keep : ∀ s e, E e → I s → ∃ s', step s e = .ok s' ∧ I s') (implies : ∀ s, I s → P s)
    {s : State} (hs : I s) {es : List Event} (hes : ∀ e ∈ es, E e) :
    AlwaysAlong step P s es :=
  alwaysAlong_of_eachStep (fun s e hI hE => keep s e hE hI) implies hs (eachStep_of_forall hes)

/-- **The exact condition of a run.**  Let `I` be what the proof needs to know of
a state, and `D` what is asked of each step.  If every step that meets `C` keeps `I`
and `P`, and no step that fails `C` reaches a state with `P`, then `P` holds all along
a run exactly when every one of its steps meets `C`. -/
theorem alwaysAlong_iff_eachStep {I P : State → Prop} {C D : State → Event → Prop}
    (keep : ∀ s e, I s → P s → D s e → C s e → ∃ s', step s e = .ok s' ∧ I s' ∧ P s')
    (breaks : ∀ s e s', I s → P s → D s e → ¬ C s e → step s e = .ok s' → ¬ P s')
    {s : State} (hI : I s) (hP : P s) {es : List Event} (hD : EachStep step D s es) :
    AlwaysAlong step P s es ↔ EachStep step C s es := by
  induction es generalizing s with
  | nil => exact ⟨fun _ => trivial, fun _ => hP⟩
  | cons e es ih =>
      obtain ⟨hd, hrest⟩ := hD
      constructor
      · rintro ⟨-, s₁, he, h₁⟩
        -- a step that fails `C` would have broken `P` in the state it reaches
        have hC : C s e := Classical.byContradiction fun hn =>
          breaks s e s₁ hI hP hd hn he h₁.head
        obtain ⟨s₂, he₂, hI₂, hP₂⟩ := keep s e hI hP hd hC
        refine ⟨hC, fun s' hs' => ?_⟩
        rw [he] at hs' he₂
        cases hs'
        cases he₂
        exact (ih hI₂ hP₂ (hrest s₁ he)).mp h₁
      · rintro ⟨hC, hcond⟩
        obtain ⟨s₁, he, hI₁, hP₁⟩ := keep s e hI hP hd hC
        exact ⟨hP, s₁, he, (ih hI₁ hP₁ (hrest s₁ he)).mpr (hcond s₁ he)⟩

end States

/-! ## Outputs -/

section Outputs
variable (step : State → Event → Except Fault (State × Out))

/-- The state after the events `es`, and the output of each of them. -/
def trace (s : State) : List Event → Except Fault (State × List Out)
  | [] => .ok (s, [])
  | e :: es =>
      match step s e with
      | .error f => .error f
      | .ok (s', o) =>
          match trace s' es with
          | .error f => .error f
          | .ok (s'', os) => .ok (s'', o :: os)

variable {step}

theorem trace_cons_ok {s s' s'' : State} {e : Event} {es : List Event} {o : Out} {os : List Out}
    (he : step s e = .ok (s', o)) (hes : trace step s' es = .ok (s'', os)) :
    trace step s (e :: es) = .ok (s'', o :: os) := by
  simp only [trace, he, hes]

/-- A trace that does not fault does not fault at its first event. -/
theorem trace_cons_eq_ok {s s'' : State} {e : Event} {es : List Event} {os : List Out}
    (h : trace step s (e :: es) = .ok (s'', os)) : ∃ s' o os', step s e = .ok (s', o) ∧
      trace step s' es = .ok (s'', os') ∧ os = o :: os' := by
  cases he : step s e with
  | error f => simp [trace, he] at h
  | ok p =>
      obtain ⟨s', o⟩ := p
      cases hes : trace step s' es with
      | error f => simp [trace, he, hes] at h
      | ok q =>
          obtain ⟨s₂, os'⟩ := q
          rw [trace_cons_ok he hes] at h
          cases h
          exact ⟨s', o, os', rfl, hes, rfl⟩

theorem trace_append_ok {s s' s'' : State} {es es' : List Event} {os os' : List Out}
    (h : trace step s es = .ok (s', os)) (h' : trace step s' es' = .ok (s'', os')) :
    trace step s (es ++ es') = .ok (s'', os ++ os') := by
  induction es generalizing s os with
  | nil =>
      cases h
      exact h'
  | cons e es ih =>
      obtain ⟨s₁, o, os₁, he, hes, rfl⟩ := trace_cons_eq_ok h
      exact trace_cons_ok he (ih hes)

/-- A trace is a run of the machine without outputs. -/
theorem run_of_trace {next : State → Event → Except Fault State}
    (hnext : ∀ s e, next s e = (step s e).map Prod.fst) {s s' : State} {es : List Event}
    {os : List Out} (h : trace step s es = .ok (s', os)) : run next s es = .ok s' := by
  induction es generalizing s os with
  | nil =>
      cases h
      rfl
  | cons e es ih =>
      obtain ⟨s₁, o, os₁, he, hes, rfl⟩ := trace_cons_eq_ok h
      have hstep : next s e = .ok s₁ := by
        rw [hnext, he]
        rfl
      exact (run_cons_ok hstep).trans (ih hes)

/-- Events that stand for others. -/
theorem trace_map {Access : Type} (f : Access → Event) {s : State} {as : List Access} :
    trace step s (as.map f) = trace (fun s a => step s (f a)) s as := by
  induction as generalizing s with
  | nil => rfl
  | cons a as ih => simp only [List.map_cons, trace, ih]

/-- The first events of a trace, and their outputs. -/
theorem trace_take {s s' : State} {es : List Event} {os : List Out}
    (h : trace step s es = .ok (s', os)) (n : Nat) :
    ∃ s₁, trace step s (es.take n) = .ok (s₁, os.take n) := by
  induction n generalizing s es os with
  | zero => exact ⟨s, rfl⟩
  | succ n ih =>
      cases es with
      | nil =>
          cases h
          exact ⟨_, rfl⟩
      | cons e es =>
          obtain ⟨s₁, o, os₁, he, hes, rfl⟩ := trace_cons_eq_ok h
          obtain ⟨s₂, ht⟩ := ih hes
          exact ⟨s₂, trace_cons_ok he ht⟩

/-- **A phase of `n` like steps.**  If step `i` of a phase takes a state that the first
`i` steps can leave to one that the first `i + 1` can leave, the whole phase runs. -/
theorem trace_range {R : Nat → State → Prop} {event : Nat → Event} {out : Nat → Out} {n : Nat}
    (next : ∀ i s, i < n → R i s → ∃ s', step s (event i) = .ok (s', out i) ∧ R (i + 1) s')
    {s : State} (h : R 0 s) :
    ∃ s', trace step s ((List.range n).map event) = .ok (s', (List.range n).map out) ∧ R n s' := by
  induction n with
  | zero => exact ⟨s, rfl, h⟩
  | succ n ih =>
      -- the last step of the phase comes after the first `n`
      obtain ⟨s₁, ht, h₁⟩ := ih fun i s hi => next i s (by omega)
      obtain ⟨s', he, h'⟩ := next n s₁ (by omega) h₁
      refine ⟨s', ?_, h'⟩
      rw [List.range_succ, List.map_append, List.map_append]
      exact trace_append_ok ht (trace_cons_ok he rfl)

/-- Rounds that each end where a round can start again can be played in any number. -/
theorem trace_flatMap {Round : Type} {I : State → Prop} {events : Round → List Event}
    {outs : Round → List Out} {rounds : List Round}
    (round : ∀ r ∈ rounds, ∀ s, I s → ∃ s', trace step s (events r) = .ok (s', outs r) ∧ I s')
    {s : State} (h : I s) :
    ∃ s', trace step s (rounds.flatMap events) = .ok (s', rounds.flatMap outs) ∧ I s' := by
  induction rounds generalizing s with
  | nil => exact ⟨s, rfl, h⟩
  | cons r rounds ih =>
      obtain ⟨s₁, ht, h₁⟩ := round r List.mem_cons_self s h
      obtain ⟨s', hts, h'⟩ := ih (fun r' hr' => round r' (List.mem_cons_of_mem _ hr')) h₁
      exact ⟨s', trace_append_ok ht hts, h'⟩

/-- The abstract run: a total machine with outputs. -/
def traceTotal {Abs : Type} (spec : Abs → Event → Abs × Out) (a : Abs) :
    List Event → Abs × List Out
  | [] => (a, [])
  | e :: es =>
      let (a', o) := spec a e
      let (a'', os) := traceTotal spec a' es
      (a'', o :: os)

/-- **Forward simulation.**  If related states take related steps with equal
outputs, then every run of the machine has the abstract run's outputs and ends in
a related state; in particular it does not fault. -/
theorem trace_simulates {Abs : Type} (spec : Abs → Event → Abs × Out) (R : State → Abs → Prop)
    (sim : ∀ s a e, R s a → ∃ s', step s e = .ok (s', (spec a e).2) ∧ R s' (spec a e).1)
    {s : State} {a : Abs} (h : R s a) (es : List Event) :
    ∃ s', trace step s es = .ok (s', (traceTotal spec a es).2) ∧
      R s' (traceTotal spec a es).1 := by
  induction es generalizing s a with
  | nil => exact ⟨s, rfl, h⟩
  | cons e es ih =>
      obtain ⟨s₁, he, h₁⟩ := sim s a e h
      obtain ⟨s', hes, h'⟩ := ih h₁
      exact ⟨s', trace_cons_ok he hes, h'⟩

/-- Every step of an abstract run meets the condition `C`, on the state before the step and
on its event. -/
def EachTotal {Abs : Type} (next : Abs → Event → Abs) (C : Abs → Event → Prop) (a : Abs) :
    List Event → Prop
  | [] => True
  | e :: es => C a e ∧ EachTotal next C (next a e) es

instance decidableEachTotal {Abs : Type} {next : Abs → Event → Abs} {C : Abs → Event → Prop}
    [∀ a e, Decidable (C a e)] : (a : Abs) → (es : List Event) → Decidable (EachTotal next C a es)
  | _, [] => isTrue trivial
  | a, e :: es => @instDecidableAnd _ _ _ (decidableEachTotal (next a e) es)

/-- What is asked of every event is met at every step. -/
theorem eachTotal_of_forall {Abs : Type} {next : Abs → Event → Abs} {C : Abs → Event → Prop}
    {a : Abs} {es : List Event} (h : ∀ a, ∀ e ∈ es, C a e) : EachTotal next C a es := by
  induction es generalizing a with
  | nil => trivial
  | cons e es ih =>
      exact ⟨h a e List.mem_cons_self, ih fun a e' he' => h a e' (List.mem_cons_of_mem _ he')⟩

/-- Abstract machines that a function takes to each other have the same outputs. -/
theorem traceTotal_map {Abs Abs' : Type} {spec : Abs → Event → Abs × Out}
    {spec' : Abs' → Event → Abs' × Out} (f : Abs → Abs')
    (hf : ∀ a e, spec' (f a) e = (f (spec a e).1, (spec a e).2)) (a : Abs) (es : List Event) :
    (traceTotal spec' (f a) es).2 = (traceTotal spec a es).2 := by
  induction es generalizing a with
  | nil => rfl
  | cons e es ih => simp only [traceTotal, hf, ih]

/-- Forward simulation under conditions: `C` is asked of the abstract steps, and `D` of the
steps of the machine. -/
theorem trace_simulates_of_each {Abs : Type} {spec : Abs → Event → Abs × Out}
    {R : State → Abs → Prop} {C : Abs → Event → Prop} {D : State → Event → Prop}
    (sim : ∀ s a e, R s a → D s e → C a e →
      ∃ s', step s e = .ok (s', (spec a e).2) ∧ R s' (spec a e).1)
    {s : State} {a : Abs} (h : R s a) {es : List Event}
    (hD : EachStep (fun s e => (step s e).map Prod.fst) D s es)
    (hC : EachTotal (fun a e => (spec a e).1) C a es) :
    ∃ s', trace step s es = .ok (s', (traceTotal spec a es).2) ∧
      R s' (traceTotal spec a es).1 := by
  induction es generalizing s a with
  | nil => exact ⟨s, rfl, h⟩
  | cons e es ih =>
      obtain ⟨s₁, he, h₁⟩ := sim s a e h hD.1 hC.1
      obtain ⟨s', hes, h'⟩ := ih h₁ (hD.2 s₁ (congrArg (Except.map Prod.fst) he)) hC.2
      exact ⟨s', trace_cons_ok he hes, h'⟩

/-- **Exactly when a run has the abstract outputs.**  If a step that meets `C` is simulated,
and one that does not has another output or none, a run has the outputs of the abstract
run exactly when each of its steps meets `C`. -/
theorem trace_eq_iff_eachTotal {Abs : Type} {spec : Abs → Event → Abs × Out}
    {R : State → Abs → Prop} {C : Abs → Event → Prop} {D : State → Event → Prop}
    (sim : ∀ s a e, R s a → D s e → C a e →
      ∃ s', step s e = .ok (s', (spec a e).2) ∧ R s' (spec a e).1)
    (breaks : ∀ s a e s', R s a → D s e → ¬ C a e → step s e ≠ .ok (s', (spec a e).2))
    {s : State} {a : Abs} (h : R s a) {es : List Event}
    (hD : EachStep (fun s e => (step s e).map Prod.fst) D s es) :
    (∃ s', trace step s es = .ok (s', (traceTotal spec a es).2)) ↔
      EachTotal (fun a e => (spec a e).1) C a es := by
  constructor
  · induction es generalizing s a with
    | nil => exact fun _ => trivial
    | cons e es ih =>
        rintro ⟨s', ht⟩
        obtain ⟨s₁, o, os, he, hes, hout⟩ := trace_cons_eq_ok ht
        obtain ⟨ho, hos⟩ := List.cons.inj hout
        have hC : C a e := Classical.byContradiction fun hn =>
          breaks s a e s₁ h hD.1 hn (by rw [he, ← ho])
        obtain ⟨s₂, he₂, h₂⟩ := sim s a e h hD.1 hC
        rw [he] at he₂
        cases he₂
        exact ⟨hC, ih h₂ (hD.2 s₁ (congrArg (Except.map Prod.fst) he)) ⟨s', by rw [hes, ← hos]⟩⟩
  · intro hC
    obtain ⟨s', ht, -⟩ := trace_simulates_of_each sim h hD hC
    exact ⟨s', ht⟩

/-- The abstract machine of a family: an event belongs to one member, and moves that
member alone. -/
def familySpec {ι Cmd : Type} [DecidableEq ι] {Abs : ι → Type}
    (spec : (i : ι) → Abs i → Cmd → Abs i × Out) (a : (i : ι) → Abs i) (e : ι × Cmd) :
    ((i : ι) → Abs i) × Out :=
  (Function.update a e.1 (spec e.1 (a e.1) e.2).1, (spec e.1 (a e.1) e.2).2)

/-- **Simulation of a family.**  If an event of a member simulates that member's abstract
machine and keeps what the other members are related to, then every run has the outputs
of the family of independent abstract machines. -/
theorem trace_simulates_family {ι Cmd : Type} [DecidableEq ι] {Abs : ι → Type}
    {step : State → ι × Cmd → Except Fault (State × Out)}
    (spec : (i : ι) → Abs i → Cmd → Abs i × Out) (R : (i : ι) → State → Abs i → Prop)
    (sim : ∀ i s a c, R i s a → ∃ s', step s (i, c) = .ok (s', (spec i a c).2) ∧
      R i s' (spec i a c).1 ∧ ∀ j, j ≠ i → ∀ b, R j s b → R j s' b)
    {s : State} {a : (i : ι) → Abs i} (h : ∀ i, R i s (a i)) (es : List (ι × Cmd)) :
    ∃ s', trace step s es = .ok (s', (traceTotal (familySpec spec) a es).2) ∧
      ∀ i, R i s' ((traceTotal (familySpec spec) a es).1 i) := by
  refine trace_simulates (familySpec spec) (fun s a => ∀ i, R i s (a i)) ?_ h es
  rintro s a ⟨i, c⟩ h
  obtain ⟨s', he, hi, hother⟩ := sim i s (a i) c (h i)
  refine ⟨s', he, fun j => ?_⟩
  show R j s' (Function.update a i (spec i (a i) c).1 j)
  by_cases hj : j = i
  · subst hj
    rwa [Function.update_self]
  · rw [Function.update_of_ne hj]
    exact hother j hj _ (h j)

/-- **Events that change nothing can be put anywhere.**  If a quiet event leaves every
state as it is, a run with quiet events in it ends where the run without them ends,
and its other events have the same outputs. -/
theorem trace_of_filter {quiet : Event → Bool}
    (hq : ∀ s e, quiet e = true → ∃ o, step s e = .ok (s, o)) {s s' : State} {es : List Event}
    {os : List Out} (h : trace step s (es.filter (!quiet ·)) = .ok (s', os)) :
    ∃ os', trace step s es = .ok (s', os') ∧
      ((es.zip os').filter (!quiet ·.1)).map Prod.snd = os := by
  induction es generalizing s os with
  | nil =>
      cases h
      exact ⟨[], rfl, rfl⟩
  | cons e es ih =>
      by_cases he : quiet e = true
      · obtain ⟨o, ho⟩ := hq s e he
        rw [List.filter_cons_of_neg (by simp [he])] at h
        obtain ⟨os', ht, hz⟩ := ih h
        refine ⟨o :: os', trace_cons_ok ho ht, ?_⟩
        rw [List.zip_cons_cons, List.filter_cons_of_neg (by simp [he])]
        exact hz
      · rw [List.filter_cons_of_pos (by simp [he])] at h
        obtain ⟨s₁, o, os₁, hs, hes, rfl⟩ := trace_cons_eq_ok h
        obtain ⟨os', ht, hz⟩ := ih hes
        refine ⟨o :: os', trace_cons_ok hs ht, ?_⟩
        rw [List.zip_cons_cons, List.filter_cons_of_pos (by simp [he]), List.map_cons, hz]

/-- Hidden events go unnoticed: at every point of the run, the run without its hidden events
is in the same state, and its outputs are those of the other events. -/
def Unnoticed (step : State → Event → Except Fault (State × Out)) (hidden : Event → Bool)
    (s : State) (es : List Event) : Prop :=
  ∀ n, ∃ s' os, trace step s (es.take n) = .ok (s', os) ∧
    trace step s ((es.take n).filter (!hidden ·)) =
      .ok (s', (((es.take n).zip os).filter (!hidden ·.1)).map Prod.snd)

/-- The first event is hidden: it has to leave the state as it is. -/
theorem unnoticed_cons_hidden {hidden : Event → Bool} {s s₁ : State} {e : Event}
    {es : List Event} {o : Out} (he : step s e = .ok (s₁, o)) (hh : hidden e = true) :
    Unnoticed step hidden s (e :: es) ↔ s₁ = s ∧ Unnoticed step hidden s₁ es := by
  have hfilter : ∀ n, ((e :: es).take (n + 1)).filter (!hidden ·) =
      (es.take n).filter (!hidden ·) := fun n => List.filter_cons_of_neg (by simp [hh])
  have hzip : ∀ n (os : List Out), ((((e :: es).take (n + 1)).zip (o :: os)).filter
      (!hidden ·.1)).map Prod.snd = (((es.take n).zip os).filter (!hidden ·.1)).map Prod.snd :=
    fun n os => congrArg (List.map Prod.snd) (List.filter_cons_of_neg (by simp [hh]))
  constructor
  · intro h
    have hsame : s₁ = s := by
      obtain ⟨s', os, ht, hf⟩ := h 1
      rw [List.take_succ_cons, List.take_zero, trace_cons_ok he rfl] at ht
      rw [hfilter, List.take_zero] at hf
      cases ht
      exact (Prod.mk.inj (Except.ok.inj hf)).1.symm
    subst hsame
    refine ⟨rfl, fun n => ?_⟩
    obtain ⟨s', os, ht, hf⟩ := h (n + 1)
    obtain ⟨s₂, o₂, os', he', ht', rfl⟩ := trace_cons_eq_ok (List.take_succ_cons ▸ ht)
    rw [he] at he'
    cases he'
    rw [hfilter, hzip] at hf
    exact ⟨s', os', ht', hf⟩
  · rintro ⟨rfl, h⟩ n
    cases n with
    | zero => exact ⟨s₁, [], rfl, rfl⟩
    | succ n =>
        obtain ⟨s', os, ht, hf⟩ := h n
        refine ⟨s', o :: os, trace_cons_ok he ht, ?_⟩
        rw [hfilter, hzip]
        exact hf

/-- The first event is not hidden: it happens in both runs. -/
theorem unnoticed_cons_shown {hidden : Event → Bool} {s s₁ : State} {e : Event}
    {es : List Event} {o : Out} (he : step s e = .ok (s₁, o)) (hh : ¬ hidden e = true) :
    Unnoticed step hidden s (e :: es) ↔ Unnoticed step hidden s₁ es := by
  have hfilter : ∀ n, ((e :: es).take (n + 1)).filter (!hidden ·) =
      e :: (es.take n).filter (!hidden ·) := fun n => List.filter_cons_of_pos (by simp [hh])
  have hzip : ∀ n (os : List Out), ((((e :: es).take (n + 1)).zip (o :: os)).filter
      (!hidden ·.1)).map Prod.snd =
        o :: (((es.take n).zip os).filter (!hidden ·.1)).map Prod.snd :=
    fun n os => congrArg (List.map Prod.snd) (List.filter_cons_of_pos (by simp [hh]))
  constructor
  · intro h n
    obtain ⟨s', os, ht, hf⟩ := h (n + 1)
    obtain ⟨s₂, o₂, os', he', ht', rfl⟩ := trace_cons_eq_ok (List.take_succ_cons ▸ ht)
    rw [he] at he'
    cases he'
    rw [hfilter, hzip] at hf
    obtain ⟨s₃, o₃, os₃, he₃, hf', heq⟩ := trace_cons_eq_ok hf
    rw [he] at he₃
    cases he₃
    cases heq
    exact ⟨s', os', ht', hf'⟩
  · intro h n
    cases n with
    | zero => exact ⟨s, [], rfl, rfl⟩
    | succ n =>
        obtain ⟨s', os, ht, hf⟩ := h n
        refine ⟨s', o :: os, trace_cons_ok he ht, ?_⟩
        rw [hfilter, hzip]
        exact trace_cons_ok he hf

theorem unnoticed_cons {hidden : Event → Bool} {s s₁ : State} {e : Event} {es : List Event}
    {o : Out} (he : step s e = .ok (s₁, o)) :
    Unnoticed step hidden s (e :: es) ↔
      (hidden e = true → s₁ = s) ∧ Unnoticed step hidden s₁ es := by
  by_cases hh : hidden e = true
  · rw [unnoticed_cons_hidden he hh]
    exact and_congr_left fun _ => ⟨fun hs _ => hs, fun hs => hs hh⟩
  · rw [unnoticed_cons_shown he hh]
    exact ⟨fun h => ⟨fun hc => absurd hc hh, h⟩, fun h => h.2⟩

/-- **Exactly when hidden events go unnoticed.**  If a hidden event leaves a state as it is
exactly where it meets `C`, the hidden events of a run go unnoticed exactly when each of
them meets `C`. -/
theorem unnoticed_iff_eachStep {next : State → Event → Except Fault State}
    (hnext : ∀ s e, next s e = (step s e).map Prod.fst) {hidden : Event → Bool}
    {C : State → Event → Prop}
    (hC : ∀ s e s' o, hidden e = true → step s e = .ok (s', o) → (s' = s ↔ C s e)) {s s' : State}
    {es : List Event} (hrun : run next s es = .ok s') :
    Unnoticed step hidden s es ↔ EachStep next (fun s e => hidden e = true → C s e) s es := by
  induction es generalizing s with
  | nil => exact ⟨fun _ => trivial, fun _ n => ⟨s, [], by rw [List.take_nil]; rfl,
      by rw [List.take_nil]; rfl⟩⟩
  | cons e es ih =>
      obtain ⟨s₁, hstep, hrest⟩ := run_cons_eq_ok hrun
      obtain ⟨⟨s₂, o⟩, he, heq⟩ : ∃ r, step s e = .ok r ∧ r.1 = s₁ := by
        rw [hnext] at hstep
        cases he : step s e with
        | error f =>
            rw [he] at hstep
            cases hstep
        | ok r =>
            rw [he] at hstep
            exact ⟨r, rfl, Except.ok.inj hstep⟩
      subst heq
      rw [unnoticed_cons he, ih hrest]
      constructor
      · rintro ⟨hsame, h⟩
        exact EachStep.cons (fun hh => (hC s e s₂ o hh he).mp (hsame hh)) hstep h
      · rintro ⟨hcond, h⟩
        exact ⟨fun hh => (hC s e s₂ o hh he).mpr (hcond hh), h s₂ hstep⟩

end Outputs

end Runs
