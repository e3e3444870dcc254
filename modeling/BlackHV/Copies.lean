import BlackHV.FlatMemory

/-! # Copies

A loader makes one copy after the other, and may read in between what it has put there.
`overwriteAll` is what a list of copies leaves; `PutsAt` says of one run of a program that it
succeeds exactly where a condition holds, and has then made certain copies.  The rules put
programs together; in `PutsAt.andThen` the second one starts with what the copies of the first
have left.
-/
namespace FlatMemory

section Overwrite
variable {α : Type} {cells : Nat → Option α} {a : Nat}

/-- One copy after the other: where each goes, and its values. -/
def overwriteAll (cells : Nat → Option α) (copies : List (Nat × List α)) : Nat → Option α :=
  copies.foldl (fun cells c => overwrite cells c.1 c.2) cells

@[simp] theorem overwriteAll_singleton (values : List α) :
    overwriteAll cells [(a, values)] = overwrite cells a values := rfl

theorem overwriteAll_append (cs ds : List (Nat × List α)) :
    overwriteAll cells (cs ++ ds) = overwriteAll (overwriteAll cells cs) ds := List.foldl_append

/-- No copy goes to one of the `n` addresses from `b` on. -/
def Misses (copies : List (Nat × List α)) (b n : Nat) : Prop :=
  ∀ c ∈ copies, n = 0 ∨ c.2.length = 0 ∨ b + n ≤ c.1 ∨ c.1 + c.2.length ≤ b

instance (copies : List (Nat × List α)) (b n : Nat) : Decidable (Misses copies b n) :=
  inferInstanceAs (Decidable (∀ c ∈ copies, _))

theorem Misses.part {copies : List (Nat × List α)} {b n b' n' : Nat} (h : Misses copies b n)
    (hlow : b ≤ b') (hhigh : b' + n' ≤ b + n) : Misses copies b' n' := by
  intro c hc
  have hmiss := h c hc
  omega

/-- Copies to elsewhere do not touch what is there. -/
theorem slice_overwriteAll {copies : List (Nat × List α)} {b n : Nat} (h : Misses copies b n) :
    slice (overwriteAll cells copies) b n = slice cells b n := by
  induction copies generalizing cells with
  | nil => rfl
  | cons c copies ih =>
      have hrest : Misses copies b n := fun d hd => h d (List.mem_cons_of_mem c hd)
      calc slice (overwriteAll (overwrite cells c.1 c.2) copies) b n
          = slice (overwrite cells c.1 c.2) b n := ih hrest
        _ = slice cells b n := slice_overwrite_of_disjoint c.2 (h c List.mem_cons_self)

@[simp] theorem misses_nil {b n : Nat} : Misses ([] : List (Nat × List α)) b n :=
  fun _ hc => absurd hc List.not_mem_nil

@[simp] theorem misses_cons {c : Nat × List α} {copies : List (Nat × List α)} {b n : Nat} :
    Misses (c :: copies) b n ↔
      (n = 0 ∨ c.2.length = 0 ∨ b + n ≤ c.1 ∨ c.1 + c.2.length ≤ b) ∧ Misses copies b n :=
  List.forall_mem_cons

@[simp] theorem misses_append {cs ds : List (Nat × List α)} {b n : Nat} :
    Misses (cs ++ ds) b n ↔ Misses cs b n ∧ Misses ds b n := List.forall_mem_append

/-- Several copies that make one together. -/
theorem overwriteAll_flatMap {ι : Type} {f : ι → List (Nat × List α)} {g : ι → Nat × List α}
    {l : List ι} (h : ∀ i ∈ l, ∀ cells, overwriteAll cells (f i) = overwriteAll cells [g i]) :
    overwriteAll cells (l.flatMap f) = overwriteAll cells (l.map g) := by
  induction l generalizing cells with
  | nil => rfl
  | cons i l ih =>
      have hrest : ∀ j ∈ l, ∀ cells, overwriteAll cells (f j) = overwriteAll cells [g j] :=
        fun j hj => h j (List.mem_cons_of_mem i hj)
      rw [List.flatMap_cons, overwriteAll_append, h i List.mem_cons_self, ih hrest]
      rfl

/-- What copies leave somewhere depends on what was there, and on nothing else. -/
theorem slice_overwriteAll_congr {cells' : Nat → Option α} {copies : List (Nat × List α)}
    {b n : Nat} (h : slice cells' b n = slice cells b n) :
    slice (overwriteAll cells' copies) b n = slice (overwriteAll cells copies) b n := by
  induction copies generalizing cells cells' with
  | nil => exact h
  | cons c copies ih =>
      refine ih (slice_congr fun x hlow hhigh => ?_)
      show overwrite cells' c.1 c.2 x = overwrite cells c.1 c.2 x
      rw [overwrite, overwrite, slice_eq_iff.mp h x hlow hhigh]

/-- Copies that go elsewhere may be left out. -/
theorem slice_overwriteAll_filter {ι : Type} {f : ι → List (Nat × List α)} {q : ι → Bool}
    {l : List ι} {b n : Nat} (h : ∀ i ∈ l, q i = false → Misses (f i) b n) :
    slice (overwriteAll cells (l.flatMap f)) b n =
      slice (overwriteAll cells ((l.filter q).flatMap f)) b n := by
  induction l generalizing cells with
  | nil => rfl
  | cons i l ih =>
      have hrest : ∀ j ∈ l, q j = false → Misses (f j) b n :=
        fun j hj => h j (List.mem_cons_of_mem i hj)
      rw [List.flatMap_cons, overwriteAll_append, ih hrest]
      by_cases hq : q i = true
      · rw [List.filter_cons_of_pos hq, List.flatMap_cons, overwriteAll_append]
      · rw [List.filter_cons_of_neg hq]
        exact slice_overwriteAll_congr
          (slice_overwriteAll (h i List.mem_cons_self (Bool.eq_false_iff.mpr hq)))

/-- What the last copy to some addresses has left there. -/
theorem slice_overwriteAll_last {before after : List (Nat × List α)} {values : List α} {i n : Nat}
    (hafter : Misses after (a + i) n) (h : i + n ≤ values.length) :
    slice (overwriteAll cells (before ++ (a, values) :: after)) (a + i) n =
      ((values.drop i).take n).map some := by
  rw [overwriteAll_append]
  exact (slice_overwriteAll hafter).trans (slice_overwrite_part values h)

theorem slice_overwriteAll_whole {before after : List (Nat × List α)} {values : List α} {n : Nat}
    (hafter : Misses after a n) (hn : values.length = n) :
    slice (overwriteAll cells (before ++ (a, values) :: after)) a n = values.map some := by
  subst hn
  rw [← Nat.add_zero a] at hafter
  have hlast : slice (overwriteAll cells (before ++ (a, values) :: after)) (a + 0) values.length =
      _ := slice_overwriteAll_last hafter (Nat.le_of_eq (Nat.zero_add _))
  rwa [Nat.add_zero, List.drop_zero, List.take_length] at hlast

/-- Copies of which no two overlap are all there, unless a later one goes over them. -/
theorem slice_overwriteAll_of_mem {before copies after : List (Nat × List α)}
    {c : Nat × List α} (hapart : copies.Pairwise fun c d => Misses [d] c.1 c.2.length)
    (hc : c ∈ copies) (hafter : Misses after c.1 c.2.length) :
    slice (overwriteAll cells (before ++ (copies ++ after))) c.1 c.2.length = c.2.map some := by
  obtain ⟨front, back, rfl⟩ := List.append_of_mem hc
  have hback : Misses back c.1 c.2.length := fun d hd =>
    List.rel_of_pairwise_cons (List.pairwise_append.mp hapart).2.1 hd d List.mem_cons_self
  rw [List.append_assoc, List.cons_append, ← List.append_assoc before]
  exact slice_overwriteAll_whole (misses_append.mpr ⟨hback, hafter⟩) rfl

end Overwrite

/-! ## Programs that copy -/

section Puts
variable {S ε α : Type} {see : S → Nat → Option α} {s : S} {result : Except ε S} {P Q : Prop}
  {prog next : S → Except ε S} {copies copies' : List (Nat × List α)}

/-- A program that has started on a store succeeds exactly where `P` holds, and what is seen
of the store then has changed by some copies. -/
structure PutsAt (see : S → Nat → Option α) (s : S) (result : Except ε S) (P : Prop)
    (copies : List (Nat × List α)) : Prop where
  succeeds_iff : (∃ s', result = .ok s') ↔ P
  seen : ∀ s', result = .ok s' → see s' = overwriteAll (see s) copies

/-- The same on every store. -/
def Puts (see : S → Nat → Option α) (prog : S → Except ε S) (P : Prop)
    (copies : List (Nat × List α)) : Prop :=
  ∀ s, PutsAt see s (prog s) P copies

namespace PutsAt

/-- A program that makes the copies or fails. -/
theorem of_cases (hok : P → ∃ s', result = .ok s' ∧ see s' = overwriteAll (see s) copies)
    (hfail : ¬ P → ∃ e, result = .error e) : PutsAt see s result P copies where
  succeeds_iff := by
    constructor
    · rintro ⟨s', hs'⟩
      refine Classical.byContradiction fun hP => ?_
      obtain ⟨e, he⟩ := hfail hP
      rw [hs'] at he
      cases he
    · intro hP
      obtain ⟨s', hs', -⟩ := hok hP
      exact ⟨s', hs'⟩
  seen := by
    intro s' hs'
    by_cases hP : P
    · obtain ⟨s₁, hs₁, hsee⟩ := hok hP
      rw [hs'] at hs₁
      cases hs₁
      exact hsee
    · obtain ⟨e, he⟩ := hfail hP
      rw [hs'] at he
      cases he

theorem skip : PutsAt see s (.ok s : Except ε S) True [] :=
  of_cases (fun _ => ⟨s, rfl, rfl⟩) fun h => absurd trivial h

theorem fail {e : ε} (h : ¬ P) : PutsAt see s (.error e) P copies :=
  of_cases (fun hP => absurd hP h) fun _ => ⟨e, rfl⟩

theorem congr (h : PutsAt see s result P copies) (hiff : P ↔ Q) : PutsAt see s result Q copies where
  succeeds_iff := h.succeeds_iff.trans hiff
  seen := h.seen

/-- Other copies with the same outcome. -/
theorem congr_copies (h : PutsAt see s result P copies)
    (heq : overwriteAll (see s) copies = overwriteAll (see s) copies') :
    PutsAt see s result P copies' where
  succeeds_iff := h.succeeds_iff
  seen := fun s' hs => (h.seen s' hs).trans heq

/-- One program after the other, which starts with what the first has left. -/
theorem andThen (h : PutsAt see s result P copies)
    (h' : P → ∀ s', see s' = overwriteAll (see s) copies → PutsAt see s' (next s') Q copies') :
    PutsAt see s (result >>= next) (P ∧ Q) (copies ++ copies') := by
  by_cases hP : P
  · obtain ⟨s', rfl⟩ := h.succeeds_iff.mpr hP
    have hsee := h.seen s' rfl
    have hnext := h' hP s' hsee
    refine ⟨hnext.succeeds_iff.trans (and_iff_right hP).symm, fun s'' hs'' => ?_⟩
    rw [hnext.seen s'' hs'', hsee, overwriteAll_append]
  · rcases result with e | s'
    · exact fail fun hboth => hP hboth.1
    · exact absurd (h.succeeds_iff.mp ⟨s', rfl⟩) hP

/-- A program that begins with one that cannot fail. -/
theorem first (h : PutsAt see s result True copies)
    (h' : ∀ s', see s' = overwriteAll (see s) copies → PutsAt see s' (next s') Q copies') :
    PutsAt see s (result >>= next) Q (copies ++ copies') :=
  (h.andThen fun _ => h').congr (and_iff_right trivial)

/-- A program that begins with one that fails. -/
theorem andThen_fail (h : PutsAt see s result P copies) (hP : ¬ P) (hQ : ¬ Q) :
    PutsAt see s (result >>= next) Q copies' := by
  rcases result with e | s'
  · exact fail hQ
  · exact absurd (h.succeeds_iff.mp ⟨s', rfl⟩) hP

/-- A program that first looks something up, which succeeds where `C` holds. -/
theorem lookup {β : Type} {C : Prop} {x : Except ε β} {v : β} {rest : β → Except ε S}
    (hok : C → x = .ok v) (hfail : ¬ C → ∃ e, x = .error e)
    (h : C → PutsAt see s (rest v) P copies) : PutsAt see s (x >>= rest) (C ∧ P) copies := by
  by_cases hC : C
  · rw [hok hC]
    exact (h hC).congr (and_iff_right hC).symm
  · obtain ⟨e, he⟩ := hfail hC
    rw [he]
    exact fail fun hboth => hC hboth.1

end PutsAt

namespace Puts

theorem skip : Puts see (fun s => (.ok s : Except ε S)) True [] := fun _ => .skip

theorem fail {e : ε} (h : ¬ P) : Puts see (fun _ : S => (.error e : Except ε S)) P copies :=
  fun _ => .fail h

theorem congr (h : Puts see prog P copies) (hiff : P ↔ Q) : Puts see prog Q copies :=
  fun s => (h s).congr hiff

theorem congr_copies (h : Puts see prog P copies)
    (heq : ∀ cells, overwriteAll cells copies = overwriteAll cells copies') :
    Puts see prog P copies' := fun s => (h s).congr_copies (heq (see s))

theorem andThen (h : Puts see prog P copies) (h' : Puts see next Q copies') :
    Puts see (fun s => prog s >>= next) (P ∧ Q) (copies ++ copies') :=
  fun s => (h s).andThen fun _ s' _ => h' s'

theorem andThen_fail (h : Puts see prog P copies) (hP : ¬ P) (hQ : ¬ Q) :
    Puts see (fun s => prog s >>= next) Q copies' := fun s => (h s).andThen_fail hP hQ

end Puts

end Puts

end FlatMemory
