/-! # Flat memory, seen through a translation

A store of values at addresses `B` is often not what its user sees: the user's
addresses `A` are translated, and those without a translation have no value.  `view` is
the partial map the user sees.  If no two addresses translate to one, a store at a
translated address changes the view there and nowhere else (`view_store`), and a block
of stores is one `overwrite`.
-/
namespace FlatMemory

/-! ## Partial maps on numbers -/

section Overwrite
variable {α : Type}

/-- The map with `values` at `a`, `a + 1`, … -/
def overwrite (cells : Nat → Option α) (a : Nat) (values : List α) : Nat → Option α :=
  fun x => if a ≤ x ∧ x < a + values.length then values[x - a]? else cells x

variable {cells : Nat → Option α} {a : Nat}

theorem overwrite_nil : overwrite cells a [] = cells := by
  funext x
  exact if_neg (by rw [List.length_nil]; omega)

/-- Overwriting one value after the other is overwriting them all. -/
theorem overwrite_cons (v : α) (values : List α) :
    overwrite cells a (v :: values) = overwrite (overwrite cells a [v]) (a + 1) values := by
  funext x
  simp only [overwrite, List.length_cons, List.length_nil]
  by_cases h₁ : a + 1 ≤ x ∧ x < a + 1 + values.length
  · rw [if_pos h₁, if_pos (by omega), show x - a = x - (a + 1) + 1 by omega,
      List.getElem?_cons_succ]
  · rw [if_neg h₁]
    by_cases h₀ : x = a
    · subst h₀
      rw [if_pos (by omega), if_pos (by omega), Nat.sub_self, List.getElem?_cons_zero,
        List.getElem?_cons_zero]
    · rw [if_neg (by omega), if_neg (by omega)]

/-- Overwriting with one list behind the other. -/
theorem overwrite_append (vs ws : List α) : overwrite cells a (vs ++ ws) =
    overwrite (overwrite cells a vs) (a + vs.length) ws := by
  induction vs generalizing cells a with
  | nil => rw [List.nil_append, overwrite_nil, List.length_nil, Nat.add_zero]
  | cons v vs ih =>
      rw [List.cons_append, overwrite_cons, ih, overwrite_cons v vs, List.length_cons,
        Nat.add_assoc, Nat.add_comm 1]

/-- The same for two lists that are cut off at one address. -/
theorem overwrite_take_append (vs ws : List α) (room : Nat) :
    overwrite (overwrite cells a (vs.take room)) (a + vs.length) (ws.take (room - vs.length)) =
      overwrite cells a ((vs ++ ws).take room) := by
  rw [List.take_append, overwrite_append]
  rcases Nat.le_total vs.length room with hle | hle
  · rw [List.take_of_length_le hle]
  · rw [Nat.sub_eq_zero_of_le hle, List.take_zero, overwrite_nil, overwrite_nil]

theorem overwrite_of_lt {x : Nat} (values : List α) (h : x < a) :
    overwrite cells a values x = cells x := if_neg (by omega)

theorem overwrite_of_le {x : Nat} (values : List α) (h : a + values.length ≤ x) :
    overwrite cells a values x = cells x := if_neg (by omega)

theorem overwrite_of_mem {i : Nat} (values : List α) (h : i < values.length) :
    overwrite cells a values (a + i) = values[i]? := by
  rw [overwrite, if_pos (by omega), Nat.add_sub_cancel_left]

/-- The values at `a`, `a + 1`, …, `a + n - 1`. -/
def slice (cells : Nat → Option α) (a n : Nat) : List (Option α) :=
  (List.range n).map fun i => cells (a + i)

@[simp] theorem length_slice (cells : Nat → Option α) (a n : Nat) :
    (slice cells a n).length = n := by
  rw [slice, List.length_map, List.length_range]

/-- The values there, if all of them have one. -/
def values? (cells : Nat → Option α) (a n : Nat) : Option (List α) := (slice cells a n).mapM id

theorem values?_eq {values : List α} {n : Nat} (h : slice cells a n = values.map some) :
    values? cells a n = some values := by
  rw [values?, h, List.mapM_map]
  exact List.mapM_pure.trans (congrArg some (List.map_id values))

/-- What has been overwritten reads back, also in parts. -/
theorem slice_overwrite_part (values : List α) {i n : Nat} (h : i + n ≤ values.length) :
    slice (overwrite cells a values) (a + i) n = ((values.drop i).take n).map some := by
  refine List.ext_getElem? fun k => ?_
  rw [slice, List.getElem?_map, List.getElem?_map]
  by_cases hk : k < n
  · rw [List.getElem?_range hk, Option.map_some, Nat.add_assoc,
      overwrite_of_mem values (show i + k < values.length by omega), List.getElem?_take_of_lt hk,
      List.getElem?_drop, List.getElem?_eq_getElem (by omega), Option.map_some]
  · rw [List.getElem?_eq_none (by rw [List.length_range]; omega),
      List.getElem?_eq_none (by rw [List.length_take]; omega)]
    rfl

theorem slice_congr {cells' : Nat → Option α} {n : Nat}
    (h : ∀ x, a ≤ x → x < a + n → cells' x = cells x) : slice cells' a n = slice cells a n := by
  refine List.map_congr_left fun i hi => ?_
  have hlt := List.mem_range.mp hi
  exact h (a + i) (Nat.le_add_right a i) (by omega)

theorem slice_eq_iff {cells' : Nat → Option α} {n : Nat} :
    slice cells' a n = slice cells a n ↔ ∀ x, a ≤ x → x < a + n → cells' x = cells x := by
  refine ⟨fun h x hlow hhigh => ?_, slice_congr⟩
  obtain ⟨i, rfl⟩ := Nat.exists_eq_add_of_le hlow
  exact List.map_inj_left.mp h i (List.mem_range.mpr (by omega))

/-- What is elsewhere is not touched. -/
theorem slice_overwrite_of_disjoint {b n : Nat} (values : List α)
    (h : n = 0 ∨ values.length = 0 ∨ b + n ≤ a ∨ a + values.length ≤ b) :
    slice (overwrite cells a values) b n = slice cells b n := by
  refine slice_congr fun x hlow hhigh => ?_
  rcases Nat.lt_or_ge x a with hx | hx
  · exact overwrite_of_lt values hx
  · exact overwrite_of_le values (by omega)

/-- A list with the values of the cells has a slice of them as a part. -/
theorem take_drop_of_slice {values list : List α} {k n : Nat}
    (hlist : ∀ j < list.length, list[j]? = cells (a + j)) (hfits : k + n ≤ list.length)
    (hslice : slice cells (a + k) n = values.map some) : (list.drop k).take n = values := by
  have hsame : ((list.drop k).take n).map some = values.map some := by
    rw [← hslice]
    refine List.ext_getElem? fun j => ?_
    rw [slice, List.getElem?_map, List.getElem?_map]
    by_cases hj : j < n
    · rw [List.getElem?_range hj, Option.map_some, Nat.add_assoc, List.getElem?_take_of_lt hj,
        List.getElem?_drop, ← hlist (k + j) (by omega), List.getElem?_eq_getElem (by omega),
        Option.map_some]
    · rw [List.getElem?_eq_none (by rw [List.length_take]; omega),
        List.getElem?_eq_none (by rw [List.length_range]; omega)]
      rfl
  exact (List.map_inj_right fun _ _ => Option.some.inj).mp hsame

/-- A slice of two parts. -/
theorem slice_add (cells : Nat → Option α) (a m n : Nat) :
    slice cells a (m + n) = slice cells a m ++ slice cells (a + m) n := by
  rw [slice, List.range_add, List.map_append, List.map_map]
  refine congrArg (slice cells a m ++ ·) (List.map_congr_left fun i _ => ?_)
  rw [Function.comp_apply, Nat.add_assoc]

end Overwrite

/-! ## Views -/

section View
variable {B α : Type} [DecidableEq B]

/-- What is seen of `store` through a translation. -/
def view (translate : Nat → Option B) (store : B → α) (a : Nat) : Option α :=
  (translate a).map store

/-- **A store at a translated address is a store in the view.** -/
theorem view_store {translate : Nat → Option B}
    (inj : ∀ a a' b, translate a = some b → translate a' = some b → a = a') {a : Nat} {b : B}
    (h : translate a = some b) (store : B → α) (v : α) :
    view translate (fun x => if x = b then v else store x) =
      overwrite (view translate store) a [v] := by
  funext x
  simp only [view, overwrite, List.length_singleton]
  by_cases hx : x = a
  · subst hx
    rw [h, if_pos (by omega), Nat.sub_self]
    simp
  · rw [if_neg (by omega)]
    cases ht : translate x with
    | none => rfl
    | some b' =>
        have hne : b' ≠ b := fun he => hx (inj x a b (he ▸ ht) h)
        simp [hne]

end View

end FlatMemory
