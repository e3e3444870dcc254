import Mathlib.Data.List.Rotate

/-! # Circular buffers

A list of cells is read as a circle: position `k` after `front` is cell
`(front + k) % n`.  `window` is what stands in the first `len` positions, and
`Holds` says that the cells from `front` up to `rear` are the given items, oldest
first.  The two pointers alone do not tell an empty buffer from a full one
(`Holds.front_eq_rear_iff`), so the number of items is part of the relation and
not a function of the pointers.

The rules are the two ways a buffer is used: `Holds.push` stores behind the last
item, `Holds.pop` takes the first one.  `Occupied` names the cells that hold an
item.
-/
namespace Circular

variable {α : Type}

/-- The cell `k` positions after `front` on a circle of `n` cells. -/
def cell (n front k : Nat) : Nat := (front + k) % n

/-- What stands in the `len` positions from `front` on. -/
def window (cells : List α) (front len : Nat) : List α := (cells.rotate front).take len

/-- The cells from `front` up to `rear` are `items`, oldest first. -/
structure Holds (cells : List α) (front rear : Nat) (items : List α) : Prop where
  front_lt : front < cells.length
  fits : items.length ≤ cells.length
  rear_eq : rear = cell cells.length front items.length
  item : ∀ k (h : k < items.length), cells[cell cells.length front k]? = some items[k]

/-- Cell `c` is one of the `len` cells from `front` on. -/
def Occupied (n front len c : Nat) : Prop := ∃ k, k < len ∧ c = cell n front k

/-! ## Positions -/

/-- Within one turn, a position crosses the end of the circle at most once. -/
theorem cell_eq {n front k : Nat} (hf : front < n) (hk : k ≤ n) :
    cell n front k = if front + k < n then front + k else front + k - n := by
  unfold cell
  split
  · exact Nat.mod_eq_of_lt ‹_›
  · rw [Nat.mod_eq_sub_mod (by omega), Nat.mod_eq_of_lt (by omega)]

theorem cell_lt {n : Nat} (hn : 0 < n) (front k : Nat) : cell n front k < n :=
  Nat.mod_lt _ hn

theorem cell_zero {n front : Nat} (hf : front < n) : cell n front 0 = front :=
  Nat.mod_eq_of_lt hf

/-- One more position is one step on the circle. -/
theorem cell_succ (n front k : Nat) : cell n front (k + 1) = (cell n front k + 1) % n := by
  simp only [cell, ← Nat.add_assoc, Nat.mod_add_mod]

/-- Counting from the next cell shifts every position by one. -/
theorem cell_next (n front k : Nat) : cell n ((front + 1) % n) k = cell n front (k + 1) := by
  rw [cell, cell, Nat.mod_add_mod, Nat.add_assoc, Nat.add_comm 1 k]

/-- Distinct positions of one turn are distinct cells. -/
theorem cell_injective {n front j k : Nat} (hf : front < n) (hj : j < n) (hk : k < n)
    (h : cell n front j = cell n front k) : j = k := by
  rw [cell_eq hf hj.le, cell_eq hf hk.le] at h
  split at h <;> split at h <;> omega

/-! ## Items -/

namespace Holds
variable {cells : List α} {front rear : Nat} {items : List α}

theorem length_pos (h : Holds cells front rear items) : 0 < cells.length :=
  Nat.lt_of_le_of_lt (Nat.zero_le _) h.front_lt

theorem rear_lt (h : Holds cells front rear items) : rear < cells.length :=
  h.rear_eq ▸ cell_lt h.length_pos _ _

/-- The pointers meet exactly when the buffer is empty or full. -/
theorem front_eq_rear_iff (h : Holds cells front rear items) :
    front = rear ↔ items = [] ∨ items.length = cells.length := by
  have hf := h.front_lt
  have hl := h.fits
  rw [h.rear_eq, cell_eq hf hl, ← List.length_eq_zero_iff]
  split <;> omega

/-- How many items there are, read off the pointers of a buffer that is not full. -/
theorem length_of_not_full (h : Holds cells front rear items)
    (hn : items.length < cells.length) :
    items.length = (rear + cells.length - front) % cells.length := by
  have hf := h.front_lt
  rw [h.rear_eq, cell_eq hf hn.le]
  split
  · rw [show front + items.length + cells.length - front = items.length + cells.length by omega,
      Nat.add_mod_right, Nat.mod_eq_of_lt hn]
  · rw [show front + items.length - cells.length + cells.length - front = items.length by omega,
      Nat.mod_eq_of_lt hn]

/-- The items are the window of their own length. -/
theorem window_eq (h : Holds cells front rear items) :
    window cells front items.length = items := by
  apply List.ext_getElem?
  intro k
  unfold window
  rw [List.getElem?_take]
  split
  · rename_i hk
    rw [List.getElem?_rotate (Nat.lt_of_lt_of_le hk h.fits), Nat.add_comm,
      List.getElem?_eq_getElem hk]
    exact h.item k hk
  · exact (List.getElem?_eq_none (by omega)).symm

/-- Storing in the cell behind the last item changes no item. -/
theorem store (h : Holds cells front rear items) (hn : items.length < cells.length) (x : α) :
    Holds (cells.set rear x) front rear items where
  front_lt := by
    rw [List.length_set]
    exact h.front_lt
  fits := by
    rw [List.length_set]
    exact h.fits
  rear_eq := by
    rw [List.length_set]
    exact h.rear_eq
  item := by
    -- the cell of an item is not the one behind the last item
    intro k hk
    have hne : rear ≠ cell cells.length front k := by
      intro he
      have := cell_injective h.front_lt hn (by omega) (h.rear_eq.symm.trans he)
      omega
    rw [List.length_set, List.getElem?_set_ne hne, h.item k hk]

/-- What stands in the cell behind the last item is an item once `rear` has passed
it. -/
theorem extend {x : α} (h : Holds cells front rear items) (hn : items.length < cells.length)
    (hx : cells[rear]? = some x) :
    Holds cells front ((rear + 1) % cells.length) (items ++ [x]) where
  front_lt := h.front_lt
  fits := by
    rw [List.length_append]
    exact hn
  rear_eq := by
    rw [List.length_append, h.rear_eq]
    exact (cell_succ _ _ _).symm
  item := by
    intro k hk
    rw [List.length_append, List.length_singleton] at hk
    rcases Nat.lt_or_eq_of_le (Nat.le_of_lt_succ hk) with hlt | rfl
    · rw [h.item k hlt, List.getElem_append_left hlt]
    · rw [← h.rear_eq, hx]
      simp

/-- **Storing behind the last item** and passing it appends to the items. -/
theorem push (h : Holds cells front rear items) (hn : items.length < cells.length) (x : α) :
    Holds (cells.set rear x) front ((rear + 1) % cells.length) (items ++ [x]) := by
  have hs := (h.store hn x).extend (by rwa [List.length_set]) (List.getElem?_set_self h.rear_lt)
  rwa [List.length_set] at hs

/-- **Taking the first item** leaves the others, from the next cell on. -/
theorem pop {x : α} (h : Holds cells front rear (x :: items)) :
    cells[front]? = some x ∧ Holds cells ((front + 1) % cells.length) rear items := by
  constructor
  · have h0 := h.item 0 (Nat.succ_pos _)
    rwa [cell_zero h.front_lt] at h0
  · refine ⟨Nat.mod_lt _ h.length_pos, Nat.le_of_succ_le h.fits, ?_, fun k hk => ?_⟩
    · rw [cell_next]
      exact h.rear_eq
    · rw [cell_next]
      exact h.item (k + 1) (Nat.succ_lt_succ hk)

/-- The cell behind the last item of a buffer that is not full holds no item. -/
theorem rear_not_occupied (h : Holds cells front rear items)
    (hn : items.length < cells.length) :
    ¬ Occupied cells.length front items.length rear := by
  rintro ⟨k, hk, he⟩
  have := cell_injective h.front_lt hn (by omega) (h.rear_eq.symm.trans he)
  omega

end Holds

/-- An empty buffer holds nothing, wherever its pointers meet. -/
theorem holds_nil {cells : List α} {front : Nat} (hf : front < cells.length) :
    Holds cells front front [] where
  front_lt := hf
  fits := Nat.zero_le _
  rear_eq := (cell_zero hf).symm
  item := fun _ hk => absurd hk (Nat.not_lt_zero _)

theorem length_window_le (cells : List α) (front len : Nat) :
    (window cells front len).length ≤ cells.length := by
  rw [window, List.length_take, List.length_rotate]
  exact Nat.min_le_right _ _

/-! ## Occupied cells -/

/-- The first cell of a nonempty range is occupied. -/
theorem occupied_front {n front len : Nat} (hf : front < n) (hl : 0 < len) :
    Occupied n front len front := ⟨0, hl, (cell_zero hf).symm⟩

/-- A range one longer occupies its new last cell too. -/
theorem occupied_succ (n front len c : Nat) :
    Occupied n front (len + 1) c ↔ Occupied n front len c ∨ c = cell n front len := by
  constructor
  · rintro ⟨k, hk, rfl⟩
    rcases Nat.lt_or_eq_of_le (Nat.le_of_lt_succ hk) with hlt | rfl
    · exact Or.inl ⟨k, hlt, rfl⟩
    · exact Or.inr rfl
  · rintro (⟨k, hk, rfl⟩ | rfl)
    · exact ⟨k, Nat.lt_succ_of_lt hk, rfl⟩
    · exact ⟨len, Nat.lt_succ_self _, rfl⟩

/-- A range without its first cell occupies the others. -/
theorem occupied_next {n front len : Nat} (hf : front < n) (hl : len < n) (c : Nat) :
    Occupied n ((front + 1) % n) len c ↔ Occupied n front (len + 1) c ∧ c ≠ front := by
  constructor
  · rintro ⟨k, hk, rfl⟩
    rw [cell_next]
    refine ⟨⟨k + 1, Nat.succ_lt_succ hk, rfl⟩, fun he => ?_⟩
    have := cell_injective hf (by omega) (by omega) (he.trans (cell_zero hf).symm)
    omega
  · rintro ⟨⟨k, hk, rfl⟩, hne⟩
    cases k with
    | zero => exact absurd (cell_zero hf) hne
    | succ k => exact ⟨k, Nat.lt_of_succ_lt_succ hk, (cell_next n front k).symm⟩

end Circular
