/-! # Spans of addresses

A span is `size` consecutive addresses from `base` on, as a set of natural numbers:
nothing wraps.  Lists whose spans are pairwise disjoint have the property lookups rely
on: an address lies in one span at most, so the first match is the only one.
-/
namespace Spans

/-- The addresses `base`, …, `base + size - 1`. -/
structure Span where
  base : Nat
  size : Nat
  deriving DecidableEq

namespace Span

/-- The address lies in the span. -/
def Contains (s : Span) (a : Nat) : Prop := s.base ≤ a ∧ a < s.base + s.size

instance (s : Span) (a : Nat) : Decidable (s.Contains a) :=
  inferInstanceAs (Decidable (_ ∧ _))

/-- No address lies in both. -/
def Disjoint (s t : Span) : Prop := ∀ a, s.Contains a → ¬ t.Contains a

variable {s t : Span} {a : Nat}

theorem Disjoint.symm (h : s.Disjoint t) : t.Disjoint s := fun a ht hs => h a hs ht

/-- A span that ends where the other one starts, or before, is disjoint from it. -/
theorem disjoint_of_le (h : s.base + s.size ≤ t.base) : s.Disjoint t := by
  rintro a ⟨-, hs⟩ ⟨ht, -⟩
  omega

/-- Two spans are disjoint if one of them is empty, or ends where the other one starts or
before. -/
theorem disjoint_iff : s.Disjoint t ↔
    s.size = 0 ∨ t.size = 0 ∨ s.base + s.size ≤ t.base ∨ t.base + t.size ≤ s.base := by
  constructor
  · intro h
    -- the higher of the two bases would be in both
    have hs := h s.base
    have ht := h t.base
    unfold Contains at hs ht
    omega
  · rintro h a ⟨hs, hs'⟩ ⟨ht, ht'⟩
    omega

/-- An address of a span is at an offset below its size. -/
theorem Contains.offset_lt (h : s.Contains a) : a - s.base < s.size := by
  have := h.1
  have := h.2
  omega

theorem contains_add {offset : Nat} (h : offset < s.size) : s.Contains (s.base + offset) :=
  ⟨Nat.le_add_right .., Nat.add_lt_add_left h _⟩

end Span

/-- If at most one of two related elements satisfies `p`, then in a list whose elements
are pairwise related the first one that does is the only one. -/
theorem find?_eq_some {α : Type} {R : α → α → Prop} {p : α → Bool}
    (hR : ∀ x y, R x y → p x = true → p y = true → False) {l : List α} (h : l.Pairwise R)
    {x : α} (hx : x ∈ l) (hp : p x = true) : l.find? p = some x := by
  induction l with
  | nil => exact absurd hx List.not_mem_nil
  | cons y l ih =>
      obtain ⟨hy, hl⟩ := List.pairwise_cons.mp h
      rcases List.mem_cons.mp hx with rfl | hmem
      · exact List.find?_cons_of_pos hp
      · rw [List.find?_cons_of_neg fun hpy => hR y x (hy x hmem) hpy hp]
        exact ih hl hmem

end Spans
