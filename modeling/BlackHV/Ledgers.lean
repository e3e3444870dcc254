import Mathlib.Data.List.Perm.Basic

/-! # Ledgers of resources

What a program acquires and releases, in order.  A resource that has been released may be
acquired again, so what is held is a list up to the order, not a set.
-/

/-- One entry of a ledger. -/
inductive Ledger.Change (Resource : Type) where
  | acquired (r : Resource)
  | released (r : Resource)
  deriving DecidableEq

/-- What is held, and what has been released while it was not held. -/
structure Ledger (Resource : Type) where
  held : List Resource
  stray : List Resource
  deriving DecidableEq

namespace Ledger
variable {Resource : Type}

def empty : Ledger Resource := { held := [], stray := [] }

/-- What is acquired along the changes. -/
def acquisitions (changes : List (Change Resource)) : List Resource :=
  changes.filterMap fun change =>
    match change with
    | .acquired r => some r
    | .released _ => none

/-- What is released along the changes. -/
def releases (changes : List (Change Resource)) : List Resource :=
  changes.filterMap fun change =>
    match change with
    | .acquired _ => none
    | .released r => some r

/-- What is held is what is owed, each resource as many times, and nothing has been released
that was not held. -/
structure Balanced (l : Ledger Resource) (owed : List Resource) : Prop where
  held : l.held.Perm owed
  stray : l.stray = []

variable [DecidableEq Resource] {l : Ledger Resource} {owed rest : List Resource}

def record (l : Ledger Resource) : Change Resource → Ledger Resource
  | .acquired r => { l with held := l.held ++ [r] }
  | .released r =>
      if r ∈ l.held then { l with held := l.held.erase r } else { l with stray := l.stray ++ [r] }

def recordAll (l : Ledger Resource) (changes : List (Change Resource)) : Ledger Resource :=
  changes.foldl record l

/-- Everything of some kind that is held is released. -/
def releaseHeld (l : Ledger Resource) (p : Resource → Bool) : Ledger Resource :=
  l.recordAll ((l.held.filter p).map .released)

theorem Balanced.acquire (h : l.Balanced owed) (rs : List Resource) :
    (l.recordAll (rs.map .acquired)).Balanced (owed ++ rs) := by
  induction rs generalizing l owed with
  | nil =>
      rw [List.append_nil]
      exact h
  | cons r rs ih =>
      rw [List.append_cons]
      exact ih ⟨h.held.append_right [r], h.stray⟩

/-- What is owed is settled by releasing it. -/
theorem Balanced.release {rs : List Resource} (h : l.Balanced owed)
    (hp : owed.Perm (rs ++ rest)) : (l.recordAll (rs.map .released)).Balanced rest := by
  induction rs generalizing l owed with
  | nil => exact ⟨h.held.trans hp, h.stray⟩
  | cons r rs ih =>
      have hheld : l.held.Perm (r :: (rs ++ rest)) := h.held.trans hp
      have hr : r ∈ l.held := hheld.mem_iff.mpr List.mem_cons_self
      have hrecord : l.record (.released r) = { l with held := l.held.erase r } := if_pos hr
      have hl : (l.record (.released r)).Balanced (rs ++ rest) := by
        rw [hrecord]
        refine ⟨?_, h.stray⟩
        have herase := hheld.erase r
        rwa [List.erase_cons_head] at herase
      exact ih hl (List.Perm.refl _)

/-- What is released by its kind is owed no more. -/
theorem Balanced.releaseHeld (h : l.Balanced owed) (p : Resource → Bool) :
    (l.releaseHeld p).Balanced (owed.filter fun r => !p r) := by
  have hsplit : owed.Perm (owed.filter p ++ owed.filter fun r => !p r) :=
    (List.filter_append_perm p owed).symm
  exact h.release (hsplit.trans ((h.held.symm.filter p).append_right _))

/-- A release takes away one resource at most. -/
theorem length_held_recordAll (l : Ledger Resource) (changes : List (Change Resource)) :
    l.held.length + (acquisitions changes).length ≤
      (l.recordAll changes).held.length + (releases changes).length := by
  induction changes generalizing l with
  | nil => exact Nat.le_refl _
  | cons change changes ih =>
      have hrest := ih (l.record change)
      rcases change with r | r
      · have hlen : (l.record (.acquired r)).held.length = l.held.length + 1 := List.length_append
        have hacq : (acquisitions (.acquired r :: changes)).length =
            (acquisitions changes).length + 1 := rfl
        have hrel : releases (.acquired r :: changes) = releases changes := rfl
        rw [hacq, hrel]
        show _ ≤ ((l.record (.acquired r)).recordAll changes).held.length + _
        omega
      · have hlen : l.held.length ≤ (l.record (.released r)).held.length + 1 := by
          rw [record]
          split
          · have herase := List.length_erase_of_mem ‹r ∈ l.held›
            dsimp only
            omega
          · exact Nat.le_succ _
        have hacq : acquisitions (.released r :: changes) = acquisitions changes := rfl
        have hrel : (releases (.released r :: changes)).length = (releases changes).length + 1 :=
          rfl
        rw [hacq, hrel]
        show _ ≤ ((l.record (.released r)).recordAll changes).held.length + _
        omega

/-- Too little released: more is held than what is owed. -/
theorem not_balanced_recordAll (h : l.Balanced owed) {changes : List (Change Resource)}
    {owed' : List Resource}
    (hlt : owed'.length + (releases changes).length < owed.length + (acquisitions changes).length) :
    ¬ (l.recordAll changes).Balanced owed' := by
  intro h'
  have hle := length_held_recordAll l changes
  have hlen := h.held.length_eq
  have hlen' := h'.held.length_eq
  omega

end Ledger
