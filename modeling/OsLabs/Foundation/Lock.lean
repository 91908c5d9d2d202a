import Mathlib.Data.List.Basic
import Mathlib.Data.Nat.Notation
import Mathlib.Logic.Relation
import Mathlib.Order.Basic
import Mathlib.Tactic.SplitIfs

/-!
# Locks

A lock that is taken exclusively or, where it allows it, shared.  `acquire` answers `none` while the
thread has to wait.  The rules say who holds the lock after a call, that an exclusive holder is the
only one, that threads do not wait in a cycle where a rank grows along waiting threads, and that one
of them can go on where the rank is bounded.
-/

/-- How a lock is taken. -/
inductive LockMode
  | shared
  | exclusive
  deriving DecidableEq, Repr

/-- The state of a lock. -/
inductive LockState (T : Type*)
  | free
  | shared (threads : List T)
  | exclusive (thread : T)

namespace LockState

variable {T : Type*} {l l' : LockState T} {t t' : T} {mode : LockMode}

/-- The threads that hold a lock. -/
def holders : LockState T → List T
  | .free => []
  | .shared threads => threads
  | .exclusive thread => [thread]

/-- Takes a lock if it can be taken. -/
def acquire (mode : LockMode) (t : T) : LockState T → Option (LockState T)
  | .free =>
    match mode with
    | .shared => some (.shared [t])
    | .exclusive => some (.exclusive t)
  | .shared threads =>
    match mode with
    | .shared => some (.shared (t :: threads))
    | .exclusive => none
  | .exclusive _ => none

/-- A successful call adds its thread to the holders. -/
lemma holders_acquire (h : acquire mode t l = some l') : l'.holders = t :: l.holders := by
  cases l <;> cases mode <;> cases h <;> rfl

/-- An exclusive call succeeds on a free lock only, and leaves it exclusive. -/
lemma acquire_exclusive (h : acquire .exclusive t l = some l') : l = .free ∧ l' = .exclusive t := by
  cases l <;> cases h
  exact ⟨rfl, rfl⟩

/-- Nobody takes an exclusive lock. -/
lemma acquire_of_exclusive : acquire mode t' (.exclusive t) = none := by
  cases mode <;> rfl

/-- Where a rank grows along threads that wait for each other, no thread waits for itself.  Only the
rank of threads that wait counts. -/
theorem waitsFor_acyclic {α : Type*} [Preorder α] {waitsFor : T → T → Prop} (rank : T → α)
    (h : ∀ t t' t'', waitsFor t t' → waitsFor t' t'' → rank t < rank t') (t : T) :
    ¬ Relation.TransGen waitsFor t t := by
  have hlt : ∀ {t₁ t₂ t₃ : T}, Relation.TransGen waitsFor t₁ t₂ → waitsFor t₂ t₃ →
      rank t₁ < rank t₂ := by
    intro t₁ t₂ t₃ hchain
    induction hchain generalizing t₃ with
    | single h₁ => exact fun h₂ => h _ _ _ h₁ h₂
    | tail _ h₁ ih => exact fun h₂ => (ih h₁).trans (h _ _ _ h₁ h₂)
  intro hcycle
  obtain ⟨u, hu, -⟩ := Relation.TransGen.head'_iff.mp hcycle
  exact lt_irrefl _ (hlt hcycle hu)

/-- Where such a rank is bounded, and every active thread is free to go on or waits for an active
one, some active thread is free to go on. -/
theorem exists_free_of_rank {waitsFor : T → T → Prop} {active free : T → Prop} (rank : T → ℕ)
    {bound : ℕ}
    (hrank : ∀ t t' t'', waitsFor t t' → waitsFor t' t'' → rank t < rank t')
    (hbound : ∀ t t', waitsFor t t' → rank t < bound)
    (hnext : ∀ t, active t → free t ∨ ∃ t', waitsFor t t' ∧ active t') (ht : active t) :
    ∃ u, active u ∧ free u := by
  -- the induction is on how far the rank is from the bound
  have hchain : ∀ d t t', waitsFor t t' → active t' → bound ≤ rank t + d →
      ∃ u, active u ∧ free u := by
    intro d
    induction d with
    | zero =>
      intro t t' hwait _ hle
      exact absurd (hbound t t' hwait) (Nat.not_lt.mpr hle)
    | succ d ih =>
      intro t t' hwait hactive hle
      rcases hnext t' hactive with hfree | ⟨t'', hwait', hactive'⟩
      · exact ⟨t', hactive, hfree⟩
      · have hlt := hrank t t' t'' hwait hwait'
        exact ih t' t'' hwait' hactive' (by omega)
  rcases hnext t ht with hfree | ⟨t', hwait, hactive⟩
  · exact ⟨t, ht, hfree⟩
  · exact hchain bound t t' hwait hactive (Nat.le_add_left bound (rank t))

variable [DecidableEq T]

/-- Gives a lock back. -/
def release (t : T) : LockState T → LockState T
  | .shared threads => if threads.erase t = [] then .free else .shared (threads.erase t)
  | .free | .exclusive _ => .free

/-- The release of a held lock removes its thread from the holders. -/
lemma holders_release (h : t ∈ l.holders) : (release t l).holders = l.holders.erase t := by
  cases l with
  | free => cases h
  | shared threads =>
    rw [release]
    split_ifs with hnil
    · exact hnil.symm
    · rfl
  | exclusive thread =>
    obtain rfl := List.mem_singleton.mp h
    exact (List.erase_cons_head ..).symm

end LockState
