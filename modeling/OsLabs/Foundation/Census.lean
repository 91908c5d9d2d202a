import Mathlib.Algebra.BigOperators.Group.Finset.Basic
import Mathlib.Algebra.Order.BigOperators.Group.Finset
import Mathlib.Algebra.Order.Group.Nat
import Mathlib.Data.Fintype.Defs
import Mathlib.Tactic.SplitIfs

/-!
# Counting threads

`census f p` is the number of threads whose state satisfies `p`, where `f` gives the state of each
thread.  Balance equations between such numbers and the values of counters are kept by
`census_update`: a step of one thread changes each number by what its own state contributes.

`total f g` is the sum of a number `g` that the state of each thread says, with the same rule
(`total_update`).
-/

variable {T A : Type*} [Fintype T] {f : T → A} {p : A → Bool} {t : T}

/-- The number of threads whose state satisfies `p`. -/
def census (f : T → A) (p : A → Bool) : ℕ := ∑ t, (p (f t)).toNat

/-- A weaker predicate counts at least as many. -/
lemma census_le {q : A → Bool} (h : ∀ t, p (f t) = true → q (f t) = true) :
    census f p ≤ census f q := by
  refine Finset.sum_le_sum fun t _ => ?_
  cases hp : p (f t) with
  | false => exact Nat.zero_le _
  | true => rw [h t hp]

/-- Nobody is counted where nobody satisfies the predicate. -/
lemma census_eq_zero (h : ∀ t, p (f t) = false) : census f p = 0 :=
  Finset.sum_eq_zero fun t _ => by rw [h t, Bool.toNat_false]

/-- Nobody is counted where all are in one state that does not satisfy the predicate. -/
lemma census_const {a : A} (h : p a = false) : census (fun _ : T => a) p = 0 :=
  census_eq_zero fun _ => h

/-- Somebody who is counted satisfies the predicate. -/
lemma exists_of_census_pos (h : 0 < census f p) : ∃ t, p (f t) = true := by
  by_contra hnone
  rw [census_eq_zero fun t => Bool.eq_false_iff.mpr fun ht => hnone ⟨t, ht⟩] at h
  exact Nat.lt_irrefl _ h

variable [DecidableEq T]

/-- One thread is taken out of the count. -/
private lemma census_eq_add_erase (f : T → A) (p : A → Bool) (t : T) :
    census f p = (p (f t)).toNat + ∑ u ∈ Finset.univ.erase t, (p (f u)).toNat :=
  (Finset.add_sum_erase _ _ (Finset.mem_univ t)).symm

/-- A step of one thread changes the count by its own contribution. -/
lemma census_update (f : T → A) (p : A → Bool) (t : T) (a : A) :
    census (Function.update f t a) p + (p (f t)).toNat = census f p + (p a).toNat := by
  have hrest : ∑ u ∈ Finset.univ.erase t, (p (Function.update f t a u)).toNat =
      ∑ u ∈ Finset.univ.erase t, (p (f u)).toNat := by
    refine Finset.sum_congr rfl fun u hu => ?_
    rw [Function.update_of_ne (Finset.ne_of_mem_erase hu)]
  rw [census_eq_add_erase _ p t, census_eq_add_erase f p t, hrest, Function.update_self]
  omega

/-- A thread that satisfies the predicate is counted. -/
lemma census_pos (h : p (f t) = true) : 0 < census f p := by
  rw [census_eq_add_erase f p t, h, Bool.toNat_true]
  omega

/-! ## Totals -/

section Total

omit [DecidableEq T]

/-- The sum of a number that the state of each thread says. -/
def total (f : T → A) (g : A → ℕ) : ℕ := ∑ t, g (f t)

variable {g g' : A → ℕ}

/-- A total grows by no more than what each state adds. -/
lemma total_le_add {c : ℕ} (h : ∀ a, g a ≤ g' a + c) :
    total f g ≤ total f g' + Fintype.card T * c := by
  have hsum : ∑ t, g (f t) ≤ ∑ t, (g' (f t) + c) := Finset.sum_le_sum fun t _ => h (f t)
  rw [Finset.sum_add_distrib, Finset.sum_const_nat fun _ _ => rfl, Finset.card_univ] at hsum
  exact hsum

/-- A total of bounded numbers. -/
lemma total_le {c : ℕ} (h : ∀ a, g a ≤ c) : total f g ≤ Fintype.card T * c := by
  have hsum : ∑ t, g (f t) ≤ ∑ _t : T, c := Finset.sum_le_sum fun t _ => h (f t)
  rw [Finset.sum_const_nat fun _ _ => rfl, Finset.card_univ] at hsum
  exact hsum

/-- A total over threads that say the same. -/
lemma total_const (a : A) : total (fun _ : T => a) g = Fintype.card T * g a := by
  rw [total, Finset.sum_const_nat fun _ _ => rfl, Finset.card_univ]

end Total

/-- A step of one thread changes a total by its own contribution. -/
lemma total_update (f : T → A) (g : A → ℕ) (t : T) (a : A) :
    total (Function.update f t a) g + g (f t) = total f g + g a := by
  have herase : ∀ f' : T → A, total f' g = g (f' t) + ∑ u ∈ Finset.univ.erase t, g (f' u) :=
    fun f' => (Finset.add_sum_erase _ _ (Finset.mem_univ t)).symm
  have hrest : ∑ u ∈ Finset.univ.erase t, g (Function.update f t a u) =
      ∑ u ∈ Finset.univ.erase t, g (f u) := by
    refine Finset.sum_congr rfl fun u hu => ?_
    rw [Function.update_of_ne (Finset.ne_of_mem_erase hu)]
  rw [herase, herase f, hrest, Function.update_self]
  omega
