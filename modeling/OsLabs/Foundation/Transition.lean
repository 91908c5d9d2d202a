import Mathlib.Data.Nat.Notation
import Mathlib.Tactic.SplitIfs

/-!
# Runs of a step function

A system is given by a partial step function `step : σ → ε → Option σ`: the choice `e : ε` is
everything that the program does not decide by itself (which thread moves, what a system call
answers), and `none` means that the choice is not possible in that state.

`Run step ok s t` says that some sequence of choices leads from `s` to `t`, each of them allowed by
the condition `ok` in the state where it is made; `Reachable` is the case without a condition.
The rules of the module are the induction principle for invariants (`Run.invariant`), its variant
that uses facts already established (`Run.invariant_with`), weakening of the condition
(`Run.mono`), and the executable form of a run (`execWhere`) with its soundness.  A potential that
every step lowers, up to a slack, bounds the length of runs (`length_le_of_potential`), and a rank
that every step lowers unless it reaches a goal bounds the way to that goal, whatever the choices
are (`exists_take_of_rank`).
-/

namespace Transition

variable {σ ε : Type*} {step : σ → ε → Option σ} {ok ok' : σ → ε → Prop} {s t u : σ}

/-- `Run step ok s t`: a finite sequence of steps from `s` to `t`, each of them allowed by `ok`. -/
inductive Run (step : σ → ε → Option σ) (ok : σ → ε → Prop) (s : σ) : σ → Prop
  /-- The empty run. -/
  | refl : Run step ok s s
  /-- A run followed by one allowed step. -/
  | tail {t u : σ} {e : ε} : Run step ok s t → ok t e → step t e = some u → Run step ok s u

/-- The condition that allows every choice. -/
def anyStep (_ : σ) (_ : ε) : Prop := True

instance (s : σ) (e : ε) : Decidable (anyStep s e) := isTrue trivial

/-- Reachability: a run without a condition on its steps. -/
abbrev Reachable (step : σ → ε → Option σ) : σ → σ → Prop := Run step anyStep

/-- A run may be extended at its start. -/
theorem Run.head {e : ε} (hok : ok s e) (hst : step s e = some t) (h : Run step ok t u) :
    Run step ok s u := by
  induction h with
  | refl => exact Run.tail Run.refl hok hst
  | tail _ hok' hst' ih => exact Run.tail ih hok' hst'

/-- Runs compose. -/
theorem Run.trans (h : Run step ok s t) (h' : Run step ok t u) : Run step ok s u := by
  induction h' with
  | refl => exact h
  | tail _ hok hst ih => exact Run.tail ih hok hst

/-- A run under a condition is a run under every weaker one. -/
theorem Run.mono (hle : ∀ s e, ok s e → ok' s e) (h : Run step ok s t) : Run step ok' s t := by
  induction h with
  | refl => exact Run.refl
  | tail _ hok hst ih => exact Run.tail ih (hle _ _ hok) hst

/-- The invariant rule: what holds at the start and is preserved by every allowed step holds at
the end of every run. -/
theorem Run.invariant {I : σ → Prop} (h : Run step ok s t) (h0 : I s)
    (hstep : ∀ t e u, I t → ok t e → step t e = some u → I u) : I t := by
  induction h with
  | refl => exact h0
  | tail _ hok hst ih => exact hstep _ _ _ ih hok hst

/-- The invariant rule relative to a fact `J` already known to hold along every run. -/
theorem Run.invariant_with {I J : σ → Prop} (h : Run step ok s t)
    (hJ : ∀ t, Run step ok s t → J t) (h0 : I s)
    (hstep : ∀ t e u, J t → J u → I t → ok t e → step t e = some u → I u) : I t := by
  induction h with
  | refl => exact h0
  | tail hr hok hst ih =>
    exact hstep _ _ _ (hJ _ hr) (hJ _ (Run.tail hr hok hst)) ih hok hst

/-! ## Executable runs -/

/-- Performs a list of choices, each of which must be allowed and possible. -/
def execWhere (step : σ → ε → Option σ) (ok : σ → ε → Prop) [∀ s e, Decidable (ok s e)] :
    σ → List ε → Option σ
  | s, [] => some s
  | s, e :: es => if ok s e then (step s e).bind fun t => execWhere step ok t es else none

/-- The first choice is made, and the others are executed after it. -/
lemma execWhere_cons [∀ s e, Decidable (ok s e)] {e : ε} {es : List ε} (hok : ok s e)
    (hst : step s e = some t) :
    execWhere step ok s (e :: es) = execWhere step ok t es := by
  rw [execWhere, if_pos hok, hst, Option.bind_some]

/-- An executed list of choices is a run. -/
theorem Run.of_execWhere [∀ s e, Decidable (ok s e)] {es : List ε}
    (h : execWhere step ok s es = some t) : Run step ok s t := by
  induction es generalizing s with
  | nil =>
    rw [execWhere, Option.some.injEq] at h
    exact h ▸ Run.refl
  | cons e es ih =>
    rw [execWhere] at h
    split_ifs at h with hok
    obtain ⟨r, hr, hrest⟩ := Option.bind_eq_some_iff.mp h
    exact Run.head hok hr (ih hrest)

/-- The state that an executable list of choices leads to is reached by a run. -/
theorem Run.get_execWhere (step : σ → ε → Option σ) (ok : σ → ε → Prop)
    [∀ s e, Decidable (ok s e)] (s : σ) (es : List ε)
    (h : (execWhere step ok s es).isSome = true) :
    Run step ok s ((execWhere step ok s es).get h) :=
  Run.of_execWhere (Option.some_get h).symm

/-! ## Potentials -/

/-- What the steps of a run are granted, where `slack` says it for each of them. -/
def granted (step : σ → ε → Option σ) (slack : σ → ε → ℕ) : σ → List ε → ℕ
  | _, [] => 0
  | s, e :: es =>
    match step s e with
    | none => 0
    | some t => slack s e + granted step slack t es

/-- Where only some choices are granted something, their number counts. -/
lemma granted_le {slack : σ → ε → ℕ} {p : ε → Bool} {c : ℕ}
    (h : ∀ s e, slack s e ≤ c * (p e).toNat) (s : σ) (es : List ε) :
    granted step slack s es ≤ c * es.countP p := by
  induction es generalizing s with
  | nil => exact Nat.zero_le _
  | cons e es ih =>
    rw [granted]
    split
    next => exact Nat.zero_le _
    next t ht =>
      have hle := h s e
      have hrest := ih t
      rw [List.countP_cons, Nat.mul_add]
      cases hp : p e with
      | false =>
        rw [hp] at hle
        simpa using Nat.add_le_add hle hrest
      | true =>
        rw [hp] at hle
        simp only [if_true, Bool.toNat_true] at hle ⊢
        omega

/-- A run is not longer than the potential at its start and what its steps are granted. -/
theorem length_le_of_potential [∀ s e, Decidable (ok s e)] {I : σ → Prop} {potential : σ → ℕ}
    {slack : σ → ε → ℕ} (h0 : I s)
    (hstep : ∀ s e t, I s → ok s e → step s e = some t →
      I t ∧ potential t + 1 ≤ potential s + slack s e)
    {es : List ε} (h : execWhere step ok s es = some t) :
    es.length + potential t ≤ potential s + granted step slack s es := by
  induction es generalizing s with
  | nil =>
    rw [execWhere, Option.some.injEq] at h
    rw [h]
    exact Nat.le_of_eq (Nat.zero_add _)
  | cons e es ih =>
    rw [execWhere] at h
    split_ifs at h with hok
    obtain ⟨r, hr, hrest⟩ := Option.bind_eq_some_iff.mp h
    obtain ⟨hI, hlt⟩ := hstep _ _ _ h0 hok hr
    have hle := ih hI hrest
    rw [granted, hr, List.length_cons]
    dsimp only
    omega

/-- Where every choice is possible and reaches the goal or a smaller rank, the goal is reached after
at most one step more than the rank. -/
theorem exists_take_of_rank [∀ s e, Decidable (ok s e)] {I : ℕ → σ → Prop} {goal : σ → Prop}
    {p : ε → Prop}
    (hstep : ∀ i s e, I i s → p e →
      ok s e ∧ ∃ t, step s e = some t ∧ (goal t ∨ ∃ j < i, I j t))
    {i : ℕ} (h : I i s) {es : List ε} (hp : ∀ e ∈ es, p e) (hlen : i < es.length) :
    ∃ k ≤ i + 1, ∃ t, execWhere step ok s (es.take k) = some t ∧ goal t := by
  induction es generalizing s i with
  | nil => exact absurd hlen (Nat.not_lt_zero i)
  | cons e es ih =>
    obtain ⟨he, hes⟩ := List.forall_mem_cons.mp hp
    obtain ⟨hok, t, hst, hgoal | ⟨j, hj, hrank⟩⟩ := hstep i s e h he
    · refine ⟨1, Nat.le_add_left 1 i, t, ?_, hgoal⟩
      rw [List.take_succ_cons, List.take_zero, execWhere, if_pos hok, hst, Option.bind_some,
        execWhere]
    · have hlt : j < es.length := Nat.lt_of_lt_of_le hj (Nat.le_of_lt_succ hlen)
      obtain ⟨k, hk, u, hrun, hu⟩ := ih hrank hes hlt
      refine ⟨k + 1, Nat.succ_le_succ (Nat.le_trans hk hj), u, ?_, hu⟩
      rw [List.take_succ_cons, execWhere, if_pos hok, hst, Option.bind_some, hrun]

end Transition
