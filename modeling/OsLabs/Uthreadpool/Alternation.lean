import Mathlib.Data.List.Basic
import Mathlib.Tactic.Linarith

/-!
# Two tasks at a time

What the yields of `uthreadpool.c` amount to.  A yield goes to the first `READY` thread of the node
list, so only the two unfinished tasks nearest to the head ever alternate; when one of them
finishes, the next task of the list takes its place.  `alternate x ws` follows this: the running
task has `x` yields left, the others `ws`, nearest first, and the answer says whether everything
finishes.  `leftover` is the closed form: `pairLeft x w` is what the survivor of a pair has left.
-/

namespace OsLabs.Uthreadpool

/-- Whether everything finishes when the running task has `x` yields left and the waiting ones
have `ws`, nearest first: a yield with nobody waiting ends the run. -/
def alternate : ℕ → List ℕ → Bool
  | 0, [] => true
  | _ + 1, [] => false
  | 0, w :: ws => alternate w ws
  | x + 1, w :: ws => alternate w (x :: ws)
termination_by x ws => x + ws.sum + ws.length
decreasing_by all_goals simp only [List.sum_cons, List.length_cons]; omega

/-- The yields that remain to the other task when the first of two alternating tasks finishes:
the running one has `x` yields, the waiting one `w`. -/
def pairLeft (x w : ℕ) : ℕ := if x ≤ w then w - x else x - w - 1

/-- The yields that remain to the last unfinished task once all others are done, for tasks with
these numbers of yields, in the order of the node list. -/
def leftover : List ℕ → ℕ
  | [] => 0
  | x :: ws => ws.foldl pairLeft x

/-- After a yield the two tasks have changed places. -/
lemma pairLeft_succ (x w : ℕ) : pairLeft (x + 1) w = pairLeft w x := by
  unfold pairLeft
  split_ifs <;> omega

/-- A task without yields left leaves the other one as it is. -/
lemma pairLeft_zero (w : ℕ) : pairLeft 0 w = w := by simp [pairLeft]

/-- Everything finishes exactly when the last task has no yield left. -/
theorem alternate_eq_true_iff (x : ℕ) (ws : List ℕ) :
    alternate x ws = true ↔ leftover (x :: ws) = 0 := by
  induction x, ws using alternate.induct with
  | case1 => simp [alternate, leftover]
  | case2 x => simp [alternate, leftover]
  | case3 w ws ih =>
    rw [alternate, ih, leftover, leftover, List.foldl_cons, pairLeft_zero]
  | case4 x w ws ih =>
    rw [alternate, ih, leftover, leftover, List.foldl_cons, List.foldl_cons, pairLeft_succ]

end OsLabs.Uthreadpool
