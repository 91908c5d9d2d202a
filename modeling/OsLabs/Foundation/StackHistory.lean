import Mathlib.Data.List.Perm.Basic
import Mathlib.Data.Nat.Notation
import Mathlib.Tactic.SplitIfs

/-!
# Histories of a stack

A history is the list of the pushes and takes of a stack, in their order; `run` says what the stack
holds after it, and whether every take found what it says on top.

What lies below the values of a history stays there (`exists_run_of_below`).  So between the push of
a value and its take everything that was pushed has been taken again (`perm_between`).
-/

namespace StackHistory

variable {α : Type*}

/-- A call. -/
inductive Op (α : Type*)
  | push (a : α)
  | take (a : α)
  deriving DecidableEq

/-- The value of a push. -/
def Op.pushed : Op α → Option α
  | .push a => some a
  | .take _ => none

/-- The value of a take. -/
def Op.taken : Op α → Option α
  | .push _ => none
  | .take a => some a

/-- What was pushed. -/
def pushes (ops : List (Op α)) : List α := ops.filterMap Op.pushed

/-- What was taken. -/
def takes (ops : List (Op α)) : List α := ops.filterMap Op.taken

/-- A push adds its element to what was pushed. -/
@[simp] lemma pushes_push (a : α) (ops : List (Op α)) :
    pushes (.push a :: ops) = a :: pushes ops := rfl

/-- A take does not. -/
@[simp] lemma pushes_take (a : α) (ops : List (Op α)) :
    pushes (.take a :: ops) = pushes ops := rfl

/-- What was pushed in one history and then in another. -/
@[simp] lemma pushes_append (ops ops' : List (Op α)) :
    pushes (ops ++ ops') = pushes ops ++ pushes ops' := List.filterMap_append

/-- A push adds nothing to what was taken. -/
@[simp] lemma takes_push (a : α) (ops : List (Op α)) :
    takes (.push a :: ops) = takes ops := rfl

/-- A take adds its element. -/
@[simp] lemma takes_take (a : α) (ops : List (Op α)) :
    takes (.take a :: ops) = a :: takes ops := rfl

/-- What was taken in one history and then in another. -/
@[simp] lemma takes_append (ops ops' : List (Op α)) :
    takes (ops ++ ops') = takes ops ++ takes ops' := List.filterMap_append

variable [DecidableEq α] {a : α} {below l stack stack' : List α}
  {ops before between after : List (Op α)}

/-- The stack after a history, the top first; `none` if a take does not find its value on top. -/
def run : List α → List (Op α) → Option (List α)
  | stack, [] => some stack
  | stack, .push a :: ops => run (a :: stack) ops
  | [], .take _ :: _ => none
  | b :: stack, .take a :: ops => if b = a then run stack ops else none

/-- One history after another. -/
lemma run_append (stack : List α) (ops ops' : List (Op α)) :
    run stack (ops ++ ops') = (run stack ops).bind fun stack' => run stack' ops' := by
  induction ops generalizing stack with
  | nil => rfl
  | cons op ops ih =>
    cases op with
    | push a => exact ih (a :: stack)
    | take a =>
      cases stack with
      | nil => rfl
      | cons b stack =>
        rw [List.cons_append, run, run]
        split_ifs
        · exact ih stack
        · rfl

/-- What is on the stack or was pushed is on the stack or was taken, as often. -/
lemma perm_of_run (h : run stack ops = some stack') :
    (stack' ++ takes ops).Perm (pushes ops ++ stack) := by
  induction ops generalizing stack with
  | nil =>
    obtain rfl := Option.some.inj h
    exact List.Perm.of_eq (List.append_nil stack)
  | cons op ops ih =>
    cases op with
    | push a =>
      have hrest : (stack' ++ takes ops).Perm (pushes ops ++ a :: stack) := ih h
      exact hrest.trans List.perm_middle
    | take a =>
      cases stack with
      | nil => cases h
      | cons b stack =>
        rw [run] at h
        split_ifs at h with heq
        have hrest := ih h
        show (stack' ++ a :: takes ops).Perm (pushes ops ++ b :: stack)
        rw [heq]
        exact List.perm_middle.trans ((hrest.cons a).trans List.perm_middle.symm)

/-- As long as a value is not taken, it stays where it is, and so does what lies below it. -/
lemma exists_run_of_below (h : run (l ++ a :: below) ops = some stack) (ha : a ∉ takes ops) :
    ∃ l', stack = l' ++ a :: below ∧ run l ops = some l' := by
  induction ops generalizing l with
  | nil => exact ⟨l, (Option.some.inj h).symm, rfl⟩
  | cons op ops ih =>
    cases op with
    | push b => exact ih (l := b :: l) h ha
    | take b =>
      obtain ⟨hne, ha⟩ := List.ne_and_not_mem_of_not_mem_cons ha
      cases l with
      | nil =>
        rw [List.nil_append, run, if_neg hne] at h
        cases h
      | cons c l =>
        rw [List.cons_append, run] at h
        split_ifs at h with heq
        obtain ⟨l', hstack, hrun⟩ := ih h ha
        refine ⟨l', hstack, ?_⟩
        rw [run, if_pos heq]
        exact hrun

/-- Where no value is pushed twice, exactly what was pushed between the push of a value and its take
was taken in between. -/
theorem perm_between (h : run [] (before ++ .push a :: between ++ .take a :: after) = some stack)
    (hpushes : (pushes (before ++ .push a :: between ++ .take a :: after)).Nodup)
    (htakes : (takes (before ++ .push a :: between ++ .take a :: after)).Nodup) :
    (takes between).Perm (pushes between) := by
  rw [List.append_assoc, List.cons_append, pushes_append, pushes_push, pushes_append, pushes_take,
    List.nodup_append, List.nodup_cons] at hpushes
  rw [List.append_assoc, List.cons_append, takes_append, takes_push, takes_append, takes_take,
    List.nodup_append, List.nodup_append] at htakes
  have hpush : a ∉ pushes between := fun hmem =>
    hpushes.2.1.1 (List.mem_append_left _ hmem)
  have htake : a ∉ takes between := fun hmem =>
    htakes.2.1.2.2 a hmem a List.mem_cons_self rfl
  rw [List.append_assoc, run_append] at h
  obtain ⟨below, -, h⟩ := Option.bind_eq_some_iff.mp h
  rw [List.cons_append, run, run_append] at h
  obtain ⟨top, hbetween, h⟩ := Option.bind_eq_some_iff.mp h
  obtain ⟨l, rfl, hrun⟩ := exists_run_of_below (l := []) hbetween htake
  have hperm := perm_of_run hrun
  rw [List.append_nil] at hperm
  -- the value is on top, so nothing lies above it
  cases l with
  | nil => exact hperm
  | cons b l =>
    rw [List.cons_append, run] at h
    split_ifs at h with heq
    exact absurd (hperm.subset (heq ▸ List.mem_cons_self)) hpush

end StackHistory
