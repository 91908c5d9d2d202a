import Mathlib.Data.List.Basic
import Mathlib.Logic.Function.Basic

/-!
# A store in front of a source

A store keeps one value for each of some names.  A query asks it for a name; where the store has
nothing, the source answers, and its answer is kept if it may be kept.  A name that has a value
keeps it, so the first answer that may be kept is given to all later queries (`run_apply`,
`answer_eq_of_stored`).
-/

namespace WriteOnce

variable {N B : Type*} [DecidableEq N]

/-- A query, with what the source would answer to it. -/
structure Query (N B : Type*) where
  name : N
  source : B
  /-- The answer of the source may be kept. -/
  keep : Bool

/-- The answer to a query. -/
def answer (store : N → Option B) (q : Query N B) : B := (store q.name).getD q.source

/-- The store after a query. -/
def after (store : N → Option B) (q : Query N B) : N → Option B :=
  if q.keep && (store q.name).isNone then Function.update store q.name (some q.source) else store

/-- The store after queries, one after the other. -/
def run (store : N → Option B) (queries : List (Query N B)) : N → Option B :=
  queries.foldl after store

variable {store : N → Option B} {q : Query N B} {queries : List (Query N B)} {name : N}

/-- One query more. -/
lemma run_concat (store : N → Option B) (queries : List (Query N B)) (q : Query N B) :
    run store (queries ++ [q]) = after (run store queries) q := by
  unfold run
  rw [List.foldl_append, List.foldl_cons, List.foldl_nil]

/-- A query about a name that the store has changes nothing. -/
lemma after_of_isSome (h : (store q.name).isSome = true) : after store q = store := by
  apply if_neg
  rw [← Option.not_isSome, h, Bool.not_true, Bool.and_false]
  exact Bool.false_ne_true

/-- Nor does one whose answer may not be kept. -/
lemma after_of_not_keep (h : q.keep = false) : after store q = store := by
  apply if_neg
  rw [h, Bool.false_and]
  exact Bool.false_ne_true

/-- Otherwise the store has the answer of the source. -/
lemma after_of_keep (hkeep : q.keep = true) (hnone : store q.name = none) :
    after store q = Function.update store q.name (some q.source) := by
  apply if_pos
  rw [hkeep, hnone]
  rfl

/-- A query does not touch another name. -/
lemma after_of_ne (h : name ≠ q.name) : after store q name = store name := by
  unfold after
  split_ifs
  · exact Function.update_of_ne h _ _
  · exact rfl

/-- A name that has a value keeps it. -/
lemma after_of_some {b : B} (h : store name = some b) : after store q name = some b := by
  by_cases hname : name = q.name
  · subst hname
    rw [after_of_isSome (by rw [h]; rfl), h]
  · rw [after_of_ne hname, h]

/-- A name has the value that it had, or the first answer for it that may be kept. -/
theorem run_apply (store : N → Option B) (queries : List (Query N B)) (name : N) :
    run store queries name = (store name).or
      ((queries.find? fun q => decide (q.name = name) && q.keep).map Query.source) := by
  induction queries generalizing store with
  | nil => exact (Option.or_none).symm
  | cons q queries ih =>
    have hrest : run store (q :: queries) = run (after store q) queries := rfl
    rw [hrest, ih, List.find?_cons]
    by_cases hname : q.name = name
    · subst hname
      rcases Bool.eq_false_or_eq_true q.keep with hkeep | hkeep
      · rcases Option.eq_none_or_eq_some (store q.name) with hnone | ⟨b, hsome⟩
        · rw [after_of_keep hkeep hnone, Function.update_self, hkeep, hnone]
          simp
        · rw [after_of_some hsome, hsome, Option.some_or, Option.some_or]
      · rw [after_of_not_keep hkeep, hkeep]
        simp
    · rw [after_of_ne (Ne.symm hname), decide_eq_false hname, Bool.false_and]

/-- A name keeps its value over any number of queries. -/
lemma run_of_some {b : B} (h : store name = some b) : run store queries name = some b := by
  rw [run_apply, h, Option.some_or]

/-- A name has a value if it had one, or was asked for with an answer that may be kept. -/
lemma isSome_run_iff : (run store queries name).isSome = true ↔
    (store name).isSome = true ∨ ∃ q ∈ queries, q.name = name ∧ q.keep = true := by
  rw [run_apply, Option.isSome_or, Bool.or_eq_true, Option.isSome_map, List.find?_isSome]
  simp only [Bool.and_eq_true, decide_eq_true_eq]

/-- If the name of a query has a value afterwards, the value was answered. -/
lemma after_name (h : (after store q q.name).isSome = true) :
    after store q q.name = some (answer store q) := by
  rcases Option.eq_none_or_eq_some (store q.name) with hnone | ⟨b, hsome⟩
  · rcases Bool.eq_false_or_eq_true q.keep with hkeep | hkeep
    · rw [after_of_keep hkeep hnone, Function.update_self, answer, hnone, Option.getD_none]
    · rw [after_of_not_keep hkeep, hnone] at h
      cases h
  · rw [after_of_some hsome, answer, hsome, Option.getD_some]

/-- All later queries about that name are then answered in the same way. -/
theorem answer_eq_of_stored {q' : Query N B} {between : List (Query N B)}
    (hstored : (run store (queries ++ [q]) q.name).isSome = true) (hname : q'.name = q.name) :
    answer (run store (queries ++ q :: between)) q' = answer (run store queries) q := by
  have hsplit : run store (queries ++ q :: between) =
      run (after (run store queries) q) between := by
    unfold run
    rw [List.foldl_append, List.foldl_cons]
  rw [run_concat] at hstored
  rw [answer, hsplit, hname, run_of_some (after_name hstored), Option.getD_some]

end WriteOnce
