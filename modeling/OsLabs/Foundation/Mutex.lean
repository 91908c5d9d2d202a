import Mathlib.Logic.Function.Basic

/-!
# A mutex and the threads that hold it

The state of each thread says whether it is between its acquisition and its release of a mutex.
`Guarded f holds lock` says that the mutex `lock`, which records its holder, agrees with that: the
holder is the only thread whose state says so.  The rules cover the steps of one thread: one that
leaves the mutex alone, an acquisition of the free mutex, and a release by the holder.
-/

variable {T A : Type*} [DecidableEq T] {f : T → A} {holds : A → Bool} {lock : Option T} {t u : T}
  {a : A}

/-- The thread recorded in the mutex is the one whose state says that it holds it. -/
def Guarded (f : T → A) (holds : A → Bool) (lock : Option T) : Prop :=
  ∀ t, holds (f t) = true ↔ lock = some t

namespace Guarded

omit [DecidableEq T] in
/-- Two threads do not hold the mutex at once. -/
lemma unique (h : Guarded f holds lock) (ht : holds (f t) = true) (hu : holds (f u) = true) :
    t = u :=
  Option.some.inj (((h t).mp ht).symm.trans ((h u).mp hu))

omit [DecidableEq T] in
/-- Nobody holds a free mutex. -/
lemma not_holds (h : Guarded f holds none) (t : T) : holds (f t) = false :=
  Bool.eq_false_iff.mpr fun ht => Option.some_ne_none t ((h t).mp ht).symm

/-- A step that leaves the mutex alone. -/
lemma keep (h : Guarded f holds lock) (ha : holds a = holds (f t)) :
    Guarded (Function.update f t a) holds lock := by
  refine (Function.forall_update_iff f fun u a => holds a = true ↔ lock = some u).mpr
    ⟨?_, fun u _ => h u⟩
  rw [ha]
  exact h t

/-- A thread takes the free mutex. -/
lemma acquire (h : Guarded f holds none) (ha : holds a = true) :
    Guarded (Function.update f t a) holds (some t) := by
  refine (Function.forall_update_iff f fun u a => holds a = true ↔ some t = some u).mpr
    ⟨iff_of_true ha rfl, fun u hne => ?_⟩
  rw [h.not_holds u]
  exact iff_of_false Bool.noConfusion fun heq => hne (Option.some.inj heq).symm

/-- The holder gives the mutex back. -/
lemma release (h : Guarded f holds lock) (ht : holds (f t) = true) (ha : holds a = false) :
    Guarded (Function.update f t a) holds none := by
  refine (Function.forall_update_iff f fun u a => holds a = true ↔ none = some u).mpr
    ⟨?_, fun u hne => ?_⟩
  · rw [ha]
    exact iff_of_false Bool.noConfusion (Option.some_ne_none t).symm
  · exact iff_of_false (fun hu => hne (h.unique hu ht)) (Option.some_ne_none u).symm

end Guarded
