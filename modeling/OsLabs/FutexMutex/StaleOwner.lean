import OsLabs.FutexMutex.Mutex

/-!
# Releases by a thread that is not the holder

`mutex_unlock` refuses a thread whose id is not in `m->tid`.  The owner is written by a step of its
own after the compare-exchange of `mutex_lock` and stays there after the release, so a thread that
has held the mutex before passes the comparison while another one has just won the mutex.

`unlock_changes_word_of_stale` is such a run.  `ownersOnly` says which steps must not happen for the
comparison to do its work, and `only_holder_unlocks` that nothing else is needed.
-/

namespace OsLabs.FutexMutex

open Transition

namespace Mutex

variable {T : Type} [DecidableEq T] [Fintype T] {m m' : Mutex T} {t : T} {choice : Choice T}

/-- A compare-exchange of `mutex_unlock` changes the word for the holder only. -/
def OnlyHolderUnlocks (m : Mutex T) : Prop :=
  ∀ t m', m.pc t = .unlockCas → m.holds t = false → step m (t, .go) = some m' → m'.lock = m.lock

/-- No thread that is not the holder stands at the compare-exchange of `mutex_unlock` while the
mutex is held. -/
def NoStaleOwner (m : Mutex T) : Prop :=
  ∀ t, m.pc t = .unlockCas → m.holds t = false → m.lock = .unlock

/-- The two kinds of steps that bring a stale owner into that place: it makes its comparison after
another thread has won and before that thread has written its id, or another thread wins between its
comparison and its compare-exchange. -/
def ownersOnly (m : Mutex T) (e : T × Choice T) : Prop :=
  ¬ (m.pc e.1 = .checkTid ∧ m.tid = some e.1 ∧ m.holds e.1 = false ∧ m.lock = .lock) ∧
  ¬ (m.pc e.1 = .lockCas ∧ m.lock = .unlock ∧
      ∃ t, m.pc t = .unlockCas ∧ m.holds t = false)

instance (m : Mutex T) (e : T × Choice T) : Decidable (m.ownersOnly e) := by
  unfold ownersOnly
  infer_instance

/-! ## A run with a wrong release -/

/-- Thread `0` has held the mutex before.  It calls `mutex_unlock` when thread `1` has won the mutex
and not yet written its id: the comparison succeeds, and the compare-exchange releases the mutex of
thread `1`. -/
theorem unlock_changes_word_of_stale :
    ¬ ∀ m : Mutex (Fin 2), Reachable step init m → m.OnlyHolderUnlocks := by
  intro hall
  have hrun := Run.get_execWhere step anyStep (init : Mutex (Fin 2))
    [(0, .callLock), (0, .go), (0, .go), (0, .callUnlock), (0, .go), (0, .go), (0, .wake none),
      (1, .callLock), (1, .go), (0, .callUnlock), (0, .go)] (by decide)
  exact absurd (hall _ hrun 0 _ (by decide) (by decide) rfl) (by decide)

/-! ## When the comparison does its work -/

/-- Every step of the allowed kinds keeps stale owners away. -/
lemma NoStaleOwner.step (h : m.NoStaleOwner) (hok : m.ownersOnly (t, choice))
    (heff : Effect m t choice m') : m'.NoStaleOwner := by
  -- a step that takes its thread to another place than the compare-exchange
  have hgo : ∀ pc, pc ≠ .unlockCas → ∀ u, Function.update m.pc t pc u = .unlockCas →
      u ≠ t ∧ m.pc u = .unlockCas := by
    intro pc hpc u hu
    rcases eq_or_ne u t with rfl | hne
    · rw [Function.update_self] at hu
      exact absurd hu hpc
    · rw [Function.update_of_ne hne] at hu
      exact ⟨hne, hu⟩
  intro u hu hholds
  cases heff with
  | callLock ht => exact h u (hgo _ (by decide) u hu).2 hholds
  | callUnlock ht => exact h u (hgo _ (by decide) u hu).2 hholds
  | win ht hlock =>
    obtain ⟨hne, hpc⟩ := hgo _ (by decide) u hu
    have hsame : Function.update m.holds t true u = m.holds u := Function.update_of_ne hne _ _
    exact absurd ⟨ht, hlock, u, hpc, hsame.symm.trans hholds⟩ hok.2
  | lose ht hlock => exact h u (hgo _ (by decide) u hu).2 hholds
  | sleep ht hlock => exact h u (hgo _ (by decide) u hu).2 hholds
  | again ht hlock => exact h u (hgo _ (by decide) u hu).2 hholds
  | stray ht => exact h u (hgo _ (by decide) u hu).2 hholds
  | own ht => exact h u (hgo _ (by decide) u hu).2 hholds
  | pass ht htid =>
    rcases eq_or_ne u t with rfl | hne
    · exact lock_eq_unlock fun hlock => hok.1 ⟨ht, htid, hholds, hlock⟩
    · exact h u ((Function.update_of_ne hne _ _).symm.trans hu) hholds
  | refuse ht htid => exact h u (hgo _ (by decide) u hu).2 hholds
  | release ht hlock => rfl
  | fail ht hlock => exact hlock
  | wake ht htarget =>
    rename_i target
    cases target with
    | none => exact h u (hgo _ (by decide) u hu).2 hholds
    | some v =>
      refine h u (hgo .outside (by decide) u ?_).2 hholds
      -- whoever is woken goes to `mutex_lock`
      rcases eq_or_ne u v with rfl | hne
      · have hwoken : (Function.update m.pc t .outside u).wake = .unlockCas :=
          (Function.update_self ..).symm.trans hu
        cases hpc : Function.update m.pc t .outside u <;> rw [hpc] at hwoken <;>
          first | rfl | exact Pc.noConfusion hwoken
      · exact (Function.update_of_ne hne _ _).symm.trans hu

/-- The compare-exchange of `mutex_unlock` leaves the word at `STATUS_UNLOCK`. -/
lemma exists_unlockCas (ht : m.pc t = .unlockCas) :
    ∃ m', step m (t, .go) = some m' ∧ m'.lock = .unlock := by
  unfold step mutexUnlock
  simp only [ht]
  split_ifs with hlock
  · exact ⟨_, rfl, rfl⟩
  · exact ⟨_, rfl, lock_eq_unlock hlock⟩

/-- The word is the holder's exactly where no stale owner is at its compare-exchange. -/
lemma onlyHolderUnlocks_iff : m.OnlyHolderUnlocks ↔ m.NoStaleOwner := by
  constructor
  · intro h t ht hholds
    obtain ⟨m', hst, hlock⟩ := exists_unlockCas ht
    exact (h t m' ht hholds hst).symm.trans hlock
  · intro h t m' ht hholds hst
    obtain ⟨m'', hst', hlock⟩ := exists_unlockCas ht
    obtain rfl := Option.some.inj (hst.symm.trans hst')
    exact hlock.trans (h t ht hholds).symm

/-- A step of the other kinds brings a stale owner to its compare-exchange. -/
lemma not_noStaleOwner (hok : ¬ m.ownersOnly (t, choice)) (heff : Effect m t choice m') :
    ¬ m'.NoStaleOwner := by
  intro h
  rw [ownersOnly, not_and_or, not_not, not_not] at hok
  rcases hok with ⟨ht, htid, hholds, hlock⟩ | ⟨ht, hlock, u, hu, hholds⟩
  · cases heff with
    | pass _ _ =>
      have hfree := h t (Function.update_self ..) hholds
      exact Status.noConfusion (hlock.symm.trans hfree)
    | refuse _ hne => exact hne htid
    | _ ht' => exact Pc.noConfusion (ht.symm.trans ht')
  · have hne : u ≠ t := fun heq => Pc.noConfusion ((heq ▸ hu).symm.trans ht)
    cases heff with
    | win _ _ =>
      exact Status.noConfusion (h u ((Function.update_of_ne hne _ _).trans hu)
        ((Function.update_of_ne hne _ _).trans hholds))
    | lose _ hheld => exact Status.noConfusion (hlock.symm.trans hheld)
    | _ ht' => exact Pc.noConfusion (ht.symm.trans ht')

/-- In every run without those steps, a compare-exchange of `mutex_unlock` by a thread that does not
hold the mutex changes nothing; and after each of those steps there is one that does. -/
theorem only_holder_unlocks :
    (∀ m : Mutex T, Run step ownersOnly init m → m.OnlyHolderUnlocks) ∧
    ∀ (m m' : Mutex T) (e : T × Choice T), step m e = some m' → ¬ m.ownersOnly e →
      ¬ m'.OnlyHolderUnlocks := by
  refine ⟨fun m h => ?_, fun m m' e hst hok => ?_⟩
  · rw [onlyHolderUnlocks_iff]
    exact h.invariant (I := NoStaleOwner) (fun _ ht => Pc.noConfusion ht)
      fun _ _ _ hm hok hst => hm.step hok (effect_of_step hst)
  · rw [onlyHolderUnlocks_iff]
    exact not_noStaleOwner hok (effect_of_step hst)

/-- A second `mutex_unlock` does no harm while nobody else has won the mutex. -/
theorem only_holder_unlocks_twice : ∃ m : Mutex (Fin 2), m.pc 0 = .unlockCas ∧
    m.holds 0 = false ∧ m.OnlyHolderUnlocks := by
  have hrun := Run.get_execWhere step ownersOnly (init : Mutex (Fin 2))
    [(0, .callLock), (0, .go), (0, .go), (0, .callUnlock), (0, .go), (0, .go), (0, .wake none),
      (0, .callUnlock), (0, .go)] (by decide)
  exact ⟨_, by decide, by decide, only_holder_unlocks.1 _ hrun⟩

end Mutex

end OsLabs.FutexMutex
