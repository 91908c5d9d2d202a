import OsLabs.Foundation.CondVar
import OsLabs.Foundation.Transition

/-!
# The futex mutex

`lab2/src/4/mutex/mutex.c`: `mutex_lock` and `mutex_unlock` with `futex_wait` and `futex_wake`,
called by any number of threads. Each compare-exchange, each access to `m->tid` and each system call
is a step of its own. `FUTEX_WAIT` puts the thread to sleep if the word is still `STATUS_LOCK` at
that moment; `FUTEX_WAKE` wakes one sleeper if there is one; a sleeper may also wake for no reason.

`holds` is not in the source: it records which threads have won the compare-exchange of `mutex_lock`
and not yet done that of `mutex_unlock`.

The main result is about threads that lock, work and unlock again and again: `mutex_exclusion`.
-/

namespace OsLabs.FutexMutex

open Transition

/-- The values of `m->lock`. -/
inductive Status
  /-- `STATUS_LOCK`, the value that `futex_wait` expects. -/
  | lock
  /-- `STATUS_UNLOCK`. -/
  | unlock
  deriving DecidableEq, Repr

/-- Where a thread is. -/
inductive Pc
  /-- Outside both functions. -/
  | outside
  /-- At the compare-exchange of `mutex_lock`. -/
  | lockCas
  /-- At the system call of `futex_wait`. -/
  | futexWait
  /-- Asleep in `futex_wait`. -/
  | asleep
  /-- At `m->tid = gettid()`. -/
  | writeTid
  /-- At the comparison with `m->tid` in `mutex_unlock`. -/
  | checkTid
  /-- At the compare-exchange of `mutex_unlock`. -/
  | unlockCas
  /-- At the system call of `futex_wake`. -/
  | futexWake
  deriving DecidableEq, Repr

/-- The mutex and the positions of all threads, which are named by their thread ids. -/
structure Mutex (T : Type) where
  lock : Status
  /-- `NO_TID` or a thread id. -/
  tid : Option T
  pc : T → Pc
  holds : T → Bool

/-- What the code does not decide: which function is called, which thread `FUTEX_WAKE` wakes, and
when a thread is woken for no reason. -/
inductive Choice (T : Type)
  | callLock
  | callUnlock
  | wakeUp
  | wake (target : Option T)
  | go
  deriving DecidableEq, Repr

namespace Pc

/-- The thread sleeps. -/
def isAsleep : Pc → Bool
  | .asleep => true
  | _ => false

/-- The thread is awake in `mutex_lock` and has not won, or is going to call `futex_wake`. -/
def isPending : Pc → Bool
  | .lockCas | .futexWait | .futexWake => true
  | _ => false

/-- What a wake-up does to a thread. -/
def wake : Pc → Pc
  | .asleep => .lockCas
  | pc => pc

/-- What a wake-up does to a sleeping thread. -/
lemma wake_asleep (pc : Pc) (h : pc.isAsleep = true) :
    pc.wake.isAsleep = false ∧ pc.wake.isPending = true ∧ pc.isPending = false := by
  cases pc <;> first | exact ⟨rfl, rfl, rfl⟩ | exact Bool.noConfusion h

end Pc

namespace Mutex

variable {T : Type} [DecidableEq T] [Fintype T]

/-- `mutex_init`, with all threads outside. -/
def init : Mutex T := ⟨.unlock, none, fun _ => .outside, fun _ => false⟩

/-- The thread is at another place. -/
def goTo (m : Mutex T) (t : T) (pc : Pc) : Mutex T := { m with pc := Function.update m.pc t pc }

/-- The next step of `mutex_lock` in a thread. -/
def mutexLock (m : Mutex T) (t : T) (choice : Choice T) : Option (Mutex T) :=
  match m.pc t, choice with
  | .lockCas, .go =>
    if m.lock = .unlock then
      some { m.goTo t .writeTid with lock := .lock, holds := Function.update m.holds t true }
    else some (m.goTo t .futexWait)
  | .futexWait, .go => some (m.goTo t (if m.lock = .lock then .asleep else .lockCas))
  | .asleep, .wakeUp => some (m.goTo t .lockCas)
  | .writeTid, .go => some { m.goTo t .outside with tid := some t }
  | _, _ => none

/-- The next step of `mutex_unlock` in a thread. -/
def mutexUnlock (m : Mutex T) (t : T) (choice : Choice T) : Option (Mutex T) :=
  match m.pc t, choice with
  | .checkTid, .go => some (m.goTo t (if m.tid = some t then .unlockCas else .outside))
  | .unlockCas, .go =>
    if m.lock = .lock then
      some { m.goTo t .futexWake with lock := .unlock, holds := Function.update m.holds t false }
    else some { m.goTo t .outside with holds := Function.update m.holds t false }
  | .futexWake, .wake target =>
    if maySignal (fun u => (m.pc u).isAsleep) target then
      some { m with pc := deliver Pc.wake (Function.update m.pc t .outside) target }
    else none
  | _, _ => none

/-- A thread makes a step; `none` where that is not possible. -/
def step (m : Mutex T) (e : T × Choice T) : Option (Mutex T) :=
  match m.pc e.1, e.2 with
  | .outside, .callLock => some (m.goTo e.1 .lockCas)
  | .outside, .callUnlock => some (m.goTo e.1 .checkTid)
  | .lockCas, _ | .futexWait, _ | .asleep, _ | .writeTid, _ => m.mutexLock e.1 e.2
  | .checkTid, _ | .unlockCas, _ | .futexWake, _ => m.mutexUnlock e.1 e.2
  | .outside, _ => none

/-- Threads that call `mutex_lock` and `mutex_unlock` in turn. -/
def inTurn (m : Mutex T) (e : T × Choice T) : Prop :=
  match e.2 with
  | .callLock => m.holds e.1 = false
  | .callUnlock => m.holds e.1 = true
  | _ => True

instance (m : Mutex T) (e : T × Choice T) : Decidable (m.inTurn e) := by
  unfold inTurn
  split <;> infer_instance

variable {m m' : Mutex T} {t u : T} {choice : Choice T}

/-- Everything that a step of a thread can be. -/
inductive Effect (m : Mutex T) (t : T) : Choice T → Mutex T → Prop
  | callLock (ht : m.pc t = .outside) : Effect m t .callLock (m.goTo t .lockCas)
  | callUnlock (ht : m.pc t = .outside) : Effect m t .callUnlock (m.goTo t .checkTid)
  | win (ht : m.pc t = .lockCas) (hlock : m.lock = .unlock) : Effect m t .go
      { m.goTo t .writeTid with lock := .lock, holds := Function.update m.holds t true }
  | lose (ht : m.pc t = .lockCas) (hlock : m.lock = .lock) : Effect m t .go (m.goTo t .futexWait)
  | sleep (ht : m.pc t = .futexWait) (hlock : m.lock = .lock) : Effect m t .go (m.goTo t .asleep)
  | again (ht : m.pc t = .futexWait) (hlock : m.lock = .unlock) : Effect m t .go (m.goTo t .lockCas)
  | stray (ht : m.pc t = .asleep) : Effect m t .wakeUp (m.goTo t .lockCas)
  | own (ht : m.pc t = .writeTid) : Effect m t .go { m.goTo t .outside with tid := some t }
  | pass (ht : m.pc t = .checkTid) (htid : m.tid = some t) : Effect m t .go (m.goTo t .unlockCas)
  | refuse (ht : m.pc t = .checkTid) (htid : m.tid ≠ some t) : Effect m t .go (m.goTo t .outside)
  | release (ht : m.pc t = .unlockCas) (hlock : m.lock = .lock) : Effect m t .go
      { m.goTo t .futexWake with lock := .unlock, holds := Function.update m.holds t false }
  | fail (ht : m.pc t = .unlockCas) (hlock : m.lock = .unlock) : Effect m t .go
      { m.goTo t .outside with holds := Function.update m.holds t false }
  | wake (ht : m.pc t = .futexWake) {target : Option T}
      (htarget : maySignal (fun u => (m.pc u).isAsleep) target) : Effect m t (.wake target)
      { m with pc := deliver Pc.wake (Function.update m.pc t .outside) target }

omit [DecidableEq T] [Fintype T] in
/-- The word has one of two values. -/
lemma lock_eq_lock (h : m.lock ≠ .unlock) : m.lock = .lock := by
  cases hlock : m.lock with
  | lock => rfl
  | unlock => exact absurd hlock h

omit [DecidableEq T] [Fintype T] in
/-- The word has one of two values. -/
lemma lock_eq_unlock (h : m.lock ≠ .lock) : m.lock = .unlock := by
  cases hlock : m.lock with
  | lock => exact absurd hlock h
  | unlock => rfl

/-- The steps of `mutex_lock`. -/
lemma effect_of_mutexLock (h : m.mutexLock t choice = some m') : Effect m t choice m' := by
  unfold mutexLock at h
  split at h
  next ht =>
    split_ifs at h with hlock <;> cases h
    · exact .win ht hlock
    · exact .lose ht (lock_eq_lock hlock)
  next ht =>
    split_ifs at h with hlock <;> cases h
    · exact .sleep ht hlock
    · exact .again ht (lock_eq_unlock hlock)
  next ht =>
    cases h
    exact .stray ht
  next ht =>
    cases h
    exact .own ht
  next => cases h

/-- The steps of `mutex_unlock`. -/
lemma effect_of_mutexUnlock (h : m.mutexUnlock t choice = some m') : Effect m t choice m' := by
  unfold mutexUnlock at h
  split at h
  next ht =>
    split_ifs at h with htid <;> cases h
    · exact .pass ht htid
    · exact .refuse ht htid
  next ht =>
    split_ifs at h with hlock <;> cases h
    · exact .release ht hlock
    · exact .fail ht (lock_eq_unlock hlock)
  next target ht =>
    split_ifs at h with htarget
    cases h
    exact .wake ht htarget
  next => cases h

/-- Every step is one of those in the list. -/
lemma effect_of_step {e : T × Choice T} (h : step m e = some m') : Effect m e.1 e.2 m' := by
  obtain ⟨t, choice⟩ := e
  unfold step at h
  dsimp only at h ⊢
  split at h
  next ht =>
    cases h
    exact .callLock ht
  next ht =>
    cases h
    exact .callUnlock ht
  all_goals first | exact effect_of_mutexLock h | exact effect_of_mutexUnlock h | cases h

/-! ## Wake-ups -/

/-- While the mutex is free and a thread sleeps, some thread is awake in `mutex_lock` or going to
call `futex_wake`. -/
def SomebodyGoes (m : Mutex T) : Prop :=
  WakeUpLaw (census m.pc Pc.isAsleep) (if m.lock = .unlock then 1 else 0)
    (census m.pc Pc.isPending)

/-- Every step keeps the law about wake-ups, whoever makes it. -/
lemma SomebodyGoes.step (h : m.SomebodyGoes) (heff : Effect m t choice m') : m'.SomebodyGoes := by
  unfold SomebodyGoes at h ⊢
  cases heff with
  | callLock ht =>
    refine h.update (by rw [ht]; rfl) ?_
    rw [ht]
    exact Int.add_le_add_left (by decide) _
  | callUnlock ht => exact h.update (by rw [ht]; rfl) (by rw [ht]; rfl)
  | win ht hlock =>
    refine h.update (by rw [ht]; rfl) ?_
    rw [ht, hlock]
    rfl
  | lose ht hlock => exact h.update (by rw [ht]; rfl) (by rw [ht]; rfl)
  | sleep ht hlock =>
    refine .of_le ?_
    show (if m.lock = .unlock then 1 else 0) ≤ _
    rw [hlock]
    exact Int.natCast_nonneg _
  | again ht hlock => exact h.update (by rw [ht]; rfl) (by rw [ht]; rfl)
  | stray ht =>
    refine h.update (by rw [ht]; decide) ?_
    rw [ht]
    exact Int.add_le_add_left (by decide) _
  | own ht => exact h.update (by rw [ht]; rfl) (by rw [ht]; rfl)
  | pass ht htid => exact h.update (by rw [ht]; rfl) (by rw [ht]; rfl)
  | refuse ht htid => exact h.update (by rw [ht]; rfl) (by rw [ht]; rfl)
  | release ht hlock =>
    refine h.update (by rw [ht]; rfl) ?_
    rw [ht, hlock]
    rfl
  | fail ht hlock => exact h.update (by rw [ht]; rfl) (by rw [ht]; rfl)
  | wake ht htarget => exact h.signal htarget (by rw [ht]; rfl) rfl Pc.wake_asleep

/-! ## Exclusion -/

/-- What the place of a thread that locks and unlocks in turn says. -/
def Fits (m : Mutex T) (t : T) : Prop :=
  match m.pc t with
  | .outside => m.holds t = true → m.tid = some t
  | .writeTid => m.holds t = true
  | .checkTid | .unlockCas => m.holds t = true ∧ m.tid = some t
  | .lockCas | .futexWait | .asleep | .futexWake => m.holds t = false

/-- The invariant of threads that lock and unlock in turn. -/
structure Exclusive (m : Mutex T) : Prop where
  /-- At most one thread has won and not yet released. -/
  unique : ∀ t u, m.holds t = true → m.holds u = true → t = u
  /-- The word says whether there is one. -/
  locked : m.lock = .lock ↔ ∃ t, m.holds t = true
  fits : ∀ t, m.Fits t

omit [DecidableEq T] [Fintype T] in
/-- The place of a thread fits as before when nothing changes that it speaks about. -/
lemma fits_congr (h : m.Fits u) (hpc : m'.pc u = m.pc u) (hholds : m'.holds u = m.holds u)
    (htid : m'.tid = m.tid) : m'.Fits u := by
  unfold Fits at h ⊢
  rw [hpc, hholds, htid]
  exact h

omit [DecidableEq T] [Fintype T] in
/-- The place of a thread that does not hold the mutex fits without regard to the owner. -/
lemma fits_of_not_holds (h : m.Fits u) (hu : m.holds u = false) (hpc : m'.pc u = m.pc u)
    (hholds : m'.holds u = m.holds u) : m'.Fits u := by
  unfold Fits at h ⊢
  rw [hpc, hholds]
  rw [hu] at h ⊢
  split at h <;> first | exact fun heq => Bool.noConfusion heq | exact Bool.noConfusion h |
    exact Bool.noConfusion h.1 | rfl

namespace Exclusive

omit [DecidableEq T] [Fintype T] in
/-- The mutex after `mutex_init`. -/
lemma init : Exclusive (Mutex.init : Mutex T) where
  unique := fun _ _ h => Bool.noConfusion h
  locked := ⟨fun h => Status.noConfusion h, fun ⟨_, h⟩ => Bool.noConfusion h⟩
  fits := fun _ h => Bool.noConfusion h

omit [DecidableEq T] [Fintype T] in
/-- While a thread holds the mutex, the others do not. -/
lemma not_holds (h : Exclusive m) (ht : m.holds t = true) (hu : u ≠ t) : m.holds u = false :=
  Bool.eq_false_iff.mpr fun hholds => hu (h.unique u t hholds ht)

omit [DecidableEq T] [Fintype T] in
/-- Nobody holds a free mutex. -/
lemma nobody (h : Exclusive m) (hlock : m.lock = .unlock) (u : T) : m.holds u = false :=
  Bool.eq_false_iff.mpr fun hu => Status.noConfusion (hlock.symm.trans (h.locked.mpr ⟨u, hu⟩))

omit [Fintype T] in
/-- A step that changes the place of one thread only. -/
lemma goTo (h : Exclusive m) {pc : Pc} (ht : (m.goTo t pc).Fits t) :
    Exclusive (m.goTo t pc) := by
  refine ⟨h.unique, h.locked, fun u => ?_⟩
  rcases eq_or_ne u t with rfl | hu
  · exact ht
  · exact fits_congr (h.fits u) (Function.update_of_ne hu _ _) rfl rfl

omit [Fintype T] in
/-- A wake-up is delivered. -/
lemma wakeUp (h : Exclusive m) (u : T) : Exclusive (m.goTo u (m.pc u).wake) := by
  refine h.goTo ?_
  have hfits := h.fits u
  unfold Fits at hfits ⊢
  rw [show (m.goTo u (m.pc u).wake).pc u = (m.pc u).wake from Function.update_self ..]
  cases hpc : m.pc u <;> rw [hpc] at hfits <;> exact hfits

omit [Fintype T] in
/-- A thread wins the compare-exchange of `mutex_lock`. -/
lemma win (h : Exclusive m) (hlock : m.lock = .unlock) :
    Exclusive { m.goTo t .writeTid with
      lock := .lock, holds := Function.update m.holds t true } := by
  have honly : ∀ u, Function.update m.holds t true u = true → u = t := by
    intro u hu
    by_contra hne
    rw [Function.update_of_ne hne, h.nobody hlock u] at hu
    exact Bool.noConfusion hu
  have ht : Function.update m.holds t true t = true := Function.update_self ..
  refine ⟨fun u v hu hv => (honly u hu).trans (honly v hv).symm, iff_of_true rfl ⟨t, ht⟩,
    fun u => ?_⟩
  rcases eq_or_ne u t with rfl | hu
  · simp [Fits, Mutex.goTo]
  · exact fits_congr (h.fits u) (Function.update_of_ne hu _ _) (Function.update_of_ne hu _ _) rfl

omit [Fintype T] in
/-- The winner writes its thread id. -/
lemma own (h : Exclusive m) (ht : m.pc t = .writeTid) :
    Exclusive { m.goTo t .outside with tid := some t } := by
  have hholds : m.holds t = true := by simpa [Fits, ht] using h.fits t
  refine ⟨h.unique, h.locked, fun u => ?_⟩
  rcases eq_or_ne u t with rfl | hu
  · simp [Fits, Mutex.goTo]
  · exact fits_of_not_holds (h.fits u) (h.not_holds hholds hu) (Function.update_of_ne hu _ _) rfl

omit [Fintype T] in
/-- The holder gives the mutex back. -/
lemma release (h : Exclusive m) (ht : m.pc t = .unlockCas) :
    Exclusive { m.goTo t .futexWake with
      lock := .unlock, holds := Function.update m.holds t false } := by
  have hholds : m.holds t = true ∧ m.tid = some t := by simpa [Fits, ht] using h.fits t
  have hnone : ∀ u, Function.update m.holds t false u = false := by
    intro u
    rcases eq_or_ne u t with rfl | hu
    · exact Function.update_self ..
    · rw [Function.update_of_ne hu]
      exact h.not_holds hholds.1 hu
  refine ⟨fun u v hu => Bool.noConfusion ((hnone u).symm.trans hu),
    iff_of_false Status.noConfusion fun ⟨u, hu⟩ => Bool.noConfusion ((hnone u).symm.trans hu),
    fun u => ?_⟩
  rcases eq_or_ne u t with rfl | hu
  · simp [Fits, Mutex.goTo]
  · exact fits_congr (h.fits u) (Function.update_of_ne hu _ _) (Function.update_of_ne hu _ _) rfl

/-- Every step of threads that lock and unlock in turn keeps the invariant. -/
lemma step (h : Exclusive m) (hturn : m.inTurn (t, choice)) (heff : Effect m t choice m') :
    Exclusive m' := by
  have hfits := h.fits t
  unfold Fits at hfits
  cases heff with
  | callLock ht =>
    have hholds : m.holds t = false := hturn
    exact h.goTo (by simpa [Fits, Mutex.goTo] using hholds)
  | callUnlock ht =>
    rw [ht] at hfits
    have hholds : m.holds t = true := hturn
    exact h.goTo (by simpa [Fits, Mutex.goTo] using ⟨hholds, hfits hholds⟩)
  | win ht hlock => exact h.win hlock
  | lose ht hlock =>
    rw [ht] at hfits
    exact h.goTo (by simpa [Fits, Mutex.goTo] using hfits)
  | sleep ht hlock =>
    rw [ht] at hfits
    exact h.goTo (by simpa [Fits, Mutex.goTo] using hfits)
  | again ht hlock =>
    rw [ht] at hfits
    exact h.goTo (by simpa [Fits, Mutex.goTo] using hfits)
  | stray ht =>
    rw [ht] at hfits
    exact h.goTo (by simpa [Fits, Mutex.goTo] using hfits)
  | own ht => exact h.own ht
  | pass ht htid =>
    rw [ht] at hfits
    exact h.goTo (by simpa [Fits, Mutex.goTo] using hfits)
  | refuse ht htid =>
    -- the owner is never refused
    rw [ht] at hfits
    exact absurd hfits.2 htid
  | release ht hlock => exact h.release ht
  | fail ht hlock =>
    -- the word is still what the holder has made it
    rw [ht] at hfits
    exact Bool.noConfusion ((h.nobody hlock t).symm.trans hfits.1)
  | wake ht htarget =>
    rename_i target
    rw [ht] at hfits
    have hleft : Exclusive (m.goTo t .outside) :=
      h.goTo (by simpa [Fits, Mutex.goTo] using fun heq => Bool.noConfusion (hfits.symm.trans heq))
    cases target with
    | none => exact hleft
    | some v => exact hleft.wakeUp v

end Exclusive

/-! ## Main result -/

/-- Between the return of `mutex_lock` and the compare-exchange of `mutex_unlock`. -/
def InCriticalSection (m : Mutex T) (t : T) : Prop :=
  m.holds t = true ∧ (m.pc t = .outside ∨ m.pc t = .checkTid ∨ m.pc t = .unlockCas)

/-- For threads that lock and unlock in turn: at most one is in the critical section, the comparison
with the owner succeeds for whoever makes it, and while a thread sleeps, another one holds the
mutex, or has released it and not yet called `futex_wake`, or is awake in `mutex_lock`. -/
theorem mutex_exclusion {m : Mutex T} (h : Run step inTurn init m) :
    (∀ t u, m.InCriticalSection t → m.InCriticalSection u → t = u) ∧
    (∀ t, m.pc t = .checkTid → m.tid = some t) ∧
    ∀ t, m.pc t = .asleep → ∃ u, u ≠ t ∧ (m.holds u = true ∨ m.pc u = .futexWake ∨
      m.pc u = .lockCas ∨ m.pc u = .futexWait ∨ m.pc u = .writeTid) := by
  obtain ⟨hex, hlaw⟩ : m.Exclusive ∧ m.SomebodyGoes := by
    refine h.invariant (I := fun m => m.Exclusive ∧ m.SomebodyGoes)
      ⟨Exclusive.init, .of_awake fun _ => rfl⟩ fun m e m' hm hturn hst => ?_
    have heff := effect_of_step hst
    exact ⟨hm.1.step hturn heff, hm.2.step heff⟩
  refine ⟨fun t u ht hu => hex.unique t u ht.1 hu.1, fun t ht => ?_, fun t ht => ?_⟩
  · have hfits := hex.fits t
    rw [Fits, ht] at hfits
    exact hfits.2
  · have hfits := hex.fits t
    rw [Fits, ht] at hfits
    cases hlock : m.lock with
    | lock =>
      obtain ⟨u, hu⟩ := hex.locked.mp hlock
      refine ⟨u, fun heq => ?_, Or.inl hu⟩
      rw [heq] at hu
      exact Bool.noConfusion (hfits.symm.trans hu)
    | unlock =>
      have hpos := hlaw (census_pos (t := t) (by rw [ht]; rfl))
      rw [hlock, if_pos rfl] at hpos
      obtain ⟨u, hu⟩ := exists_of_census_pos (by omega : 0 < census m.pc Pc.isPending)
      refine ⟨u, fun heq => ?_, ?_⟩
      · rw [heq, ht] at hu
        exact Bool.noConfusion hu
      · cases hpc : m.pc u <;> rw [hpc] at hu <;> first | exact Bool.noConfusion hu | simp

/-- One of two threads has released the mutex and not yet called `futex_wake`, the other sleeps. -/
theorem mutex_exclusion_sleeper : ∃ m : Mutex (Fin 2), m.pc 1 = .asleep ∧ m.lock = .unlock ∧
    (∀ t u, m.InCriticalSection t → m.InCriticalSection u → t = u) ∧
    (∀ t, m.pc t = .checkTid → m.tid = some t) ∧
    ∀ t, m.pc t = .asleep → ∃ u, u ≠ t ∧ (m.holds u = true ∨ m.pc u = .futexWake ∨
      m.pc u = .lockCas ∨ m.pc u = .futexWait ∨ m.pc u = .writeTid) := by
  have hrun := Run.get_execWhere step inTurn (init : Mutex (Fin 2))
    [(0, .callLock), (0, .go), (0, .go), (1, .callLock), (1, .go), (1, .go), (0, .callUnlock),
      (0, .go), (0, .go)] (by decide)
  exact ⟨_, by decide, by decide, mutex_exclusion hrun⟩

end Mutex

end OsLabs.FutexMutex
