import OsLabs.BoundedQueue.CondvarQueue

/-!
# Shutdown of the queue with two condition variables

`queue_threads.c` over `queue_condvar/queue.c`: a reader and a writer work in endless loops until
`main` cancels both with `pthread_cancel`, joins them and calls `queue_destroy`, which takes
`q->mutex`.

Cancellation is deferred.  It takes effect at the `pthread_testcancel` at the head of a loop, where
the thread ends at once; or in `pthread_cond_wait`, where the thread first takes the mutex again and
then ends.  No clean-up handler is installed, so in the second case nobody gives the mutex back.

The model puts the two loops, the cancellation and `main` over the model of the queue.  The values
that the writer adds are arbitrary, as the program does not branch on them.
-/

namespace OsLabs.BoundedQueue

open Transition

/-! ## The way of a thread to a cancellation point -/

namespace CvPhase

/-- The thread is in `pthread_cond_wait`, asleep or on the way out. -/
def inWait : CvPhase → Bool
  | .addAsleep _ | .addWoken _ | .getAsleep | .getWoken => true
  | _ => false

/-- The thread is at `pthread_testcancel` or sleeps in `pthread_cond_wait`. -/
def cancellationPoint : CvPhase → Bool
  | .outside | .addAsleep _ | .getAsleep => true
  | _ => false

/-- The thread is at the `pthread_mutex_lock` of its function. -/
def locking : CvPhase → Bool
  | .addLock _ | .getLock => true
  | _ => false

/-- How many steps of its own the holder of the mutex makes before it gives it back, at most. -/
def toDo : CvPhase → ℕ
  | .addTest _ | .getTest => 4
  | .addBody _ | .getBody => 3
  | .addSignal | .getSignal => 2
  | .unlocking _ => 1
  | _ => 0

/-- A wake-up of a thread that was woken changes nothing. -/
lemma wake_wake (p : CvPhase) : p.wake.wake = p.wake := by
  cases p <;> rfl

/-- A wake-up concerns only threads that sleep. -/
lemma wake_of_not_point {p : CvPhase} (hp : p.cancellationPoint = false) : p.wake = p := by
  cases p <;> first | rfl | exact Bool.noConfusion hp

/-- A thread at `pthread_mutex_lock` is at no cancellation point. -/
lemma not_point_of_locking {p : CvPhase} (hp : p.locking = true) :
    p.cancellationPoint = false ∧ p.inWait = false := by
  cases p <;> first | exact ⟨rfl, rfl⟩ | exact Bool.noConfusion hp

/-- A thread in `pthread_cond_wait` does not hold the mutex, and stays there when it is woken. -/
lemma of_inWait {p : CvPhase} (hp : p.inWait = true) :
    p.holds = false ∧ p.wake.inWait = true := by
  cases p <;> first | exact ⟨rfl, rfl⟩ | exact Bool.noConfusion hp

end CvPhase

namespace CvQueue

variable {T : Type} [DecidableEq T] [Fintype T] {role : T → Role} {maxCount : ℤ}
  {s s' : CvQueue T} {l : List (ℕ × ℤ)} {t u : T} {choice : CvChoice T}

/-- A step of a writer is one of `queue_add`. -/
lemma step_producer (hfail : s.failure = none) (hrole : role t = .producer) (choice : CvChoice T) :
    step role s (t, choice) = s.queueAdd t choice := by
  simp only [step, hfail, hrole, Option.isSome_none, Bool.false_eq_true, if_false]

/-- A step of a reader is one of `queue_get`. -/
lemma step_consumer (hfail : s.failure = none) (hrole : role t = .consumer) (choice : CvChoice T) :
    step role s (t, choice) = s.queueGet t choice := by
  simp only [step, hfail, hrole, Option.isSome_none, Bool.false_eq_true, if_false]

/-- What the holder of the mutex achieves with a step: it is nearer to the end of its function, or
it has given the mutex back and is at a cancellation point. -/
def Advances (s s' : CvQueue T) (t : T) : Prop :=
  s'.failure = none ∧
    ((s'.phase t).holds = true ∧ (s'.phase t).toDo < (s.phase t).toDo ∨
      s'.lock = none ∧ (s'.phase t).cancellationPoint = true)

namespace Advances

variable {p : CvPhase}

omit [DecidableEq T] [Fintype T] in
/-- The holder is at a later place and keeps the mutex. -/
lemma of_holds (hfail : s'.failure = none) (hphase : s'.phase t = p) (hholds : p.holds = true)
    (hlt : p.toDo < (s.phase t).toDo) : Advances s s' t :=
  ⟨hfail, Or.inl (by rw [hphase]; exact ⟨hholds, hlt⟩)⟩

omit [DecidableEq T] [Fintype T] in
/-- The holder gives the mutex back and is at a cancellation point. -/
lemma of_free (hfail : s'.failure = none) (hlock : s'.lock = none) (hphase : s'.phase t = p)
    (hpoint : p.cancellationPoint = true) : Advances s s' t :=
  ⟨hfail, Or.inr ⟨hlock, by rw [hphase]; exact hpoint⟩⟩

end Advances

/-- The phases after a signal: the sender is about to return, everybody else is where it was, or
woken. -/
lemma phase_condSignal {asleep : CvPhase → Bool} {target : Option T}
    (hst : s.condSignal t asleep target = some s') :
    s'.failure = s.failure ∧ s'.phase t = .unlocking 1 ∧
      ∀ u, u ≠ t → s'.phase u = s.phase u ∨ s'.phase u = (s.phase u).wake := by
  unfold condSignal at hst
  split_ifs at hst
  obtain rfl := Option.some.inj hst
  refine ⟨rfl, ?_, fun u hu => ?_⟩
  · rcases deliver_eq CvPhase.wake (Function.update s.phase t (.unlocking 1)) target t with h | h
    · exact h.trans (Function.update_self ..)
    · exact h.trans (by rw [Function.update_self]; rfl)
  · have hsame : Function.update s.phase t (.unlocking 1) u = s.phase u :=
      Function.update_of_ne hu ..
    rcases deliver_eq CvPhase.wake (Function.update s.phase t (.unlocking 1)) target u with h | h
    · exact Or.inl (h.trans hsame)
    · exact Or.inr (h.trans (congrArg _ hsame))

/-- A signal can be sent, and its sender is nearer to the end of its function. -/
lemma exists_condSignal (hfail : s.failure = none) (htodo : (s.phase t).toDo = 2)
    (asleep : CvPhase → Bool) :
    ∃ target s', s.condSignal t asleep target = some s' ∧ Advances s s' t := by
  obtain ⟨target, htarget⟩ := exists_maySignal fun u => asleep (s.phase u)
  have hst : s.condSignal t asleep target = some _ := if_pos htarget
  obtain ⟨hfail', hphase, -⟩ := phase_condSignal hst
  exact ⟨target, _, hst, .of_holds (hfail'.trans hfail) hphase rfl (by rw [htodo]; decide)⟩

/-- The holder of the mutex is not blocked: a writer. -/
lemma exists_queueAdd (h : Invariant role maxCount s l) (hfail : s.failure = none)
    (hrole : role t = .producer) (ht : (s.phase t).holds = true) :
    ∃ choice s', s.queueAdd t choice = some s' ∧ Advances s s' t := by
  have hself : ∀ p, Function.update s.phase t p t = p := fun p => Function.update_self ..
  cases hphase : s.phase t with
  | outside | addLock | addAsleep | addWoken | getLock | getAsleep | getWoken =>
    rw [hphase] at ht
    exact Bool.noConfusion ht
  | getTest | getBody | getSignal =>
    have hreader := h.role t .consumer (by rw [hphase]; rfl)
    rw [hrole] at hreader
    cases hreader
  | addTest val =>
    by_cases hfull : s.list.count = s.maxCount
    · refine ⟨.go, s.condWait t (.addAsleep val), ?_, .of_free hfail rfl (hself _) rfl⟩
      simp only [queueAdd, hphase, if_pos hfull]
    · refine ⟨.go, s.goTo t (.addBody val), ?_, .of_holds hfail (hself _) rfl ?_⟩
      · simp only [queueAdd, hphase, if_neg hfull]
      · rw [hphase]
        exact Nat.lt_add_one 3
  | addBody val =>
    have hne : (l.length : ℤ) ≠ maxCount := by simpa [hphase, Fits] using h.fits t
    have hle := h.bound
    have hcount := h.represents.count
    have hcapacity := h.capacity
    obtain ⟨new, hnew⟩ := s.list.nodes.exists_free
    obtain ⟨list, hal⟩ := NodeList.exists_allocate (q := s.list) val hnew
    obtain ⟨list', hlink, -⟩ := h.link hphase hrole hal
    refine ⟨.malloc (some new),
      { s.goTo t .addSignal with list := list', added := s.added ++ [val] }, ?_,
      .of_holds hfail (hself _) rfl ?_⟩
    · simp only [queueAdd, hphase]
      rw [if_neg (by omega), if_neg (by omega), hal, Option.map_some, hlink]
    · rw [hphase]
      exact Nat.lt_add_one 2
  | addSignal =>
    obtain ⟨target, s', hst, hadv⟩ := exists_condSignal (t := t) hfail (by rw [hphase]; rfl)
      CvPhase.readerAsleep
    refine ⟨.signal target, s', ?_, hadv⟩
    simp only [queueAdd, hphase, hst]
  | unlocking result =>
    refine ⟨.go, s.unlockMutex t result, ?_, .of_free hfail rfl (hself _) rfl⟩
    simp only [queueAdd, hphase]

/-- The holder of the mutex is not blocked: a reader. -/
lemma exists_queueGet (h : Invariant role maxCount s l) (hfail : s.failure = none)
    (hrole : role t = .consumer) (ht : (s.phase t).holds = true) :
    ∃ choice s', s.queueGet t choice = some s' ∧ Advances s s' t := by
  have hself : ∀ p, Function.update s.phase t p t = p := fun p => Function.update_self ..
  cases hphase : s.phase t with
  | outside | addLock | addAsleep | addWoken | getLock | getAsleep | getWoken =>
    rw [hphase] at ht
    exact Bool.noConfusion ht
  | addTest | addBody | addSignal =>
    have hwriter := h.role t .producer (by rw [hphase]; rfl)
    rw [hrole] at hwriter
    cases hwriter
  | getTest =>
    by_cases hempty : s.list.count = 0
    · refine ⟨.go, s.condWait t .getAsleep, ?_, .of_free hfail rfl (hself _) rfl⟩
      simp only [queueGet, hphase, if_pos hempty]
    · refine ⟨.go, s.goTo t .getBody, ?_, .of_holds hfail (hself _) rfl ?_⟩
      · simp only [queueGet, hphase, if_neg hempty]
      · rw [hphase]
        decide
  | getBody =>
    have hne : l.length ≠ 0 := by simpa [hphase, Fits] using h.fits t
    have hcount := h.represents.count
    obtain ⟨x, l, rfl⟩ := List.exists_cons_of_length_pos (Nat.pos_of_ne_zero hne)
    obtain ⟨list, htake, -⟩ := h.take hphase hrole
    refine ⟨.go, { s.goTo t .getSignal with list := list, taken := s.taken ++ [x.2] }, ?_,
      .of_holds hfail (hself _) rfl ?_⟩
    · simp only [queueGet, hphase]
      rw [if_neg (by omega), if_neg (by omega), htake]
    · rw [hphase]
      decide
  | getSignal =>
    obtain ⟨target, s', hst, hadv⟩ := exists_condSignal (t := t) hfail (by rw [hphase]; rfl)
      CvPhase.writerAsleep
    refine ⟨.signal target, s', ?_, hadv⟩
    simp only [queueGet, hphase, hst]
  | unlocking result =>
    refine ⟨.go, s.unlockMutex t result, ?_, .of_free hfail rfl (hself _) rfl⟩
    simp only [queueGet, hphase]

/-- The holder of the mutex is not blocked. -/
lemma exists_step_of_holds (h : Invariant role maxCount s l) (hfail : s.failure = none)
    (ht : (s.phase t).holds = true) :
    ∃ choice s', step role s (t, choice) = some s' ∧ Advances s s' t := by
  cases hrole : role t with
  | producer =>
    obtain ⟨choice, s', hst, hadv⟩ := exists_queueAdd h hfail hrole ht
    exact ⟨choice, s', (step_producer hfail hrole choice).trans hst, hadv⟩
  | consumer =>
    obtain ⟨choice, s', hst, hadv⟩ := exists_queueGet h hfail hrole ht
    exact ⟨choice, s', (step_consumer hfail hrole choice).trans hst, hadv⟩

/-- Whoever waits for the mutex takes it as soon as it is free. -/
lemma exists_step_of_free (h : Invariant role maxCount s l) (hfail : s.failure = none)
    (hlock : s.lock = none) (ht : (s.phase t).cancellationPoint = false) :
    ∃ s', step role s (t, .go) = some s' ∧ s'.failure = none ∧ (s'.phase t).holds = true := by
  have hself : ∀ p, Function.update s.phase t p t = p := fun p => Function.update_self ..
  have hfree := (hlock ▸ h.guarded).not_holds t
  have hrole := h.role t
  have htake : ∀ p, p.holds = true →
      ∃ s', s.lockMutex t p = some s' ∧ s'.failure = none ∧ (s'.phase t).holds = true := by
    intro p hp
    refine ⟨{ s.goTo t p with lock := some t }, ?_, hfail, ?_⟩
    · rw [lockMutex, hlock]
      rfl
    · rw [← hp]
      exact congrArg _ (hself p)
  cases hphase : s.phase t with
  | outside | addAsleep | getAsleep =>
    rw [hphase] at ht
    exact Bool.noConfusion ht
  | addTest | addBody | addSignal | getTest | getBody | getSignal | unlocking =>
    rw [hphase] at hfree
    exact Bool.noConfusion hfree
  | addLock val | addWoken val =>
    rw [hphase] at hrole
    obtain ⟨s', hst, hholds⟩ := htake (.addTest val) rfl
    refine ⟨s', ?_, hholds⟩
    rw [step_producer hfail (hrole _ rfl)]
    simp only [queueAdd, hphase, hst]
  | getLock | getWoken =>
    rw [hphase] at hrole
    obtain ⟨s', hst, hholds⟩ := htake .getTest rfl
    refine ⟨s', ?_, hholds⟩
    rw [step_consumer hfail (hrole _ rfl)]
    simp only [queueGet, hphase, hst]

/-- What a step of a thread does to the others and, while the mutex is held by somebody else, to
itself. -/
structure Frame (s s' : CvQueue T) (t : T) : Prop where
  others : ∀ u, u ≠ t → s'.phase u = s.phase u ∨ s'.phase u = (s.phase u).wake
  mutex : (s.phase t).holds = true ∨ s.lock = none ∨
    (s'.lock = s.lock ∧ (s.phase t).locking = false ∧ (s'.phase t).holds = false)

namespace Frame

omit [Fintype T] in
/-- A step that changes the place of the thread only. -/
lemma of_update {p : CvPhase} (hphase : s'.phase = Function.update s.phase t p)
    (hmutex : (s.phase t).holds = true ∨ s.lock = none ∨
      (s'.lock = s.lock ∧ (s.phase t).locking = false ∧ p.holds = false)) : Frame s s' t where
  others u hu := Or.inl (by rw [hphase, Function.update_of_ne hu])
  mutex := by rw [hphase, Function.update_self]; exact hmutex

omit [Fintype T] in
/-- An attempt to take the mutex. -/
lemma of_lockMutex {p : CvPhase} (hst : s.lockMutex t p = some s') : Frame s s' t := by
  unfold lockMutex at hst
  split_ifs at hst with hlock
  obtain rfl := Option.some.inj hst
  exact of_update rfl (Or.inr (Or.inl (by simpa using hlock)))

/-- A signal of the holder. -/
lemma of_condSignal {asleep : CvPhase → Bool} {target : Option T}
    (hst : s.condSignal t asleep target = some s') (ht : (s.phase t).holds = true) :
    Frame s s' t :=
  ⟨(phase_condSignal hst).2.2, Or.inl ht⟩

end Frame

/-- The frame of a step of `queue_add`. -/
lemma frame_queueAdd (hst : s.queueAdd t choice = some s') : Frame s s' t := by
  unfold queueAdd at hst
  split at hst
  next val ht =>
    cases hst
    exact .of_update rfl (Or.inr (Or.inr ⟨rfl, by rw [ht]; rfl, rfl⟩))
  next val ht => exact .of_lockMutex hst
  next val ht =>
    split_ifs at hst <;> cases hst <;> exact .of_update rfl (Or.inl (by rw [ht]; rfl))
  next val ht =>
    cases hst
    exact .of_update rfl (Or.inr (Or.inr ⟨rfl, by rw [ht]; rfl, rfl⟩))
  next val ht => exact .of_lockMutex hst
  next val answer ht =>
    have hholds : (s.phase t).holds = true := by rw [ht]; rfl
    split_ifs at hst
    · cases hst
      exact .of_update rfl (Or.inl hholds)
    · cases answer with
      | none =>
        cases hst
        exact ⟨fun _ _ => Or.inl rfl, Or.inl hholds⟩
      | some new =>
        obtain ⟨list, -, rfl⟩ := Option.map_eq_some_iff.mp hst
        cases list.link new with
        | none => exact ⟨fun _ _ => Or.inl rfl, Or.inl hholds⟩
        | some list => exact .of_update rfl (Or.inl hholds)
    · cases hst
      exact ⟨fun _ _ => Or.inl rfl, Or.inl hholds⟩
  next target ht => exact .of_condSignal hst (by rw [ht]; rfl)
  next result ht =>
    cases hst
    exact .of_update rfl (Or.inl (by rw [ht]; rfl))
  next => cases hst

/-- The frame of a step of `queue_get`. -/
lemma frame_queueGet (hst : s.queueGet t choice = some s') : Frame s s' t := by
  unfold queueGet at hst
  split at hst
  next ht =>
    cases hst
    exact .of_update rfl (Or.inr (Or.inr ⟨rfl, by rw [ht]; rfl, rfl⟩))
  next ht => exact .of_lockMutex hst
  next ht =>
    split_ifs at hst <;> cases hst <;> exact .of_update rfl (Or.inl (by rw [ht]; rfl))
  next ht =>
    cases hst
    exact .of_update rfl (Or.inr (Or.inr ⟨rfl, by rw [ht]; rfl, rfl⟩))
  next ht => exact .of_lockMutex hst
  next ht =>
    have hholds : (s.phase t).holds = true := by rw [ht]; rfl
    split_ifs at hst
    · cases hst
      exact .of_update rfl (Or.inl hholds)
    · cases htake : s.list.takeFirst with
      | none =>
        rw [htake] at hst
        cases hst
        exact ⟨fun _ _ => Or.inl rfl, Or.inl hholds⟩
      | some x =>
        rw [htake] at hst
        cases hst
        exact .of_update rfl (Or.inl hholds)
    · cases hst
      exact ⟨fun _ _ => Or.inl rfl, Or.inl hholds⟩
  next target ht => exact .of_condSignal hst (by rw [ht]; rfl)
  next result ht =>
    cases hst
    exact .of_update rfl (Or.inl (by rw [ht]; rfl))
  next => cases hst

/-- The frame of a step. -/
lemma frame_step (hst : step role s (t, choice) = some s') : Frame s s' t := by
  unfold step at hst
  split_ifs at hst
  cases hrole : role t with
  | producer => rw [hrole] at hst; exact frame_queueAdd hst
  | consumer => rw [hrole] at hst; exact frame_queueGet hst

end CvQueue

/-! ## The threads of the program -/

namespace Shutdown

/-- The two threads that `main` creates. -/
inductive Worker
  | reader
  | writer
  deriving DecidableEq, Repr

/-- The function of the queue that a thread calls in its loop. -/
def Worker.role : Worker → Role
  | .reader => .consumer
  | .writer => .producer

instance : Fintype Worker where
  elems := {.reader, .writer}
  complete w := by cases w <;> decide

/-- What has become of a thread. -/
inductive Fate
  /-- In its loop. -/
  | running
  /-- Cancelled in `pthread_cond_wait`; the mutex is to be taken before the thread ends. -/
  | unwinding
  | ended
  deriving DecidableEq, Repr

/-- Where `main` is, from `sleep` on. -/
inductive MainPhase
  /-- Before `pthread_cancel(rtid)`. -/
  | sleep
  /-- Before `pthread_cancel(wtid)`. -/
  | cancelWriter
  /-- In `pthread_join(rtid, NULL)`. -/
  | joinReader
  /-- In `pthread_join(wtid, NULL)`. -/
  | joinWriter
  /-- At `pthread_mutex_lock` of `queue_destroy`. -/
  | queueDestroy
  /-- Behind it. -/
  | destroying
  deriving DecidableEq, Repr

/-- `pthread_cancel` was called for the thread. -/
def MainPhase.cancelled : MainPhase → Worker → Bool
  | .sleep, _ => false
  | .cancelWriter, .writer => false
  | _, _ => true

/-- `pthread_join` has returned for the thread. -/
def MainPhase.joined : MainPhase → Worker → Bool
  | .joinWriter, .reader => true
  | .queueDestroy, _ => true
  | .destroying, _ => true
  | _, _ => false

/-- The queue with its two threads, and `main`. -/
structure State where
  queue : CvQueue Worker
  fate : Worker → Fate
  main : MainPhase

/-- Who makes the next step. -/
inductive Event
  /-- A thread, in its loop. -/
  | loop (w : Worker) (choice : CvChoice Worker)
  /-- The cancellation of a thread takes effect at its cancellation point. -/
  | cancel (w : Worker)
  /-- A thread that was cancelled in `pthread_cond_wait` takes the mutex and ends. -/
  | unwind (w : Worker)
  | main
  deriving DecidableEq, Repr

namespace State

/-- Both threads are created. -/
def init (maxCount : ℤ) : State :=
  ⟨CvQueue.init maxCount, fun _ => .running, .sleep⟩

/-- A step of a thread in `reader` or `writer`.  With a cancellation pending the thread does not get
past `pthread_testcancel`. -/
def loop (s : State) (w : Worker) (choice : CvChoice Worker) : Option State :=
  if s.fate w ≠ .running ∨ (s.queue.phase w = .outside ∧ s.main.cancelled w = true) then none
  else (CvQueue.step Worker.role s.queue (w, choice)).map fun queue => { s with queue := queue }

/-- A pending cancellation takes effect: at `pthread_testcancel` the thread ends, and in
`pthread_cond_wait` it leaves the queue of the condition variable. -/
def cancel (s : State) (w : Worker) : Option State :=
  if s.fate w ≠ .running ∨ s.main.cancelled w = false then none
  else if s.queue.phase w = .outside then
    some { s with fate := Function.update s.fate w .ended }
  else if (s.queue.phase w).inWait then
    some { s with queue := s.queue.goTo w .outside,
                  fate := Function.update s.fate w .unwinding }
  else none

/-- The end of a thread that was cancelled in `pthread_cond_wait`. -/
def unwind (s : State) (w : Worker) : Option State :=
  if s.fate w ≠ .unwinding then none
  else (s.queue.lockMutex w .outside).map fun queue =>
    { s with queue := queue, fate := Function.update s.fate w .ended }

/-- `main`, up to the `pthread_mutex_lock` of `queue_destroy`. -/
def mainStep (s : State) : Option State :=
  match s.main with
  | .sleep => some { s with main := .cancelWriter }
  | .cancelWriter => some { s with main := .joinReader }
  | .joinReader => if s.fate .reader = .ended then some { s with main := .joinWriter } else none
  | .joinWriter => if s.fate .writer = .ended then some { s with main := .queueDestroy } else none
  | .queueDestroy => if s.queue.lock = none then some { s with main := .destroying } else none
  | .destroying => none

/-- The next step, while the program runs. -/
def step (s : State) (e : Event) : Option State :=
  if s.queue.failure.isSome then none
  else
    match e with
    | .loop w choice => s.loop w choice
    | .cancel w => s.cancel w
    | .unwind w => s.unwind w
    | .main => s.mainStep

/-- A cancellation takes effect outside of `pthread_cond_wait` only. -/
def outsideWait (s : State) : Event → Prop
  | .cancel w => (s.queue.phase w).inWait = false
  | _ => True

instance (s : State) : (e : Event) → Decidable (s.outsideWait e)
  | .cancel w => inferInstanceAs (Decidable ((s.queue.phase w).inWait = false))
  | .loop .. | .unwind _ | .main => isTrue trivial

/-- The invariant of the runs without a cancellation in `pthread_cond_wait`. -/
structure Invariant (maxCount : ℤ) (s : State) : Prop where
  queue : ∃ l, CvQueue.Invariant Worker.role maxCount s.queue l
  fate : ∀ w, s.fate w = .running ∨
    (s.fate w = .ended ∧ s.queue.phase w = .outside ∧ s.main.cancelled w = true)
  joined : ∀ w, s.main.joined w = true → s.fate w = .ended
  aborted : s.queue.failure ≠ none → ∃ w, s.fate w = .running

variable {s s' : State} {w : Worker} {choice : CvChoice Worker} {maxCount : ℤ}

/-! ## Steps -/

namespace Invariant

/-- The threads start. -/
lemma init (hmax : 0 ≤ maxCount) : Invariant maxCount (State.init maxCount) where
  queue := ⟨[], CvQueue.Invariant.init hmax⟩
  fate _ := Or.inl rfl
  joined _ h := Bool.noConfusion h
  aborted h := absurd rfl h

/-- A thread that has ended was cancelled, and was outside of the functions of the queue. -/
lemma of_ended (h : Invariant maxCount s) (hw : s.fate w = .ended) :
    s.queue.phase w = .outside ∧ s.main.cancelled w = true := by
  rcases h.fate w with hrunning | ⟨-, hended⟩
  · rw [hrunning] at hw
    cases hw
  · exact hended

/-- A step of a thread in its loop. -/
lemma loop (h : Invariant maxCount s) (hst : s.loop w choice = some s') :
    Invariant maxCount s' := by
  unfold State.loop at hst
  split_ifs at hst with hw
  rw [not_or, not_not] at hw
  obtain ⟨queue, hqueue, rfl⟩ := Option.map_eq_some_iff.mp hst
  obtain ⟨l, hl⟩ := h.queue
  refine ⟨hl.step hqueue, fun u => ?_, h.joined, fun _ => ⟨w, hw.1⟩⟩
  rcases h.fate u with hrunning | ⟨hended, houtside, hcancelled⟩
  · exact Or.inl hrunning
  · have hne : u ≠ w := by
      rintro rfl
      rw [hw.1] at hended
      cases hended
    refine Or.inr ⟨hended, ?_, hcancelled⟩
    rcases (CvQueue.frame_step hqueue).others u hne with hsame | hwake
    · exact hsame.trans houtside
    · exact hwake.trans (by rw [houtside]; rfl)

/-- A thread ends at `pthread_testcancel`. -/
lemma cancel (h : Invariant maxCount s) (hwait : (s.queue.phase w).inWait = false)
    (hfail : s.queue.failure = none) (hst : s.cancel w = some s') : Invariant maxCount s' := by
  unfold State.cancel at hst
  split_ifs at hst with hw houtside hin
  · rw [not_or, not_not, Bool.not_eq_false] at hw
    obtain rfl := Option.some.inj hst
    refine ⟨h.queue, ?_, ?_, fun hne => absurd hfail hne⟩
    · refine (Function.forall_update_iff s.fate fun u fate => fate = .running ∨
        (fate = .ended ∧ s.queue.phase u = .outside ∧ s.main.cancelled u = true)).mpr ⟨?_, ?_⟩
      · exact Or.inr ⟨rfl, houtside, hw.2⟩
      · exact fun u _ => h.fate u
    · exact (Function.forall_update_iff s.fate fun u fate =>
        s.main.joined u = true → fate = .ended).mpr ⟨fun _ => rfl, fun u _ => h.joined u⟩
  · rw [hwait] at hin
    exact Bool.noConfusion hin

/-- No thread was cancelled in `pthread_cond_wait`. -/
lemma unwind (h : Invariant maxCount s) (w : Worker) : s.unwind w = none := by
  refine if_pos fun hw => ?_
  rcases h.fate w with hrunning | ⟨hended, -⟩
  · rw [hrunning] at hw
    cases hw
  · rw [hended] at hw
    cases hw

/-- `main` goes on. -/
lemma goOn (h : Invariant maxCount s) (p : MainPhase)
    (hcancelled : ∀ u, s.main.cancelled u = true → p.cancelled u = true)
    (hjoined : ∀ u, p.joined u = true → s.fate u = .ended) :
    Invariant maxCount { s with main := p } where
  queue := h.queue
  fate u := (h.fate u).imp_right fun ⟨hended, houtside, hu⟩ => ⟨hended, houtside, hcancelled u hu⟩
  joined := hjoined
  aborted := h.aborted

/-- A step of `main`. -/
lemma mainStep (h : Invariant maxCount s) (hst : s.mainStep = some s') : Invariant maxCount s' := by
  have hjoined := h.joined
  unfold State.mainStep at hst
  split at hst
  next hmain =>
    cases hst
    refine h.goOn .cancelWriter (fun u hu => ?_) fun u hu => ?_
    · rw [hmain] at hu
      exact Bool.noConfusion hu
    · exact Bool.noConfusion hu
  next hmain =>
    cases hst
    exact h.goOn .joinReader (fun _ _ => rfl) fun u hu => Bool.noConfusion hu
  next hmain =>
    split_ifs at hst with hreader
    cases hst
    refine h.goOn .joinWriter (fun _ _ => rfl) fun u hu => ?_
    cases u with
    | reader => exact hreader
    | writer => exact Bool.noConfusion hu
  next hmain =>
    split_ifs at hst with hwriter
    cases hst
    refine h.goOn .queueDestroy (fun _ _ => rfl) fun u _ => ?_
    cases u with
    | reader => exact h.joined .reader (by rw [hmain]; rfl)
    | writer => exact hwriter
  next hmain =>
    split_ifs at hst
    cases hst
    exact h.goOn .destroying (fun _ _ => rfl) fun u _ => h.joined u (by rw [hmain]; rfl)
  next => cases hst

/-- Every step without a cancellation in `pthread_cond_wait` keeps the invariant. -/
lemma step (h : Invariant maxCount s) {e : Event} (hok : s.outsideWait e)
    (hst : s.step e = some s') : Invariant maxCount s' := by
  unfold State.step at hst
  split_ifs at hst with hfail
  have hnone : s.queue.failure = none := by simpa using hfail
  cases e with
  | loop w choice => exact h.loop hst
  | cancel w => exact h.cancel hok hnone hst
  | unwind w => exact (Option.some_ne_none s' (hst.symm.trans (h.unwind w))).elim
  | main => exact h.mainStep hst

/-- Every run without a cancellation in `pthread_cond_wait` keeps the invariant. -/
lemma run (h : Invariant maxCount s) (hrun : Run State.step outsideWait s s') :
    Invariant maxCount s' :=
  hrun.invariant h fun _ _ _ hi hok hst => hi.step hok hst

/-- Whoever holds the mutex is in its loop. -/
lemma running_of_holds (h : Invariant maxCount s) (hw : (s.queue.phase w).holds = true) :
    s.fate w = .running := by
  rcases h.fate w with hrunning | ⟨-, houtside, -⟩
  · exact hrunning
  · rw [houtside] at hw
    exact Bool.noConfusion hw

end Invariant

/-! ## The mutex comes back -/

/-- A step of a thread in a function of the queue. -/
lemma step_loop {queue : CvQueue Worker} (hfail : s.queue.failure = none)
    (hw : s.fate w = .running) (hinside : s.queue.phase w ≠ .outside)
    (hst : CvQueue.step Worker.role s.queue (w, choice) = some queue) :
    s.step (.loop w choice) = some { s with queue := queue } := by
  have hguard : ¬ (s.fate w ≠ .running ∨
      (s.queue.phase w = .outside ∧ s.main.cancelled w = true)) := by
    rintro (hne | ⟨houtside, -⟩)
    · exact hne hw
    · exact hinside houtside
  simp only [step, hfail, Option.isSome_none, Bool.false_eq_true, if_false, State.loop,
    if_neg hguard, hst, Option.map_some]

/-- A run at whose end the mutex is free, while the threads that did not hold it are where they
were, or woken. -/
structure Handover (s s' : State) : Prop where
  run : Run step outsideWait s s'
  failure : s'.queue.failure = none
  fate : s'.fate = s.fate
  main : s'.main = s.main
  free : s'.queue.lock = none
  others : ∀ u, (s.queue.phase u).holds = false →
    s'.queue.phase u = s.queue.phase u ∨ s'.queue.phase u = (s.queue.phase u).wake

namespace Invariant

/-- The holder of the mutex can go on until it gives it back, at a cancellation point. -/
lemma exists_release (h : Invariant maxCount s) (hfail : s.queue.failure = none)
    (hw : (s.queue.phase w).holds = true) :
    ∃ s', Handover s s' ∧ (s'.queue.phase w).cancellationPoint = true := by
  induction hn : (s.queue.phase w).toDo using Nat.strong_induction_on generalizing s with
  | h n ih =>
    obtain ⟨l, hl⟩ := h.queue
    obtain ⟨choice, queue, hqueue, hfail', hadv⟩ := CvQueue.exists_step_of_holds hl hfail hw
    have hinside : s.queue.phase w ≠ .outside := by
      intro houtside
      rw [houtside] at hw
      exact Bool.noConfusion hw
    have hst := step_loop hfail (h.running_of_holds hw) hinside hqueue
    have hrun : Run State.step outsideWait s { s with queue := queue } :=
      Run.tail (e := .loop w choice) .refl trivial hst
    have hothers : ∀ u, (s.queue.phase u).holds = false →
        queue.phase u = s.queue.phase u ∨ queue.phase u = (s.queue.phase u).wake := by
      intro u hu
      refine (CvQueue.frame_step hqueue).others u fun heq => ?_
      rw [heq, hw] at hu
      exact Bool.noConfusion hu
    rcases hadv with ⟨hholds, hlt⟩ | ⟨hfree, hpoint⟩
    · obtain ⟨s', hs', hpoint⟩ := ih _ (hn ▸ hlt) (h.run hrun) hfail' hholds rfl
      refine ⟨s', ⟨hrun.trans hs'.run, hs'.failure, hs'.fate, hs'.main, hs'.free, fun u hu => ?_⟩,
        hpoint⟩
      -- a thread that was woken does not change when it is woken once more
      rcases hothers u hu with hsame | hwake
      · have hother := hs'.others u (hsame ▸ hu)
        rwa [hsame] at hother
      · have hother := hs'.others u (by rw [hwake, (CvQueue.wake_same 0 _).1, hu])
        rw [hwake, CvPhase.wake_wake] at hother
        exact Or.inr (hother.elim id id)
    · exact ⟨_, ⟨hrun, hfail', rfl, rfl, hfree, hothers⟩, hpoint⟩

/-- The mutex can always become free. -/
lemma exists_free (h : Invariant maxCount s) (hfail : s.queue.failure = none) :
    ∃ s', Handover s s' := by
  rcases Option.eq_none_or_eq_some s.queue.lock with hlock | ⟨u, hlock⟩
  · exact ⟨s, .refl, hfail, rfl, rfl, hlock, fun _ _ => Or.inl rfl⟩
  · obtain ⟨l, hl⟩ := h.queue
    obtain ⟨s', hs', -⟩ := h.exists_release hfail ((hl.guarded u).mpr hlock)
    exact ⟨s', hs'⟩

/-- A thread in its loop can reach a cancellation point. -/
lemma exists_cancellationPoint (h : Invariant maxCount s) (hfail : s.queue.failure = none)
    (hw : s.fate w = .running) :
    ∃ s', Run State.step outsideWait s s' ∧ s'.fate w = .running ∧
      (s'.queue.phase w).cancellationPoint = true := by
  by_cases hpoint : (s.queue.phase w).cancellationPoint = true
  · exact ⟨s, .refl, hw, hpoint⟩
  by_cases hholds : (s.queue.phase w).holds = true
  · obtain ⟨s', hs', hpoint'⟩ := h.exists_release hfail hholds
    exact ⟨s', hs'.run, (congrFun hs'.fate w).trans hw, hpoint'⟩
  rw [Bool.not_eq_true] at hpoint hholds
  -- the thread waits for the mutex: others give it back, then it is the turn of this one
  obtain ⟨t, ht⟩ := h.exists_free hfail
  have hphase : t.queue.phase w = s.queue.phase w := by
    rcases ht.others w hholds with hsame | hwake
    · exact hsame
    · exact hwake.trans (CvPhase.wake_of_not_point hpoint)
  have hinv := h.run ht.run
  obtain ⟨l, hl⟩ := hinv.queue
  obtain ⟨queue, hqueue, hfail', hholds'⟩ :=
    CvQueue.exists_step_of_free hl ht.failure ht.free (by rw [hphase]; exact hpoint)
  have hst := step_loop ht.failure ((congrFun ht.fate w).trans hw)
    (fun houtside => by rw [← hphase, houtside] at hpoint; exact Bool.noConfusion hpoint) hqueue
  have hlocked : Run State.step outsideWait s { t with queue := queue } :=
    Run.tail (e := .loop w .go) ht.run trivial hst
  obtain ⟨s', hs', hpoint'⟩ := (h.run hlocked).exists_release hfail' hholds'
  exact ⟨s', hlocked.trans hs'.run, (congrFun (hs'.fate.trans ht.fate) w).trans hw, hpoint'⟩

/-- When both threads have ended, the mutex is free. -/
lemma lock_of_ended (h : Invariant maxCount s) (hended : ∀ w, s.fate w = .ended) :
    s.queue.lock = none := by
  obtain ⟨l, hl⟩ := h.queue
  rcases Option.eq_none_or_eq_some s.queue.lock with hlock | ⟨u, hlock⟩
  · exact hlock
  · have hrunning := h.running_of_holds ((hl.guarded u).mpr hlock)
    rw [hended u] at hrunning
    cases hrunning

/-- When both threads have ended, `main` joins them and takes the mutex. -/
lemma exists_destroying (h : Invariant maxCount s) (hended : ∀ w, s.fate w = .ended) :
    ∃ s', Run State.step outsideWait s s' ∧ s'.main = .destroying := by
  have hfree := h.lock_of_ended hended
  have hfail : s.queue.failure = none := by
    by_contra hne
    obtain ⟨w, hw⟩ := h.aborted hne
    rw [hended w] at hw
    cases hw
  have hgo : ∀ p p', State.mainStep { s with main := p } = some { s with main := p' } →
      Run State.step outsideWait { s with main := p } { s with main := p' } := by
    intro p p' hst
    refine Run.tail (e := .main) .refl trivial ?_
    simp only [State.step, hfail, Option.isSome_none, Bool.false_eq_true, if_false, hst]
  have hdestroy := hgo .queueDestroy .destroying (if_pos hfree)
  have hwriter := (hgo .joinWriter .queueDestroy (if_pos (hended .writer))).trans hdestroy
  have hreader := (hgo .joinReader .joinWriter (if_pos (hended .reader))).trans hwriter
  have hcancelled := (h.of_ended (hended .writer)).2
  refine ⟨{ s with main := .destroying }, ?_, rfl⟩
  obtain ⟨queue, fate, main⟩ := s
  cases main with
  | sleep | cancelWriter => exact Bool.noConfusion hcancelled
  | joinReader => exact hreader
  | joinWriter => exact hwriter
  | queueDestroy => exact hdestroy
  | destroying => exact .refl

end Invariant

/-! ## Main results -/

/-- In every run in which no cancellation takes effect in `pthread_cond_wait`: no thread has ended
with the mutex.  Unless the program was aborted, a thread in its loop can reach a cancellation
point.  When `main` is at the `pthread_mutex_lock` of `queue_destroy`, the mutex is free, and `main`
gets there when both threads have ended. -/
theorem shutdown_of_outsideWait (hmax : 0 ≤ maxCount)
    (h : Run step outsideWait (init maxCount) s) :
    (∀ w, s.fate w = .ended → s.queue.lock ≠ some w) ∧
    (s.queue.failure = none → ∀ w, s.fate w = .running →
      ∃ t, Run step outsideWait s t ∧ t.fate w = .running ∧
        (t.queue.phase w).cancellationPoint = true) ∧
    (s.main = .queueDestroy → s.queue.lock = none) ∧
    ((∀ w, s.fate w = .ended) → ∃ t, Run step outsideWait s t ∧ t.main = .destroying) := by
  have hinv := (Invariant.init hmax).run h
  refine ⟨fun w hw hlock => ?_, fun hfail w hw => hinv.exists_cancellationPoint hfail hw,
    fun hmain => ?_, hinv.exists_destroying⟩
  · obtain ⟨l, hl⟩ := hinv.queue
    have hrunning := hinv.running_of_holds ((hl.guarded w).mpr hlock)
    rw [hw] at hrunning
    cases hrunning
  · exact hinv.lock_of_ended fun w => hinv.joined w (by rw [hmain]; rfl)

/-- A reader and a writer that pass one value, are cancelled at `pthread_testcancel` and joined. -/
theorem shutdown_of_outsideWait_sampleRun :
    ∃ s : State, s.main = .queueDestroy ∧ s.queue.returned = [1, 1] ∧
    (∀ w, s.fate w = .ended → s.queue.lock ≠ some w) ∧
    (s.queue.failure = none → ∀ w, s.fate w = .running →
      ∃ t, Run step outsideWait s t ∧ t.fate w = .running ∧
        (t.queue.phase w).cancellationPoint = true) ∧
    (s.main = .queueDestroy → s.queue.lock = none) ∧
    ((∀ w, s.fate w = .ended) → ∃ t, Run step outsideWait s t ∧ t.main = .destroying) := by
  have hrun := Run.get_execWhere step outsideWait (init 1)
    [.loop .reader (.call 0), .loop .reader .go, .loop .reader .go, .loop .writer (.call 0), .main,
      .loop .writer .go, .loop .writer .go, .loop .writer (.malloc (some 0)),
      .loop .writer (.signal (some .reader)), .loop .writer .go, .main, .cancel .writer,
      .loop .reader .go, .loop .reader .go, .loop .reader .go, .loop .reader (.signal none),
      .loop .reader .go, .cancel .reader, .main, .main] (by decide)
  exact ⟨_, by decide, by decide, shutdown_of_outsideWait (by decide) hrun⟩

/-! ## A cancellation in `pthread_cond_wait` -/

/-- A thread has ended with the mutex, before `main` came to it. -/
structure Abandoned (s : State) (w : Worker) : Prop where
  ended : s.fate w = .ended
  lock : s.queue.lock = some w
  inside : ∀ u, (s.queue.phase u).holds = false
  main : s.main ≠ .destroying

namespace Abandoned

/-- A thread in its loop does not get the mutex. -/
lemma loop (h : s.Abandoned w) {v : Worker} (hst : s.loop v choice = some s') :
    s'.Abandoned w ∧
      ∀ u, (s.queue.phase u).locking = true → s'.queue.phase u = s.queue.phase u := by
  unfold State.loop at hst
  split_ifs at hst
  obtain ⟨queue, hqueue, rfl⟩ := Option.map_eq_some_iff.mp hst
  obtain ⟨hothers, hmutex⟩ := CvQueue.frame_step hqueue
  rcases hmutex with hholds | hfree | ⟨hlock, hlocking, hholds⟩
  · rw [h.inside v] at hholds
    exact Bool.noConfusion hholds
  · exact (Option.some_ne_none w (h.lock.symm.trans hfree)).elim
  refine ⟨⟨h.ended, hlock.trans h.lock, fun u => ?_, h.main⟩, fun u hu => ?_⟩
  · rcases eq_or_ne u v with rfl | hne
    · exact hholds
    · rcases hothers u hne with hsame | hwake
      · exact (congrArg _ hsame).trans (h.inside u)
      · exact (congrArg _ hwake).trans ((CvQueue.wake_same 0 _).1.trans (h.inside u))
  · have hne : u ≠ v := by
      rintro rfl
      rw [hlocking] at hu
      exact Bool.noConfusion hu
    rcases hothers u hne with hsame | hwake
    · exact hsame
    · exact hwake.trans (CvPhase.wake_of_not_point (CvPhase.not_point_of_locking hu).1)

/-- A thread that leaves the functions of the queue does not hold the mutex. -/
lemma holds_goTo_outside (hinside : ∀ u, (s.queue.phase u).holds = false) :
    ∀ u, ((s.queue.goTo w .outside).phase u).holds = false :=
  (Function.forall_update_iff s.queue.phase fun _ p => p.holds = false).mpr
    ⟨rfl, fun u _ => hinside u⟩

/-- A cancellation does not give the mutex back. -/
lemma cancel (h : s.Abandoned w) {v : Worker} (hst : s.cancel v = some s') :
    s'.Abandoned w ∧
      ∀ u, (s.queue.phase u).locking = true → s'.queue.phase u = s.queue.phase u := by
  unfold State.cancel at hst
  split_ifs at hst with hv houtside hin
  all_goals
    rw [not_or, not_not] at hv
    obtain rfl := Option.some.inj hst
    have hne : w ≠ v := by
      rintro rfl
      have hrunning := hv.1
      rw [h.ended] at hrunning
      cases hrunning
  · exact ⟨⟨(Function.update_of_ne hne ..).trans h.ended, h.lock, h.inside, h.main⟩, fun _ _ => rfl⟩
  · refine ⟨⟨(Function.update_of_ne hne ..).trans h.ended, h.lock, holds_goTo_outside h.inside,
      h.main⟩, fun u hu => Function.update_of_ne ?_ ..⟩
    rintro rfl
    rw [(CvPhase.not_point_of_locking hu).2] at hin
    exact Bool.noConfusion hin

/-- A thread that was cancelled in `pthread_cond_wait` does not get the mutex. -/
lemma unwind (h : s.Abandoned w) (v : Worker) : s.unwind v = none := by
  have hblocked : s.queue.lockMutex v .outside = none := by
    rw [CvQueue.lockMutex, h.lock]
    rfl
  rw [State.unwind, hblocked, Option.map_none, ite_self]

/-- `main` does not get the mutex. -/
lemma mainStep (h : s.Abandoned w) (hst : s.mainStep = some s') :
    s'.Abandoned w ∧ s'.queue = s.queue := by
  have hgo : ∀ p, p ≠ .destroying → Abandoned { s with main := p } w :=
    fun p hp => ⟨h.ended, h.lock, h.inside, hp⟩
  have hlock : s.queue.lock ≠ none := by
    rw [h.lock]
    exact Option.some_ne_none w
  unfold State.mainStep at hst
  split at hst
  next => cases hst; exact ⟨hgo _ MainPhase.noConfusion, rfl⟩
  next => cases hst; exact ⟨hgo _ MainPhase.noConfusion, rfl⟩
  next => split_ifs at hst; cases hst; exact ⟨hgo _ MainPhase.noConfusion, rfl⟩
  next => split_ifs at hst; cases hst; exact ⟨hgo _ MainPhase.noConfusion, rfl⟩
  next =>
    rw [if_neg hlock] at hst
    cases hst
  next => cases hst

/-- No step gives the mutex back, and whoever is at `pthread_mutex_lock` stays there. -/
lemma step (h : s.Abandoned w) {e : Event} (hst : s.step e = some s') :
    s'.Abandoned w ∧
      ∀ u, (s.queue.phase u).locking = true → s'.queue.phase u = s.queue.phase u := by
  unfold State.step at hst
  split_ifs at hst
  cases e with
  | loop v choice => exact h.loop hst
  | cancel v => exact h.cancel hst
  | unwind v => exact (Option.some_ne_none s' (hst.symm.trans (h.unwind v))).elim
  | main =>
    obtain ⟨hs', hqueue⟩ := h.mainStep hst
    exact ⟨hs', fun u _ => by rw [hqueue]⟩

/-- From then on the mutex is never given back, and whoever is at `pthread_mutex_lock` stays
there. -/
lemma run (h : s.Abandoned w) (hrun : Reachable State.step s s') :
    s'.Abandoned w ∧
      ∀ u, (s.queue.phase u).locking = true → s'.queue.phase u = s.queue.phase u := by
  induction hrun with
  | refl => exact ⟨h, fun _ _ => rfl⟩
  | tail _ _ hst ih =>
    obtain ⟨ht, hphase⟩ := ih
    obtain ⟨hs', hsame⟩ := ht.step hst
    exact ⟨hs', fun u hu => (hsame u (by rw [hphase u hu]; exact hu)).trans (hphase u hu)⟩

/-- A thread that was cancelled in `pthread_cond_wait` ends with the mutex. -/
lemma of_unwinding (hfail : s.queue.failure = none) (hw : s.fate w = .unwinding)
    (hlock : s.queue.lock = none) (hinside : ∀ u, (s.queue.phase u).holds = false)
    (hmain : s.main ≠ .destroying) : ∃ s', s.step (.unwind w) = some s' ∧ s'.Abandoned w := by
  refine ⟨{ s with queue := { s.queue.goTo w .outside with lock := some w },
                   fate := Function.update s.fate w .ended }, ?_,
    Function.update_self .., rfl, fun u => ?_, hmain⟩
  · simp only [State.step, hfail, Option.isSome_none, Bool.false_eq_true, if_false, State.unwind,
      hw, ne_eq, not_true, CvQueue.lockMutex, hlock, Option.map_some]
  · exact holds_goTo_outside hinside u

/-- A thread that is cancelled in `pthread_cond_wait` can end with the mutex. -/
lemma of_inWait (hfail : s.queue.failure = none) (hw : s.fate w = .running)
    (hcancelled : s.main.cancelled w = true) (hwait : (s.queue.phase w).inWait = true)
    (hlock : s.queue.lock = none) (hinside : ∀ u, (s.queue.phase u).holds = false)
    (hmain : s.main ≠ .destroying) : ∃ s', Reachable State.step s s' ∧ s'.Abandoned w := by
  have hne : s.queue.phase w ≠ .outside := by
    intro houtside
    rw [houtside] at hwait
    exact Bool.noConfusion hwait
  have hcancel : s.step (.cancel w) = some
      { s with queue := s.queue.goTo w .outside,
               fate := Function.update s.fate w .unwinding } := by
    simp only [State.step, hfail, Option.isSome_none, Bool.false_eq_true, if_false, State.cancel,
      hw, ne_eq, not_true, hcancelled, Bool.true_eq_false, or_self, hne, hwait, if_true]
  obtain ⟨s', hunwind, habandoned⟩ :=
    of_unwinding (s := { s with queue := s.queue.goTo w .outside,
                                fate := Function.update s.fate w .unwinding })
      hfail (Function.update_self ..) hlock (holds_goTo_outside hinside) hmain
  exact ⟨s', Run.tail (Run.tail .refl trivial hcancel) trivial hunwind, habandoned⟩

end Abandoned

/-- Wherever a cancellation can take effect in `pthread_cond_wait`, the thread can end with the
mutex; then nobody ever gets the mutex again. -/
theorem abandoned_of_inWait (hmax : 0 ≤ maxCount) (h : Run step outsideWait (init maxCount) s)
    (hfail : s.queue.failure = none) (hw : s.fate w = .running)
    (hcancelled : s.main.cancelled w = true) (hwait : (s.queue.phase w).inWait = true) :
    ∃ t, Reachable step s t ∧ ∀ t', Reachable step t t' →
      t'.fate w = .ended ∧ t'.queue.lock = some w ∧ t'.main ≠ .destroying := by
  have hinv := (Invariant.init hmax).run h
  -- the holder of the mutex gives it back before the cancellation takes effect
  obtain ⟨t, ht⟩ := hinv.exists_free hfail
  obtain ⟨l, hl⟩ := (hinv.run ht.run).queue
  have hinside : ∀ u, (t.queue.phase u).holds = false := (ht.free ▸ hl.guarded).not_holds
  have htwait : (t.queue.phase w).inWait = true := by
    rcases ht.others w (CvPhase.of_inWait hwait).1 with hsame | hwake
    · rw [hsame]
      exact hwait
    · rw [hwake]
      exact (CvPhase.of_inWait hwait).2
  have htmain : t.main ≠ .destroying := by
    intro hmain
    have hended := hinv.joined w (by rw [← ht.main, hmain]; rfl)
    rw [hw] at hended
    cases hended
  obtain ⟨t', hrun, habandoned⟩ := Abandoned.of_inWait ht.failure ((congrFun ht.fate w).trans hw)
    (by rw [ht.main]; exact hcancelled) htwait ht.free hinside htmain
  refine ⟨t', (ht.run.mono fun _ _ _ => trivial).trans hrun, fun t'' hrun' => ?_⟩
  obtain ⟨hlast, -⟩ := habandoned.run hrun'
  exact ⟨hlast.ended, hlast.lock, hlast.main⟩

/-- The reader waits for a value when both threads are cancelled, and ends with the mutex.  The
writer is at `pthread_mutex_lock` of `queue_add` and never gets further, and neither does `main`. -/
theorem shutdown_hangs :
    ∃ s, Reachable step (init 1000000) s ∧ s.fate .reader = .ended ∧
      s.queue.lock = some .reader ∧
      ∀ t, Reachable step s t →
        t.queue.lock = some .reader ∧ t.queue.phase .writer = .addLock 0 ∧
          t.main ≠ .destroying := by
  have hrun := Run.get_execWhere step anyStep (init 1000000)
    [.loop .reader (.call 0), .loop .reader .go, .loop .reader .go, .loop .writer (.call 0), .main,
      .main, .cancel .reader, .unwind .reader, .main] (by decide)
  refine ⟨_, hrun, by decide, by decide, fun t ht => ?_⟩
  obtain ⟨habandoned, hphase⟩ :=
    Abandoned.run (w := .reader) ⟨by decide, by decide, by decide, by decide⟩ ht
  exact ⟨habandoned.lock, hphase .writer (by decide), habandoned.main⟩

end State

end Shutdown

end OsLabs.BoundedQueue
