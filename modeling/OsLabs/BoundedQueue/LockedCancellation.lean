import OsLabs.BoundedQueue.LockedReaderWriter

/-!
# The end of the program over a mutex and over a spinlock

`main` of `queue_threads.c` cancels the reader and the writer, joins them and destroys the queue.  A
thread ends at `pthread_testcancel`, which is in its loop outside the functions of the queue:
neither `pthread_mutex_lock` nor the spinlock is a cancellation point.  So no thread ends with the
lock, and `queue_destroy` takes it and frees the nodes.

The beginning of a call stands for the return from `pthread_testcancel`: a thread that is to be
cancelled does not return from it.  The thread that prints the statistics is not part of the model.
-/

namespace OsLabs.BoundedQueue

open Transition Channel

/-- `queue_destroy`, up to the release of `queue_t` itself: what is left of the nodes.  It does not
give the lock back. -/
def Queue.queueDestroy {T : Type} {L : LockImpl T} (q : Queue L) (t : T) : Option (Heap QNode) :=
  (L.lock t q.lock).bind fun held => (q.acquire held).list.freeNodes

namespace CallPlace

/-- How many steps are left of the call. -/
def toDo : CallPlace → ℕ
  | .outside => 0
  | .addLock _ | .getLock _ => 3
  | .addBody _ | .getBody _ => 2
  | .unlocking _ => 1

/-- A call has three steps behind its beginning. -/
lemma toDo_le (p : CallPlace) : p.toDo ≤ 3 := by
  unfold toDo
  split <;> omega

end CallPlace

namespace LockedQueue

variable {L : LockImpl (Option Side)} {s s' : LockedQueue L} {side : Side} {t : Option Side}
  {choice : CallChoice}

/-- The end of the threads and of the queue. -/
def ends (L : LockImpl (Option Side)) : EndCalls (LockedQueue L) (Heap QNode) where
  live s := s.failure.isNone
  cancellable s side := decide (s.place (some side) = .outside)
  destroy s := s.queue.queueDestroy none

/-- How many steps are left of the call of a thread, while the program runs. -/
def toDo (s : LockedQueue L) (side : Side) : ℕ :=
  if s.failure.isSome then 0 else (s.place (some side)).toDo

/-- The steps of the place are an upper bound. -/
lemma toDo_le_place (s : LockedQueue L) (side : Side) :
    s.toDo side ≤ (s.place (some side)).toDo := by
  unfold toDo
  split_ifs
  · exact Nat.zero_le _
  · exact Nat.le_refl _

/-- A step of a thread in its call is one of those that are left. -/
lemma toDo_step (hst : LockedQueue.step s (some side, choice) = some s')
    (hcall : choice.isCall = false) : s'.toDo side + 1 ≤ s.toDo side := by
  unfold LockedQueue.step at hst
  split_ifs at hst with hf
  have hs : s.toDo side = (s.place (some side)).toDo := if_neg hf
  have hgo : ∀ p, s'.place = Function.update s.place (some side) p →
      p.toDo + 1 ≤ (s.place (some side)).toDo → s'.toDo side + 1 ≤ s.toDo side := by
    intro p hplace hlt
    have hle := toDo_le_place s' side
    rw [hplace, Function.update_self] at hle
    omega
  unfold advance at hst
  dsimp only at hst
  split at hst
  next => cases hcall
  next => cases hcall
  next val ht =>
    apply hgo _ (Goes.lock hst).place
    rw [ht]
    exact Nat.le_refl 3
  next val answer ht =>
    obtain ⟨result, -, rfl⟩ := Option.map_eq_some_iff.mp hst
    cases result with
    | error failure =>
      rw [hs, ht]
      exact Nat.le_succ 1
    | ok r =>
      apply hgo _ rfl
      rw [ht]
      exact Nat.le_refl 2
  next val ht =>
    apply hgo _ (Goes.lock hst).place
    rw [ht]
    exact Nat.le_refl 3
  next val ht =>
    split at hst
    next =>
      cases hst
      rw [hs, ht]
      exact Nat.le_succ 1
    next =>
      cases hst
      apply hgo _ rfl
      rw [ht]
      exact Nat.le_refl 2
  next entry ht =>
    cases hst
    apply hgo _ rfl
    rw [ht]
    exact Nat.le_refl 1
  next => cases hst

/-- A step of a thread does not move another one, and leaves no more to do for it. -/
lemma others_step {p : CallPlace} {entries : List Entry} {u : Side}
    (hst : LockedQueue.step s (some side, choice) = some s')
    (hgoes : Goes s s' (some side) p entries) (hu : u ≠ side) :
    s'.toDo u ≤ s.toDo u ∧ s'.place (some u) = s.place (some u) := by
  have hplace : s'.place (some u) = s.place (some u) := by
    rw [hgoes.place, Function.update_of_ne (Option.some_injective _ |>.ne hu)]
  refine ⟨?_, hplace⟩
  have hle := toDo_le_place s' u
  unfold LockedQueue.step at hst
  split_ifs at hst with hf
  have hs : s.toDo u = (s.place (some u)).toDo := if_neg hf
  rw [hs, ← hplace]
  exact hle

/-- When both threads have ended, `queue_destroy` takes the lock and frees all nodes. -/
lemma Runs.exists_destroy {capacity : ℕ} (h : Runs capacity s)
    (hout : ∀ side, s.place (some side) = .outside) :
    ∃ nodes, s.queue.queueDestroy none = some nodes ∧ nodes.Owns [] := by
  have hnone : ∀ t, (s.place t).holds = false := by
    intro t
    cases t with
    | none =>
      rw [h.main]
      rfl
    | some side =>
      rw [hout side]
      rfl
  have hfree : s.queue.lock = L.free := by
    rcases h.invariant.exclusive with ⟨hfree, -⟩ | ⟨t, -, ht⟩
    · exact hfree
    · have hholds := (ht t).mpr rfl
      rw [hnone t] at hholds
      cases hholds
  obtain ⟨held, hheld⟩ := Invariant.exists_lock none hfree
  obtain ⟨l, hl⟩ := h.memory
  obtain ⟨nodes, hnodes, hown⟩ := hl.freeNodes fun _ _ => List.not_mem_nil
  exact ⟨nodes, Option.bind_eq_some_iff.mpr ⟨held, hheld, hnodes⟩, hown⟩

/-- The queue can be closed. -/
def closing (hL : L.Excludes) (capacity : ℕ) :
    Closing (spec hL capacity) (ends L) (fun nodes => nodes.Owns []) where
  toDo := toDo
  bound := 3
  toDo_le _ := Nat.le_trans (toDo_le_place _ _) (CallPlace.toDo_le _)
  call := by
    intro s s' side val u h hst hu
    obtain ⟨-, p, -, -, hgoes⟩ := goes_call hst
    show decide _ = decide _
    rw [(others_step hst hgoes hu).2]
  step := by
    intro s s' side choice outcome h hst
    replace hst : (if choice.isCall then none
      else (LockedQueue.step s (some side, choice)).map fun s' =>
        (s', CallPlace.outcome (s.place (some side)) (s'.place (some side)))) =
          some (s', outcome) := hst
    split_ifs at hst with hcall
    obtain ⟨t, ht, heq⟩ := Option.map_eq_some_iff.mp hst
    cases heq
    have hinside := Bool.eq_false_iff.mpr hcall
    obtain ⟨p, entries, hgoes, -, -⟩ := effect_step ht hinside (h.role side)
    refine ⟨toDo_step ht hinside, ?_⟩
    intro u hu
    obtain ⟨htodo, hplace⟩ := others_step ht hgoes hu
    refine ⟨htodo, ?_⟩
    show decide _ = decide _
    rw [hplace]
  exists_step := by
    intro s side h hlive hside
    have hfail : s.failure = none := Option.isNone_iff_eq_none.mp hlive
    obtain ⟨l, hl⟩ := h.exists_refines
    obtain ⟨t, choice, s', ht, hst, hfail'⟩ :=
      h.invariant.exists_step hl.holds hfail (of_decide_eq_false hside)
    cases t with
    | none => exact absurd h.main ht
    | some u =>
      exact ⟨u, choice, s', _, decide_eq_false ht, calls_step hst (isCall_of_step hst ht),
        Option.isNone_iff_eq_none.mpr hfail'⟩
  destroy := by
    intro s h _ hall
    exact h.exists_destroy fun side => of_decide_eq_true (hall side)

/-- The program with its main thread. -/
abbrev programStep (L : LockImpl (Option Side)) : Program (LockedQueue L) ℤ (Heap QNode) →
    ProgramEvent CallChoice → Option (Program (LockedQueue L) ℤ (Heap QNode)) :=
  Program.step (calls L) (ends L) nextInt noValue

/-- What a reachable state of the program looks like. -/
structure ComesToItsEnd (s : Program (LockedQueue L) ℤ (Heap QNode)) : Prop where
  errors : s.pair.errors = 0
  /-- Until `main` has returned, some thread can make a step with which the program goes on, unless
  a `malloc` has failed. -/
  exists_step : s.pair.channel.failure = none → s.main ≠ .returned →
    ∃ e s', programStep L s e = some s' ∧ s'.pair.channel.failure = none
  /-- Once both threads are to be cancelled, at most eleven steps are left. -/
  bounded : (∀ side, s.main.cancelled side = true) → ∀ es s',
    execWhere (programStep L) anyStep s es = some s' → es.length ≤ 11
  /-- When `main` has returned, no node is allocated. -/
  returned : s.main = .returned → ∃ nodes, s.destroyed = some nodes ∧ nodes.Owns []

/-- The same for every lock that excludes. -/
lemma comesToItsEnd_of_reachable (hL : L.Excludes) {capacity : ℕ}
    {s : Program (LockedQueue L) ℤ (Heap QNode)}
    (h : Reachable (programStep L) (Program.init (init L capacity) 0 noValue) s) :
    ComesToItsEnd s := by
  obtain ⟨herrors, hstep, hbound, hreturned⟩ := Program.ends_of_run (closing hL capacity)
    (.init L capacity) (fun _ => rfl) rfl rfl h
  refine ⟨herrors, ?_, hbound, hreturned⟩
  intro hfail hmain
  obtain ⟨e, s', hst, hlive⟩ := hstep (Option.isNone_iff_eq_none.mpr hfail) hmain
  exact ⟨e, s', hst, Option.isNone_iff_eq_none.mp hlive⟩

/-- In every run of the program over the queue under the mutex, or the one under the spinlock. -/
theorem locked_program_ends {capacity : ℕ} :
    (∀ s, Reachable (programStep (pthreadMutex (Option Side)))
      (Program.init (init _ capacity) 0 noValue) s → ComesToItsEnd s) ∧
    ∀ s, Reachable (programStep (mySpinlock (Option Side)))
      (Program.init (init _ capacity) 0 noValue) s → ComesToItsEnd s :=
  ⟨fun _ hs => comesToItsEnd_of_reachable (pthreadMutex_excludes _) hs,
    fun _ hs => comesToItsEnd_of_reachable (mySpinlock_excludes _) hs⟩

/-- The writer is cancelled in a call and ends behind it; the value that the reader has not taken is
freed. -/
theorem locked_program_ends_in_call :
    ∃ s : Program (LockedQueue (pthreadMutex (Option Side))) ℤ (Heap QNode),
      s.main = .returned ∧ s.pair.channel.log = [.add 0 1] ∧ ComesToItsEnd s := by
  have hrun := Run.get_execWhere (programStep (pthreadMutex (Option Side))) anyStep
    (Program.init (init _ (1 : ℕ)) 0 noValue)
    [.loop .writer none, .main, .main, .cancel .reader, .loop .writer (some .go), .main,
      .loop .writer (some (.malloc (some 0))), .loop .writer (some .go), .cancel .writer, .main,
      .main] (by decide)
  exact ⟨_, by decide, by decide, locked_program_ends.1 _ hrun⟩

end LockedQueue

end OsLabs.BoundedQueue
