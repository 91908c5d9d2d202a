import OsLabs.BoundedQueue.SemaphoreReaderWriter

/-!
# The end of the program over the semaphores

`main` of `queue_threads.c` cancels the reader and the writer and joins them.  A thread ends at
`pthread_testcancel`, outside the functions of the queue, or in `sem_wait`, which is a cancellation
point.  There a thread has neither the mutex nor a node nor a unit of the semaphores, so the queue
that `main` is going to destroy is whole.

`queue_destroy` of this queue takes the address of a pointer to the queue, where `main` passes the
pointer itself.  The program of this module ends with that call; what the function does when it gets
what it expects is said by `queueDestroy`.
-/

namespace OsLabs.BoundedQueue

open Transition Channel

namespace SemPhase

/-- A cancellation takes effect at `pthread_testcancel` and in `sem_wait`. -/
def cancellationPoint : SemPhase → Bool
  | .outside | .waitEmpty _ | .waitFull => true
  | _ => false

/-- How many steps are left of the call. -/
def toDo : SemPhase → ℕ
  | .outside => 0
  | .addStart _ => 7
  | .waitEmpty _ => 6
  | .allocating _ => 5
  | .addLock _ _ => 4
  | .linking _ _ => 3
  | .postFull => 2
  | .addUnlock => 1
  | .getStart => 6
  | .waitFull => 5
  | .getLock => 4
  | .taking => 3
  | .postEmpty => 2
  | .getUnlock => 1

/-- A call has seven steps behind its beginning, or less. -/
lemma toDo_le (p : SemPhase) : p.toDo ≤ 7 := by
  unfold toDo
  split <;> omega

/-- At a cancellation point a thread has nothing. -/
lemma of_cancellationPoint {p : SemPhase} (h : p.cancellationPoint = true) :
    p.reserves = false ∧ p.hasLinked = false ∧ p.claims = false ∧ p.hasTaken = false ∧
      p.holds = false ∧ p.node = none := by
  cases p <;> first | exact ⟨rfl, rfl, rfl, rfl, rfl, rfl⟩ | cases h

end SemPhase

namespace SemQueue

/-- `queue_destroy` with the address of a pointer to the queue, up to the release of `queue_t`
itself: what is left of the nodes. -/
def queueDestroy {T : Type} (s : SemQueue T) : Option (Heap QNode) :=
  if s.lock.isSome then none else s.list.freeNodes

/-- The end of the threads, and the queue that `main` is going to destroy. -/
def ends : EndCalls (SemQueue Side) (SemQueue Side) where
  live s := s.failure.isNone
  cancellable s side := (s.phase side).cancellationPoint
  destroy s := some s

/-- The queue is as between two calls, and `queue_destroy` would leave nothing. -/
structure Whole (capacity : ℕ) (s : SemQueue Side) : Prop where
  unlocked : s.lock = none
  units : s.empty + s.full = capacity
  length : ∃ l, s.list.Represents l ∧ s.full = l.length
  destroy : ∃ nodes, s.queueDestroy = some nodes ∧ nodes.Owns []

variable {s s' : SemQueue Side} {side : Side} {choice : SemChoice} {p : SemPhase}

/-- How many steps are left of the call of a thread, while the program runs. -/
def toDo (s : SemQueue Side) (side : Side) : ℕ :=
  if s.failure.isSome then 0 else (s.phase side).toDo

/-- The steps of the place are an upper bound. -/
lemma toDo_le_phase (s : SemQueue Side) (side : Side) : s.toDo side ≤ (s.phase side).toDo := by
  unfold toDo
  split_ifs
  · exact Nat.zero_le _
  · exact Nat.le_refl _

/-- When both threads have ended, the queue is whole. -/
lemma Runs.whole {capacity : ℕ} {l : List (ℕ × ℤ)} (h : Runs capacity s l)
    (hall : ∀ side, (s.phase side).cancellationPoint = true) : Whole capacity s := by
  have hnothing := fun side => SemPhase.of_cancellationPoint (hall side)
  have hlock : s.lock = none := by
    rcases Option.eq_none_or_eq_some s.lock with hlock | ⟨u, hlock⟩
    · exact hlock
    · have hholds := (h.invariant.guarded u).mpr hlock
      rw [(hnothing u).2.2.2.2.1] at hholds
      cases hholds
  have hempty := h.invariant.balanced.empty
  have hfull := h.invariant.balanced.full
  rw [census_eq_zero fun side => (hnothing side).1,
    census_eq_zero fun side => (hnothing side).2.2.2.1] at hempty
  rw [census_eq_zero fun side => (hnothing side).2.1,
    census_eq_zero fun side => (hnothing side).2.2.1] at hfull
  have hnodes : s.newNodes = [] := by
    unfold newNodes
    rw [(hnothing .writer).2.2.2.2.2]
    rfl
  have hown := h.memory
  rw [hnodes] at hown
  refine ⟨hlock, by omega, ⟨l, h.invariant.represents, by omega⟩, ?_⟩
  obtain ⟨nodes, hfree, hnone⟩ := hown.freeNodes fun _ _ => List.not_mem_nil
  refine ⟨nodes, ?_, hnone⟩
  unfold queueDestroy
  rw [hlock]
  exact hfree

/-- A step of a thread in its call is one of those that are left. -/
lemma toDo_step (hst : SemQueue.step sideRole s (side, choice) = some s')
    (hcall : choice.isCall = false) : s'.toDo side + 1 ≤ s.toDo side := by
  unfold SemQueue.step at hst
  split_ifs at hst with hf
  have hs : s.toDo side = (s.phase side).toDo := if_neg hf
  have hgo : ∀ p, s'.phase = Function.update s.phase side p →
      p.toDo + 1 ≤ (s.phase side).toDo → s'.toDo side + 1 ≤ s.toDo side := by
    intro p hphase hlt
    have hle := toDo_le_phase s' side
    rw [hphase, Function.update_self] at hle
    omega
  have habort : ∀ failure, some { s with failure := some failure } = some s' →
      1 ≤ (s.phase side).toDo → s'.toDo side + 1 ≤ s.toDo side := by
    intro failure heq hpos
    cases heq
    rw [hs]
    exact hpos
  cases side with
  | writer =>
    replace hst : s.queueAdd .writer choice = some s' := hst
    unfold queueAdd at hst
    split at hst
    next => cases hcall
    next val ht =>
      split_ifs at hst
      · cases hst
        exact hgo _ rfl (by rw [ht]; exact Nat.le_refl 7)
      · exact habort _ hst (by rw [ht]; exact Nat.succ_pos _)
    next val ht =>
      split_ifs at hst
      cases hst
      exact hgo _ rfl (by rw [ht]; exact Nat.le_refl 6)
    next val new ht =>
      obtain ⟨list, -, rfl⟩ := Option.map_eq_some_iff.mp hst
      exact hgo _ rfl (by rw [ht]; exact Nat.le_refl 5)
    next val ht => exact habort _ hst (by rw [ht]; exact Nat.succ_pos _)
    next new val ht =>
      split_ifs at hst
      cases hst
      exact hgo _ rfl (by rw [ht]; exact Nat.le_refl 4)
    next new val ht =>
      split at hst
      next => exact habort _ hst (by rw [ht]; exact Nat.succ_pos _)
      next =>
        cases hst
        exact hgo _ rfl (by rw [ht]; exact Nat.le_refl 3)
    next ht =>
      cases hst
      exact hgo _ rfl (by rw [ht]; exact Nat.le_refl 2)
    next ht =>
      cases hst
      exact hgo _ rfl (by rw [ht]; exact Nat.le_refl 1)
    next => cases hst
  | reader =>
    replace hst : s.queueGet .reader choice = some s' := hst
    unfold queueGet at hst
    split at hst
    next => cases hcall
    next ht =>
      split_ifs at hst
      · cases hst
        exact hgo _ rfl (by rw [ht]; exact Nat.le_refl 6)
      · exact habort _ hst (by rw [ht]; exact Nat.succ_pos _)
    next ht =>
      split_ifs at hst
      cases hst
      exact hgo _ rfl (by rw [ht]; exact Nat.le_refl 5)
    next ht =>
      split_ifs at hst
      cases hst
      exact hgo _ rfl (by rw [ht]; exact Nat.le_refl 4)
    next ht =>
      split at hst
      next => exact habort _ hst (by rw [ht]; exact Nat.succ_pos _)
      next =>
        cases hst
        exact hgo _ rfl (by rw [ht]; exact Nat.le_refl 3)
    next ht =>
      cases hst
      exact hgo _ rfl (by rw [ht]; exact Nat.le_refl 2)
    next ht =>
      cases hst
      exact hgo _ rfl (by rw [ht]; exact Nat.le_refl 1)
    next => cases hst

/-- A step of a thread does not move another one, and leaves no more to do for it. -/
lemma others_step {new old : List ℤ} {u : Side}
    (hst : SemQueue.step sideRole s (side, choice) = some s') (hgoes : Goes s s' side p new old)
    (hu : u ≠ side) : s'.toDo u ≤ s.toDo u ∧ s'.phase u = s.phase u := by
  have hphase : s'.phase u = s.phase u := by rw [hgoes.phase, Function.update_of_ne hu]
  refine ⟨?_, hphase⟩
  have hle := toDo_le_phase s' u
  unfold SemQueue.step at hst
  split_ifs at hst with hf
  have hs : s.toDo u = (s.phase u).toDo := if_neg hf
  rw [hs, ← hphase]
  exact hle

/-- A thread in a call does not begin another one. -/
lemma isCall_of_step (hst : SemQueue.step sideRole s (side, choice) = some s')
    (hside : s.phase side ≠ .outside) : choice.isCall = false := by
  cases choice with
  | malloc | go => rfl
  | call val => exact absurd (goes_call hst).1 hside

/-- A thread that is not at a cancellation point can go on, or another one can. -/
lemma exists_inside {capacity : ℕ} {l : List (ℕ × ℤ)} (h : Runs capacity s l)
    (hfail : s.failure = none) (hside : (s.phase side).cancellationPoint = false) :
    ∃ u choice s' outcome, (s.phase u).cancellationPoint = false ∧
      calls.step s u choice = some (s', outcome) ∧ s'.failure = none := by
  have hgo : ∀ u, (s.phase u).cancellationPoint = false → ¬ s.Blocked u →
      ∃ u choice s' outcome, (s.phase u).cancellationPoint = false ∧
        calls.step s u choice = some (s', outcome) ∧ s'.failure = none := by
    intro u hu hfree
    obtain ⟨choice, s', hst, hfail'⟩ := h.invariant.exists_step hfail hfree
    have hout : s.phase u ≠ .outside := by
      intro hout
      rw [hout] at hu
      cases hu
    exact ⟨u, choice, s', _, hu, calls_step hst (isCall_of_step hst hout), hfail'⟩
  rcases Option.eq_none_or_eq_some s.lock with hlock | ⟨u, hlock⟩
  · apply hgo side hside
    intro hblocked
    rcases Invariant.waits_of_blocked hlock hblocked with ⟨val, ht, -⟩ | ⟨ht, -⟩
    · rw [ht] at hside
      cases hside
    · rw [ht] at hside
      cases hside
  · -- the holder of the mutex is not blocked
    have hholds := (h.invariant.guarded u).mpr hlock
    apply hgo u
    · rw [← Bool.not_eq_true]
      intro hpoint
      rw [(SemPhase.of_cancellationPoint hpoint).2.2.2.2.1] at hholds
      cases hholds
    · unfold Blocked
      cases hphase : s.phase u <;> rw [hphase] at hholds <;> first | cases hholds; done | exact id

/-- The queue can be closed. -/
def closing (capacity : ℕ) : Closing (spec capacity) ends (Whole capacity) where
  toDo := toDo
  bound := 7
  toDo_le _ := Nat.le_trans (toDo_le_phase _ _) (SemPhase.toDo_le _)
  call := by
    intro s s' side val u _ hst hu
    obtain ⟨-, x, -, p, -, hgoes⟩ := goes_call hst
    exact congrArg SemPhase.cancellationPoint (others_step hst hgoes hu).2
  step := by
    intro s s' side choice outcome _ hst
    replace hst : (if choice.isCall then none
      else (SemQueue.step sideRole s (side, choice)).map fun s' =>
        (s', SemPhase.outcome (s'.taken.getLastD noValue) (s.phase side) (s'.phase side))) =
          some (s', outcome) := hst
    split_ifs at hst with hcall
    obtain ⟨t, ht, heq⟩ := Option.map_eq_some_iff.mp hst
    cases heq
    have hinside := Bool.eq_false_iff.mpr hcall
    obtain ⟨p, new, old, hgoes, -⟩ := effect_step ht hinside
    refine ⟨toDo_step ht hinside, ?_⟩
    intro u hu
    obtain ⟨htodo, hphase⟩ := others_step ht hgoes hu
    exact ⟨htodo, congrArg SemPhase.cancellationPoint hphase⟩
  exists_step := by
    rintro s side ⟨l, hl⟩ hlive hside
    obtain ⟨u, choice, s', outcome, hu, hst, hfail⟩ :=
      exists_inside hl (Option.isNone_iff_eq_none.mp hlive) hside
    exact ⟨u, choice, s', outcome, hu, hst, Option.isNone_iff_eq_none.mpr hfail⟩
  destroy := by
    rintro s ⟨l, hl⟩ - hall
    exact ⟨s, rfl, hl.whole hall⟩

/-- The program with its main thread. -/
abbrev programStep : Program (SemQueue Side) ℤ (SemQueue Side) → ProgramEvent SemChoice →
    Option (Program (SemQueue Side) ℤ (SemQueue Side)) :=
  Program.step calls ends nextInt noValue

/-- In every run of the program: the reader prints no `ERROR`.  Until `main` calls `queue_destroy`,
some thread can make a step with which the program goes on, unless a `malloc` has failed.  Once both
threads are to be cancelled, at most nineteen steps are left.  The queue that `main` destroys is
whole. -/
theorem semaphore_program_ends {capacity : ℕ} {s : Program (SemQueue Side) ℤ (SemQueue Side)}
    (h : Reachable programStep (Program.init (SemQueue.init capacity) 0 noValue) s) :
    s.pair.errors = 0 ∧
    (s.pair.channel.failure = none → s.main ≠ .returned →
      ∃ e s', programStep s e = some s' ∧ s'.pair.channel.failure = none) ∧
    ((∀ side, s.main.cancelled side = true) → ∀ es s',
      execWhere programStep anyStep s es = some s' → es.length ≤ 19) ∧
    (s.main = .returned → ∃ d, s.destroyed = some d ∧ Whole capacity d) := by
  have hinit : (spec capacity).Inv (SemQueue.init capacity) := ⟨[], .init capacity⟩
  obtain ⟨herrors, hstep, hbound, hreturned⟩ :=
    Program.ends_of_run (closing capacity) hinit (fun _ => rfl) rfl rfl h
  refine ⟨herrors, ?_, hbound, hreturned⟩
  intro hfail hmain
  obtain ⟨e, s', hst, hlive⟩ := hstep (Option.isNone_iff_eq_none.mpr hfail) hmain
  exact ⟨e, s', hst, Option.isNone_iff_eq_none.mp hlive⟩

/-- The writer is cancelled while it waits for a free place. -/
theorem semaphore_program_ends_waiting : ∃ s : Program (SemQueue Side) ℤ (SemQueue Side),
    s.main = .returned ∧ s.pair.channel.phase .writer = .waitEmpty 1 ∧
    s.pair.errors = 0 ∧
    (s.pair.channel.failure = none → s.main ≠ .returned →
      ∃ e s', programStep s e = some s' ∧ s'.pair.channel.failure = none) ∧
    ((∀ side, s.main.cancelled side = true) → ∀ es s',
      execWhere programStep anyStep s es = some s' → es.length ≤ 19) ∧
    (s.main = .returned → ∃ d, s.destroyed = some d ∧ Whole 1 d) := by
  have hrun := Run.get_execWhere programStep anyStep
    (Program.init (SemQueue.init (1 : ℕ)) 0 noValue)
    [.loop .writer none, .loop .writer (some .go), .loop .writer (some .go),
      .loop .writer (some (.malloc (some 0))), .loop .writer (some .go),
      .loop .writer (some .go), .loop .writer (some .go), .loop .writer (some .go),
      .loop .writer none, .loop .writer (some .go), .main, .main, .cancel .reader,
      .cancel .writer, .main, .main, .main] (by decide)
  exact ⟨_, by decide, by decide, semaphore_program_ends hrun⟩

end SemQueue

end OsLabs.BoundedQueue
