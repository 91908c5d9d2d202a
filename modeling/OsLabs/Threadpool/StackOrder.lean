import OsLabs.Foundation.StackHistory
import OsLabs.Threadpool.Shutdown

/-!
# The order in which tasks are taken

A push makes its task the `last_task`, and that is the one a worker takes.  So the pool is a stack:
`PoolHistory` records the pushes and the takes of a run in their order, and `pool_is_stack` says
that they are a history of a stack, which holds the chain from `last_task`.  A task is taken only
when every task that was pushed after it has been taken.

The price is `waiting_tasks_starve`: where a new task is pushed before each turn of a worker, the
tasks that wait are never taken, whichever workers have the turns.
-/

namespace OsLabs.Threadpool

open Transition StackHistory

namespace Pool

variable {T W : Type} {p p' : Pool T W} {chain chain' : List (ℕ × W)} {t : T} {e : Event T W}

/-- What a step does to the chain from `last_task` and to the records. -/
inductive ChainStep (p p' : Pool T W) (chain : List (ℕ × W)) : List (ℕ × W) → Prop
  | same (hpushed : p'.pushed = p.pushed) (htaken : p'.taken = p.taken) :
    ChainStep p p' chain chain
  | push (x : ℕ × W) (hpushed : p'.pushed = p.pushed ++ [x.1]) (htaken : p'.taken = p.taken) :
    ChainStep p p' chain (x :: chain)
  | take (x : ℕ × W) {rest : List (ℕ × W)} (t : T) (hchain : chain = x :: rest)
    (hpushed : p'.pushed = p.pushed) (htaken : p'.taken = p.taken ++ [(t, x.1)]) :
    ChainStep p p' chain rest

/-- A step that leaves the tasks alone leaves the chain alone. -/
lemma ChainStep.of_path (hpath : p.tasks.Path Task.prev Task.work p.lastTask chain none)
    (hpath' : p'.tasks.Path Task.prev Task.work p'.lastTask chain' none)
    (htasks : p'.tasks = p.tasks) (hlast : p'.lastTask = p.lastTask)
    (hpushed : p'.pushed = p.pushed) (htaken : p'.taken = p.taken) :
    ChainStep p p' chain chain' := by
  rw [htasks, hlast] at hpath'
  obtain rfl := hpath.unique hpath'
  exact .same hpushed htaken

variable [DecidableEq T] [Fintype T]

/-- What a push does that has memory for its task. -/
lemma exists_of_push (h : Invariant p chain) {work : W} {new : ℕ} {target : Option T}
    (hst : p.threadpoolPushTask work (some new) target = some p') :
    ∃ tasks : Heap (Task W), p' =
        { p with tasks := tasks, lastTask := some new, queueSize := wrap 32 (p.queueSize + 1),
                 idSequence := wrap 32 (p.idSequence + 1), pushed := p.pushed ++ [new],
                 worker := deliver WorkerPc.wake p.worker target } ∧
      tasks.Path Task.prev Task.work (some new) ((new, work) :: chain) none := by
  unfold threadpoolPushTask at hst
  dsimp only at hst
  split_ifs at hst
  obtain ⟨q, hpush, rfl⟩ := Option.map_eq_some_iff.mp hst
  obtain ⟨allocated, hal, -⟩ := Option.bind_eq_some_iff.mp hpush
  obtain ⟨tasks, hpush', hkept, hnode⟩ := h.exists_pushTask work (Heap.alloc_eq_some hal).1
  obtain rfl := Option.some.inj (hpush.symm.trans hpush')
  exact ⟨tasks, rfl, .cons hnode (h.path.congr fun n _ => hkept n)⟩

/-- A push puts its task in front. -/
lemma chainStep_push (h : Invariant p chain) (h' : Invariant p' chain') {work : W}
    {malloc : Option ℕ} {target : Option T}
    (hst : p.threadpoolPushTask work malloc target = some p') : ChainStep p p' chain chain' := by
  cases malloc with
  | none =>
    cases hst
    exact .of_path h.path h'.path rfl rfl rfl rfl
  | some new =>
    obtain ⟨tasks, rfl, hpath⟩ := exists_of_push h hst
    obtain rfl := hpath.unique h'.path
    exact .push (new, work) rfl rfl

/-- A worker takes the task in front, or leaves the chain alone. -/
lemma chainStep_worker (h : Invariant p chain) (h' : Invariant p' chain')
    (hst : p.workerStep t = some p') : ChainStep p p' chain chain' := by
  cases effect_of_workerStep hst with
  | take hpc hstop hlast htask =>
    cases chain with
    | nil =>
      have hnone := h.path.eq_of_nil
      rw [hlast] at hnone
      cases hnone
    | cons x chain =>
      obtain ⟨task', htask', -, hrest⟩ := h.path.head
      obtain rfl := Option.some.inj (hlast.symm.trans h.path.start_eq)
      obtain rfl := Option.some.inj (htask.symm.trans htask')
      obtain rfl := hrest.unique h'.path
      exact .take x t rfl rfl rfl
  | wait | leave | start | finish | crash => exact .of_path h.path h'.path rfl rfl rfl rfl

/-- Every step pushes a task on the chain, takes the first one, or leaves it alone. -/
lemma exists_chainStep (h : Invariant p chain) (hst : step p e = some p') :
    ∃ chain', Invariant p' chain' ∧ ChainStep p p' chain chain' := by
  obtain ⟨chain', h'⟩ := h.step hst
  refine ⟨chain', h', ?_⟩
  unfold step at hst
  split_ifs at hst
  cases e with
  | push work malloc target => exact chainStep_push h h' hst
  | worker t => exact chainStep_worker h h' hst
  | wakeUp t =>
    dsimp only at hst
    split_ifs at hst
    cases hst
    exact .of_path h.path h'.path rfl rfl rfl rfl
  | destroy =>
    cases hst
    exact .of_path h.path h'.path rfl rfl rfl rfl

end Pool

/-! ## The history -/

/-- A pool with the pushes and takes that were made, by the addresses of the tasks. -/
structure PoolHistory (T W : Type) where
  pool : Pool T W
  log : List (Op ℕ)

namespace PoolHistory

variable {T W : Type} [DecidableEq T] [Fintype T] {s s' : PoolHistory T W} {e : Event T W}

/-- Nothing was pushed yet. -/
def init (idSequence : ℤ) : PoolHistory T W := ⟨Pool.init idSequence, []⟩

/-- What a step adds to the records of the pool. -/
def entries (p p' : Pool T W) : List (Op ℕ) :=
  (p'.pushed.drop p.pushed.length).map .push ++
    (p'.taken.drop p.taken.length).map fun x => .take x.2

/-- A step of the pool. -/
def step (s : PoolHistory T W) (e : Event T W) : Option (PoolHistory T W) :=
  (s.pool.step e).map fun p => ⟨p, s.log ++ entries s.pool p⟩

/-- The history is one of a stack that holds the chain from `last_task`. -/
structure IsStack (s : PoolHistory T W) (chain : List (ℕ × W)) : Prop where
  invariant : s.pool.Invariant chain
  run : StackHistory.run [] s.log = some (chain.map Prod.fst)
  pushed : pushes s.log = s.pool.pushed
  taken : takes s.log = s.pool.taken.map Prod.snd

omit [DecidableEq T] in
/-- At first the stack is empty. -/
lemma isStack_init (idSequence : ℤ) : IsStack (init idSequence : PoolHistory T W) [] where
  invariant := .init idSequence
  run := rfl
  pushed := rfl
  taken := rfl

/-- Every step keeps it so. -/
lemma IsStack.step {chain : List (ℕ × W)} (h : s.IsStack chain) (hst : s.step e = some s') :
    ∃ chain', s'.IsStack chain' := by
  obtain ⟨p, hp, rfl⟩ := Option.map_eq_some_iff.mp hst
  obtain ⟨hinv, hrun, hpushed, htaken⟩ := h
  obtain ⟨chain', hinv', hstep⟩ := Pool.exists_chainStep hinv hp
  refine ⟨chain', ?_⟩
  cases hstep with
  | same hpushed' htaken' =>
    have hentries : entries s.pool p = [] := by
      rw [entries, hpushed', htaken', List.drop_length, List.drop_length]
      rfl
    refine ⟨hinv', ?_, ?_, ?_⟩ <;> dsimp only <;> rw [hentries, List.append_nil]
    · exact hrun
    · rw [hpushed, hpushed']
    · rw [htaken, htaken']
  | push x hpushed' htaken' =>
    have hentries : entries s.pool p = [.push x.1] := by
      rw [entries, hpushed', htaken', List.drop_left, List.drop_length]
      rfl
    refine ⟨hinv', ?_, ?_, ?_⟩ <;> dsimp only <;> rw [hentries]
    · rw [run_append, hrun]
      rfl
    · rw [pushes_append, hpushed, hpushed']
      rfl
    · rw [takes_append, htaken, htaken']
      exact List.append_nil _
  | take x t hchain hpushed' htaken' =>
    have hentries : entries s.pool p = [.take x.1] := by
      rw [entries, hpushed', htaken', List.drop_left, List.drop_length]
      rfl
    refine ⟨hinv', ?_, ?_, ?_⟩ <;> dsimp only <;> rw [hentries]
    · rw [run_append, hrun, hchain]
      exact if_pos rfl
    · rw [pushes_append, hpushed, hpushed']
      exact List.append_nil _
    · rw [takes_append, htaken, htaken', List.map_append]
      rfl

/-- In every run of the pool the pushes and takes are a history of a stack, which holds the chain
from `last_task`; so between the push of a task and its taking, exactly the tasks that were pushed
in between are taken. -/
theorem pool_is_stack {idSequence : ℤ} (h : Reachable step (init idSequence) s) :
    (∃ chain, s.pool.tasks.Path Task.prev Task.work s.pool.lastTask chain none ∧
        run [] s.log = some (chain.map Prod.fst)) ∧
      pushes s.log = s.pool.pushed ∧ takes s.log = s.pool.taken.map Prod.snd ∧
      ∀ before between after n, s.log = before ++ .push n :: between ++ .take n :: after →
        (takes between).Perm (pushes between) := by
  obtain ⟨chain, hinv, hrun, hpushed, htaken⟩ : ∃ chain, s.IsStack chain :=
    h.invariant (I := fun s => ∃ chain, s.IsStack chain) ⟨[], isStack_init idSequence⟩
      fun _ _ _ ⟨_, hs⟩ _ hst => hs.step hst
  refine ⟨⟨chain, hinv.path, hrun⟩, hpushed, htaken, fun before between after n hlog => ?_⟩
  rw [hlog] at hrun hpushed htaken
  have hnodup : (chain.map Prod.fst ++ s.pool.taken.map Prod.snd).Nodup :=
    hinv.conserved.nodup_iff.mpr hinv.nodup
  refine perm_between hrun (hpushed ▸ hinv.nodup) ?_
  rw [htaken]
  exact (List.nodup_append.mp hnodup).2.1

/-- Of three tasks the second and the third are taken, and then the first. -/
theorem pool_is_stack_three : ∃ s : PoolHistory Unit Unit,
    s.log = [.push 0, .push 1, .push 2, .take 2, .take 1, .take 0] ∧
      ∀ before between after n, s.log = before ++ .push n :: between ++ .take n :: after →
        (takes between).Perm (pushes between) := by
  have hrun := Run.get_execWhere step anyStep (init 7 : PoolHistory Unit Unit)
    [.push () (some 0) none, .push () (some 1) none, .push () (some 2) none, .worker (), .worker (),
      .worker (), .worker (), .worker (), .worker (), .worker ()] (by decide +kernel)
  exact ⟨_, by decide +kernel, (pool_is_stack hrun).2.2.2⟩

end PoolHistory

/-! ## Tasks that wait for ever -/

namespace Pool

variable {T W : Type} [DecidableEq T] [Fintype T] {p p' : Pool T W} {chain : List (ℕ × W)} {t : T}
  {e : Event T W}

/-- A step that leaves the tasks alone keeps the invariant for the same chain. -/
lemma invariant_of_same (h : Invariant p chain) (hst : step p e = some p')
    (htasks : p'.tasks = p.tasks) (hlast : p'.lastTask = p.lastTask) : Invariant p' chain := by
  obtain ⟨chain', h'⟩ := h.step hst
  have hpath := h'.path
  rw [htasks, hlast] at hpath
  obtain rfl := hpath.unique h.path
  exact h'

/-- The pool runs, and the workers that were ready are ready. -/
structure StaysUp (p p' : Pool T W) : Prop where
  crash : p'.crash = none
  stop : p'.stop = false
  ready : ∀ t, p.worker t = .ready → p'.worker t = .ready

omit [DecidableEq T] [Fintype T] in
/-- One step after the other. -/
lemma StaysUp.trans {p'' : Pool T W} (h : StaysUp p p') (h' : StaysUp p' p'') : StaysUp p p'' :=
  ⟨h'.crash, h'.stop, fun t ht => h'.ready t (h.ready t ht)⟩

/-- A task can be pushed. -/
lemma exists_push (h : Invariant p chain) (hcrash : p.crash = none) (hstop : p.stop = false)
    (work : W) :
    ∃ new target p', step p (.push work (some new) target) = some p' ∧ StaysUp p p' ∧
      Invariant p' ((new, work) :: chain) ∧ p'.pushed = p.pushed ++ [new] ∧
      p'.taken = p.taken := by
  obtain ⟨new, hfree⟩ := p.tasks.exists_free
  obtain ⟨tasks, hpush, -⟩ := h.exists_pushTask work hfree
  obtain ⟨target, htarget⟩ := exists_maySignal fun t => (p.worker t).isAsleep
  obtain ⟨p', hst⟩ : ∃ p', p.threadpoolPushTask work (some new) target = some p' := by
    unfold threadpoolPushTask
    dsimp only
    rw [if_pos htarget, hpush]
    exact ⟨_, rfl⟩
  have hstep : step p (.push work (some new) target) = some p' := by
    unfold step
    rw [hcrash]
    exact hst
  obtain ⟨chain', hinv⟩ := h.step hstep
  obtain ⟨tasks', rfl, hpath⟩ := exists_of_push h hst
  obtain rfl := hpath.unique hinv.path
  refine ⟨new, target, _, hstep, ⟨hcrash, hstop, fun t ht => ?_⟩, hinv, rfl, rfl⟩
  show deliver WorkerPc.wake p.worker target t = .ready
  rcases deliver_eq WorkerPc.wake p.worker target t with heq | heq <;> rw [heq, ht]
  rfl

/-- A running program makes the step of a worker. -/
lemma step_worker (hcrash : p.crash = none) : step p (.worker t) = p.workerStep t := by
  unfold step
  rw [hcrash]
  rfl

/-- A worker that has taken a task executes it and comes back. -/
lemma exists_work {n : ℕ} (h : Invariant p chain) (hcrash : p.crash = none)
    (hworker : p.worker t = .hasTask n) :
    ∃ p', p'.worker = Function.update p.worker t .ready ∧ p'.crash = none ∧ p'.stop = p.stop ∧
      Invariant p' chain ∧ p'.pushed = p.pushed ∧ p'.taken = p.taken ∧
      ∀ es, execWhere step anyStep p (.worker t :: .worker t :: es) =
        execWhere step anyStep p' es := by
  obtain ⟨task, htask⟩ := Option.ne_none_iff_exists'.mp (h.allocated n (h.hasTask t n hworker))
  have hst : step p (.worker t) = some (p.goTo t (.running task.work)) := by
    rw [step_worker hcrash, workerStep, hworker]
    dsimp only
    rw [htask]
  have hrunning : (p.goTo t (.running task.work)).worker t = .running task.work :=
    Function.update_self ..
  have hst' : step (p.goTo t (.running task.work)) (.worker t) =
      some ((p.goTo t (.running task.work)).goTo t .ready) := by
    rw [step_worker (p := p.goTo t _) hcrash, workerStep, hrunning]
  have hinv := invariant_of_same (invariant_of_same h hst rfl rfl) hst' rfl rfl
  refine ⟨(p.goTo t (.running task.work)).goTo t .ready, Function.update_idem .., hcrash, rfl, hinv,
    rfl, rfl, fun es => ?_⟩
  rw [execWhere_cons trivial hst, execWhere_cons trivial hst']

/-- A worker that is ready takes the first task of the chain, executes it and comes back. -/
lemma exists_turn {x : ℕ × W} (h : Invariant p (x :: chain)) (hcrash : p.crash = none)
    (hstop : p.stop = false) (hlength : chain.length + 1 < 2 ^ 32) (hready : p.worker t = .ready) :
    ∃ p', StaysUp p p' ∧ Invariant p' chain ∧ p'.pushed = p.pushed ∧
      p'.taken = p.taken ++ [(t, x.1)] ∧
      ∀ es, execWhere step anyStep p (.worker t :: .worker t :: .worker t :: es) =
        execWhere step anyStep p' es := by
  have hsize : p.queueSize ≠ 0 := by
    rw [h.size, ne_eq, wrap_natCast_eq_zero_iff, List.length_cons]
    omega
  obtain ⟨task, hlast, htask, htake⟩ := h.take (t := t) hsize (by rw [hready]; rfl)
  have hst : step p (.worker t) = some { p.goTo t (.hasTask x.1) with
      queueSize := wrap 32 (p.queueSize - 1), lastTask := task.prev,
      taken := p.taken ++ [(t, x.1)] } := by
    rw [step_worker hcrash, workerStep, hready]
    dsimp only
    rw [workerSection, if_neg fun hzero => hsize hzero.1,
      if_neg (by rw [hstop]; exact Bool.false_ne_true), hlast]
    dsimp only
    rw [htask]
  obtain ⟨p', hworker, hcrash', hstop', hinv, hpushed, htaken, hex⟩ :=
    exists_work htake hcrash (Function.update_self ..)
  refine ⟨p', ⟨hcrash', hstop'.trans hstop, fun u hu => ?_⟩, hinv, hpushed, htaken, fun es => ?_⟩
  · rw [hworker]
    rcases eq_or_ne u t with rfl | hne
    · exact Function.update_self ..
    · rw [Function.update_of_ne hne]
      exact (Function.update_of_ne hne ..).trans hu
  · rw [execWhere_cons trivial hst, hex]

/-- A push of the work of `x`, with the answers `a` of `malloc` and of the signal, and the turn of
the worker of `x`. -/
def pushAndTurn (x : T × W) (a : ℕ × Option T) : List (Event T W) :=
  [.push x.2 (some a.1) a.2, .worker x.1, .worker x.1, .worker x.1]

/-- Where a task is pushed before each turn of a worker, the workers execute exactly the new tasks,
each in the turn after its push; and those that waited wait. -/
lemma exists_turns (h : Invariant p chain) (hcrash : p.crash = none) (hstop : p.stop = false)
    (hlength : chain.length + 1 < 2 ^ 32) (turns : List (T × W))
    (hready : ∀ x ∈ turns, p.worker x.1 = .ready) :
    ∃ answers : List (ℕ × Option T), answers.length = turns.length ∧ ∃ p',
      execWhere step anyStep p (List.zipWith pushAndTurn turns answers).flatten = some p' ∧
      StaysUp p p' ∧ Invariant p' chain ∧ p'.pushed = p.pushed ++ answers.map Prod.fst ∧
      p'.taken = p.taken ++ (turns.map Prod.fst).zip (answers.map Prod.fst) := by
  induction turns generalizing p with
  | nil =>
    exact ⟨[], rfl, p, rfl, ⟨hcrash, hstop, fun _ => id⟩, h, (List.append_nil _).symm,
      (List.append_nil _).symm⟩
  | cons x turns ih =>
    obtain ⟨hx, hturns⟩ := List.forall_mem_cons.mp hready
    obtain ⟨new, target, q, hst, hupq, hq, hpushedq, htakenq⟩ :=
      exists_push h hcrash hstop x.2
    obtain ⟨r, hupr, hr, hpushedr, htakenr, hex⟩ :=
      exists_turn hq hupq.crash hupq.stop hlength (hupq.ready x.1 hx)
    have hup' := hupq.trans hupr
    obtain ⟨answers, hlen, p', hrun, hupp, hp', hpushed, htaken⟩ :=
      ih hr hup'.crash hup'.stop fun y hy => hup'.ready y.1 (hturns y hy)
    refine ⟨(new, target) :: answers, congrArg (· + 1) hlen, p', ?_, hup'.trans hupp, hp', ?_, ?_⟩
    · rw [List.zipWith_cons_cons, List.flatten_cons, pushAndTurn, List.cons_append,
        List.cons_append, List.cons_append, List.cons_append, List.nil_append,
        execWhere_cons trivial hst, hex, hrun]
    · rw [hpushed, hpushedr, hpushedq, List.append_assoc]
      rfl
    · rw [htaken, htakenr, htakenq, List.append_assoc]
      rfl

/-- In every state of a pool that is not stopped, the tasks of the chain may wait for ever: with a
new task before each turn of a worker that is ready, any number of such turns, of any of these
workers, executes the new tasks only, and leaves the chain as it is. -/
theorem waiting_tasks_starve {idSequence : ℤ} (h : Reachable step (init idSequence) p)
    (hcrash : p.crash = none) (hstop : p.stop = false)
    (hpath : p.tasks.Path Task.prev Task.work p.lastTask chain none)
    (hlength : chain.length + 1 < 2 ^ 32) (turns : List (T × W))
    (hready : ∀ x ∈ turns, p.worker x.1 = .ready) :
    ∃ answers : List (ℕ × Option T), answers.length = turns.length ∧ ∃ p',
      execWhere step anyStep p (List.zipWith pushAndTurn turns answers).flatten = some p' ∧
      p'.tasks.Path Task.prev Task.work p'.lastTask chain none ∧
      p'.pushed = p.pushed ++ answers.map Prod.fst ∧
      p'.taken = p.taken ++ (turns.map Prod.fst).zip (answers.map Prod.fst) ∧
      ∀ t, p.worker t = .ready → p'.worker t = .ready := by
  obtain ⟨chain', hinv⟩ := Invariant.of_reachable h
  obtain rfl := hinv.path.unique hpath
  obtain ⟨answers, hlen, p', hrun, hup, hinv', hpushed, htaken⟩ :=
    exists_turns hinv hcrash hstop hlength turns hready
  exact ⟨answers, hlen, p', hrun, hinv'.path, hpushed, htaken, hup.ready⟩

/-- The task `0` waits while both workers execute new tasks. -/
theorem waiting_tasks_starve_three : ∃ p : Pool Bool ℕ,
    execWhere step anyStep (init 7) [.push 0 (some 0) none] = some p ∧
      ∃ answers : List (ℕ × Option Bool), answers.length = 3 ∧ ∃ p',
        execWhere step anyStep p (List.zipWith pushAndTurn [(true, 1), (false, 2), (true, 3)]
          answers).flatten = some p' ∧
        p'.tasks.Path Task.prev Task.work p'.lastTask [(0, 0)] none ∧
        p'.pushed = p.pushed ++ answers.map Prod.fst ∧
        p'.taken = p.taken ++ [true, false, true].zip (answers.map Prod.fst) ∧
        ∀ t, p.worker t = .ready → p'.worker t = .ready := by
  have hrun := Run.get_execWhere step anyStep (init 7 : Pool Bool ℕ) [.push 0 (some 0) none]
    (by decide +kernel)
  refine ⟨_, (Option.some_get _).symm, waiting_tasks_starve hrun (by decide +kernel)
    (by decide +kernel) (.cons (a := ⟨7, 0, none, none⟩) rfl (.nil _)) (by decide)
    [(true, 1), (false, 2), (true, 3)] fun x _ => ?_⟩
  rfl

end Pool

end OsLabs.Threadpool
