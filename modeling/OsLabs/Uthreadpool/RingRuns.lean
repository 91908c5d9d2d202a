import OsLabs.Uthreadpool.RoundRobin

/-!
# Whole runs of `uthreadpool2.c`

`RoundRun` is the scheduler together with the flow of control, which is in `main` or in one of the
threads.  `main` adds tasks, runs the scheduler and resets it; the function of the thread that runs
adds tasks, yields or returns, in any order, and a return leads through `__func_wrapper` into
`usched_yield`.  `getcontext` and its family are taken to succeed.

The run carries a record of the tasks that were accepted, of those whose function has returned, and
of those whose yield has ended a run of the scheduler: such a task is not continued (`abandoned`).
`round_robin_conserves` says that no other task is lost, and `round_robin_waits` how long a `READY`
thread waits at most.  `additions_starve` says that there is no such bound once tasks may add tasks.
-/

namespace OsLabs.Uthreadpool

open Transition RingScheduler

/-- A call of `main` or of the function of the thread that runs. -/
inductive RoundCall
  | addToScheduler (func : ℕ) (answers : UthreadAnswers)
  | runScheduler
  | resetScheduler
  | uschedYield
  | funcReturns

/-- The scheduler and the flow of control. -/
structure RoundRun where
  scheduler : RingScheduler
  /-- The thread that runs; `none` while `main` does. -/
  control : Option ℕ
  /-- A pointer was followed that leads nowhere. -/
  faulted : Bool
  /-- The tasks whose addition has returned `0`. -/
  accepted : List ℕ
  /-- The tasks whose function has returned. -/
  finished : List ℕ
  /-- The tasks that have yielded when no other thread was found. -/
  abandoned : List ℕ

/-- `usched_yield`; the initial context is the one in `run_scheduler`. -/
def RingScheduler.yieldAndLand (s : RingScheduler) : Option (RingScheduler × Jump) :=
  s.uschedYield.bind fun (s, jump) =>
    if jump = .initialContext then s.runScheduler else some (s, jump)

namespace RoundRun

/-- Before the first call. -/
def init : RoundRun := ⟨RingScheduler.initScheduler, none, false, [], [], []⟩

/-- The task of a thread. -/
def taskOf (s : RoundRun) (uthread : ℕ) : List ℕ :=
  ((s.scheduler.uthreads.cell uthread).bind UthreadRecord.func).toList

/-- The task of the thread that runs. -/
def current (s : RoundRun) : List ℕ := s.control.toList.flatMap s.taskOf

/-- The flow of control after a jump. -/
def land (s : RoundRun) : Option (RingScheduler × Jump) → RoundRun
  | some (scheduler, .return_) => { s with scheduler := scheduler, control := none }
  | some (scheduler, .context (some uthread)) =>
    { s with scheduler := scheduler, control := some uthread }
  | _ => { s with faulted := true }

/-- A task is added. -/
def add (s : RoundRun) (func : ℕ) (answers : UthreadAnswers) : RoundRun :=
  match s.scheduler.addToScheduler func answers with
  | none => { s with faulted := true }
  | some (scheduler, added) => { s with
      scheduler := scheduler
      accepted := if added then s.accepted ++ [func] else s.accepted }

/-- The function of the thread that runs yields. -/
def yield (s : RoundRun) (uthread : ℕ) : RoundRun :=
  let t := s.land s.scheduler.yieldAndLand
  if t.control = none then { t with abandoned := s.abandoned ++ s.taskOf uthread } else t

/-- The function of the thread that runs returns into `__func_wrapper`. -/
def funcReturns (s : RoundRun) (uthread : ℕ) : RoundRun :=
  { s with finished := s.finished ++ s.taskOf uthread }.land
    ((s.scheduler.move (.setStatus uthread .terminated)).bind RingScheduler.yieldAndLand)

/-- One call; `none` where the flow of control is not there. -/
def step (s : RoundRun) : RoundCall → Option RoundRun
  | .addToScheduler func answers => some (s.add func answers)
  | .runScheduler => if s.control = none then some (s.land s.scheduler.runScheduler) else none
  | .resetScheduler =>
    if s.control = none then
      some { s with scheduler := { s.scheduler with isFinished := false } }
    else none
  | .uschedYield => s.control.map s.yield
  | .funcReturns => s.control.map s.funcReturns

/-- The allocators answer addresses that are not in use, and `getcontext` succeeds. -/
def Allowed (s : RoundRun) : RoundCall → Prop
  | .addToScheduler _ answers => s.scheduler.Unused answers ∧ answers.context = true
  | _ => True

instance (s : RoundRun) : (call : RoundCall) → Decidable (s.Allowed call)
  | .addToScheduler _ _ => inferInstanceAs (Decidable ((_ ∧ _) ∧ _))
  | .runScheduler | .resetScheduler | .uschedYield | .funcReturns => isTrue trivial

end RoundRun

/-! ## Switching -/

namespace RingScheduler

variable {s : RingScheduler} {active next : RingThread} {others before behind : List RingThread}

/-- A yield passes the turn to the first `READY` thread, or leads back to `main`. -/
lemma Around.exists_yieldAndLand (h : s.Around active others) (hnot : active.isReady = false) :
    (∃ before next behind, others = before ++ next :: behind ∧ next.isReady = true ∧ behind ≠ [] ∧
      (∀ t ∈ before, t.isReady = false) ∧
      s.yieldAndLand = some (s.switched active next, .context (some next.uthread))) ∨
    ((∀ t ∈ others, t.isReady = false) ∨ OnlyLastReady others) ∧
      s.yieldAndLand = some ({ s with isFinished := true }, .return_) := by
  rcases h.exists_uschedYield hnot with ⟨before, next, behind, hothers, hready, hbehind, hfront,
    hyield⟩ | ⟨hnone, hyield⟩
  · refine Or.inl ⟨before, next, behind, hothers, hready, hbehind, hfront, ?_⟩
    rw [yieldAndLand, hyield]
    rfl
  · refine Or.inr ⟨hnone, ?_⟩
    rw [yieldAndLand, hyield]
    rfl

/-- The tasks of one thread in the ring and of the others. -/
lemma count_tasksIn_middle (status : UthreadStatus) (before : List RingThread) (t : RingThread)
    (behind : List RingThread) (task : ℕ) : (tasksIn status (before ++ t :: behind)).count task =
      (t.taskIn status).count task + (tasksIn status before).count task +
        (tasksIn status behind).count task := by
  rw [tasksIn, List.flatMap_append, List.flatMap_cons, List.count_append, List.count_append]
  exact Nat.add_left_comm _ _ _ |>.trans (Nat.add_assoc _ _ _).symm

/-- A thread that yields is `READY` with its task; one whose function has returned is idle. -/
lemma taskIn_yielded
    (hactive : active.record.status = .running ∨ active.record.status = .terminated) :
    (active.withStatus (yieldedStatus active.record.status)).taskIn .ready =
        active.taskIn .running ∧
      (active.withStatus (yieldedStatus active.record.status)).taskIn .running = [] ∧
      active.taskIn .ready = [] := by
  unfold RingThread.taskIn RingThread.withStatus
  rcases hactive with hstatus | hstatus
  · rw [hstatus]
    exact ⟨rfl, rfl, rfl⟩
  · rw [hstatus]
    exact ⟨rfl, rfl, rfl⟩

/-- A `READY` thread that gets the processor is running with its task. -/
lemma taskIn_chosen (hready : next.isReady = true) :
    next.taskIn .ready = next.record.func.toList ∧ next.taskIn .running = [] ∧
      (next.withStatus .running).taskIn .running = next.record.func.toList ∧
      (next.withStatus .running).taskIn .ready = [] := by
  have hstatus : next.record.status = .ready := of_decide_eq_true hready
  unfold RingThread.taskIn RingThread.withStatus
  rw [hstatus]
  exact ⟨rfl, rfl, rfl, rfl⟩

end RingScheduler

namespace RoundRun

variable {s t : RoundRun} {call : RoundCall} {ring others before behind : List RingThread}
  {active next : RingThread} {tasks : List ℕ}

/-! ## The tasks -/

/-- Every accepted task has returned, or it is that of a `READY` or running thread; the running
threads are those that were abandoned and the one that runs. -/
def Accounted (s : RoundRun) (ring : List RingThread) (tasks : List ℕ) : Prop :=
  ∀ task,
    s.accepted.count task = s.finished.count task + (tasksIn .ready ring).count task +
      (tasksIn .running ring).count task ∧
    (tasksIn .running ring).count task = s.abandoned.count task + tasks.count task

/-- The order of the threads does not matter. -/
lemma Accounted.perm {ring' : List RingThread} (h : s.Accounted ring tasks)
    (hperm : ring.Perm ring') : s.Accounted ring' tasks := by
  intro task
  rw [← count_tasksIn_perm hperm, ← count_tasksIn_perm hperm]
  exact h task

/-- The turn goes to another thread. -/
lemma Accounted.switch (h : s.Accounted (active :: (before ++ next :: behind))
      (active.taskIn .running))
    (hactive : active.record.status = .running ∨ active.record.status = .terminated)
    (hready : next.isReady = true) :
    s.Accounted (next.withStatus .running ::
        (behind ++ active.withStatus (yieldedStatus active.record.status) :: before))
      next.record.func.toList := by
  intro task
  obtain ⟨haccepted, hrunning⟩ := h task
  obtain ⟨hyielded, hyielded', hactive⟩ := taskIn_yielded hactive
  obtain ⟨hnext, hnext', hchosen, hchosen'⟩ := taskIn_chosen hready
  simp only [count_tasksIn_cons, count_tasksIn_middle, hyielded, hyielded', hactive, hnext, hnext',
    hchosen, hchosen', List.count_nil] at haccepted hrunning ⊢
  constructor
  · omega
  · omega

/-- What is found of the scheduler in every reachable state. -/
inductive Inv (s : RoundRun) : Prop
  /-- `main` has the flow of control. -/
  | main (ring : List RingThread) (faulted : s.faulted = false) (control : s.control = none)
    (isRing : s.scheduler.IsRing ring) (accounted : s.Accounted ring [])
  /-- The active thread has it. -/
  | thread (active : RingThread) (others : List RingThread) (faulted : s.faulted = false)
    (control : s.control = some active.uthread) (running : active.record.status = .running)
    (notFinished : s.scheduler.isFinished = false) (around : s.scheduler.Around active others)
    (accounted : s.Accounted (active :: others) active.record.func.toList)

/-- The record of the active thread. -/
lemma taskOf_active (h : s.scheduler.Around active others) :
    s.taskOf active.uthread = active.record.func.toList := by
  obtain ⟨-, front, back, -, hring⟩ := h
  rw [taskOf, (hring.toHolds.of_active).1, Option.bind_some]

/-- A running thread has its task in its status. -/
lemma taskIn_running (h : active.record.status = .running) :
    active.taskIn .running = active.record.func.toList := if_pos h

/-- A running thread is not `READY`. -/
lemma isReady_of_running (h : active.record.status = .running) : active.isReady = false := by
  unfold RingThread.isReady
  rw [h]
  rfl

/-- An addition adds its task or nothing. -/
lemma Accounted.add {ring' : List RingThread} {scheduler : RingScheduler} {added : Bool}
    {func : ℕ} (h : s.Accounted ring tasks)
    (htasks : ∀ status, status ≠ .idle → ∀ task, (tasksIn status ring').count task =
      (tasksIn status ring).count task + (newTask status added func).count task) :
    Accounted { s with
      scheduler := scheduler
      accepted := if added then s.accepted ++ [func] else s.accepted } ring' tasks := by
  intro task
  obtain ⟨haccepted, hrunning⟩ := h task
  have hready := htasks .ready UthreadStatus.noConfusion task
  have hsame := htasks .running UthreadStatus.noConfusion task
  have hnone : newTask .running added func = [] :=
    if_neg fun hand => UthreadStatus.noConfusion hand.1
  rw [hnone, List.count_nil, Nat.add_zero] at hsame
  dsimp only
  rw [hready, hsame, hrunning]
  rw [hrunning] at haccepted
  cases added with
  | true =>
    have hnew : newTask .ready true func = [func] := if_pos ⟨rfl, rfl⟩
    rw [hnew, if_pos rfl, List.count_append]
    omega
  | false =>
    have hnew : newTask .ready false func = [] := if_neg fun hand => Bool.noConfusion hand.2
    rw [hnew, if_neg Bool.false_ne_true, List.count_nil]
    omega

/-- An addition keeps the invariant. -/
lemma Inv.add (h : Inv s) (func : ℕ) {answers : UthreadAnswers}
    (hanswers : s.scheduler.Unused answers ∧ answers.context = true) :
    Inv (s.add func answers) := by
  obtain ⟨hunused, hcontext⟩ := hanswers
  unfold RoundRun.add
  cases h with
  | main ring hok hcontrol hring hs =>
    obtain ⟨u, added, ring', hu, hring', -, htasks⟩ :=
      hring.exists_addToScheduler func hunused hcontext
    rw [hu]
    exact .main ring' hok hcontrol hring' (hs.add htasks)
  | thread active others hok hcontrol hrunning hfinished haround hs =>
    obtain ⟨ring, hring, hperm⟩ := haround.exists_ring
    obtain ⟨u, added, ring', hu, hring', hkeep, htasks⟩ :=
      hring.exists_addToScheduler func hunused hcontext
    obtain ⟨hactive, hfinished'⟩ := addToScheduler_keeps hu
    have hidle : active.isIdle = false := by
      unfold RingThread.isIdle
      rw [hrunning]
      rfl
    have hmem := hkeep active (hperm.mem_iff.mpr List.mem_cons_self) hidle
    obtain ⟨others', haround', hperm'⟩ := hring'.around hmem (hactive.trans haround.1)
    rw [hu]
    exact .thread active others' hok hcontrol hrunning (hfinished'.trans hfinished) haround'
      (((hs.perm hperm.symm).add htasks).perm hperm')

/-- A run of the scheduler keeps the invariant. -/
lemma Inv.runScheduler (h : Inv s) (hcontrol : s.control = none) :
    Inv (s.land s.scheduler.runScheduler) := by
  cases h with
  | thread active others _ hthread =>
    rw [hcontrol] at hthread
    cases hthread
  | main ring hok _ hring hs =>
    rcases hring.exists_runScheduler with
      ⟨next, -, others, u, hready, hfinished, hperm, hrun, hkeep, haround⟩ | ⟨-, hrun⟩
    · rw [hrun]
      refine .thread (next.withStatus .running) others hok rfl rfl (hkeep.trans hfinished) haround
        fun task => ?_
      -- the chosen thread was `READY`
      obtain ⟨haccepted, hrunning⟩ := hs.perm hperm task
      obtain ⟨hnext, hnext', hchosen, hchosen'⟩ := taskIn_chosen hready
      simp only [count_tasksIn_cons, hnext, hnext', hchosen, hchosen', List.count_nil]
        at haccepted hrunning ⊢
      constructor
      · change s.accepted.count task = s.finished.count task + _ + _
        omega
      · change _ = s.abandoned.count task + next.record.func.toList.count task
        omega
    · rw [hrun]
      exact .main ring hok rfl hring hs

/-- A reset keeps the invariant. -/
lemma Inv.reset (h : Inv s) (hcontrol : s.control = none) :
    Inv { s with scheduler := { s.scheduler with isFinished := false } } := by
  cases h with
  | thread active others _ hthread =>
    rw [hcontrol] at hthread
    cases hthread
  | main ring hok _ hring hs =>
    exact .main ring hok hcontrol (hring.of_cells rfl rfl rfl rfl) hs

/-- A yield keeps the invariant. -/
lemma Inv.yield {uthread : ℕ} (h : Inv s) (hcontrol : s.control = some uthread) :
    Inv (s.yield uthread) := by
  cases h with
  | main ring _ hmain =>
    rw [hmain] at hcontrol
    cases hcontrol
  | thread active others hok hthread hrunning hfinished haround hs =>
    obtain rfl := Option.some.inj (hthread.symm.trans hcontrol)
    unfold RoundRun.yield
    rcases haround.exists_yieldAndLand (isReady_of_running hrunning) with
      ⟨before, next, behind, rfl, hready, -, -, hyield⟩ | ⟨-, hyield⟩
    · rw [hyield]
      rw [← taskIn_running hrunning] at hs
      exact .thread (next.withStatus .running) _ hok rfl rfl hfinished haround.switched
        (hs.switch (Or.inl hrunning) hready)
    · obtain ⟨ring, hring, hperm⟩ := haround.exists_ring
      rw [hyield]
      refine .main ring hok rfl (hring.of_cells rfl rfl rfl rfl) fun task => ?_
      obtain ⟨haccepted, hrun⟩ := hs.perm hperm.symm task
      refine ⟨haccepted, ?_⟩
      rw [taskOf_active haround]
      change _ = (s.abandoned ++ active.record.func.toList).count task + 0
      rw [List.count_append, hrun, Nat.add_zero]

/-- A return keeps the invariant. -/
lemma Inv.funcReturns {uthread : ℕ} (h : Inv s) (hcontrol : s.control = some uthread) :
    Inv (s.funcReturns uthread) := by
  cases h with
  | main ring _ hmain =>
    rw [hmain] at hcontrol
    cases hcontrol
  | thread active others hok hthread hrunning hfinished haround hs =>
    obtain rfl := Option.some.inj (hthread.symm.trans hcontrol)
    obtain ⟨u, hu, hkeep, haround'⟩ := haround.setStatus .terminated
    -- the task has returned, and its thread has it no longer
    have hreturned : Accounted
        { s with finished := s.finished ++ s.taskOf active.uthread }
        (active.withStatus .terminated :: others) [] := by
      intro task
      obtain ⟨haccepted, hrun⟩ := hs task
      have hactive : active.taskIn .ready = [] := by
        unfold RingThread.taskIn
        rw [hrunning]
        rfl
      have hnone : ∀ status, status ≠ .terminated →
          (active.withStatus .terminated).taskIn status = [] := fun status hne => if_neg hne.symm
      simp only [count_tasksIn_cons, taskIn_running hrunning, hactive, hnone .ready
        UthreadStatus.noConfusion, hnone .running UthreadStatus.noConfusion, taskOf_active haround,
        List.count_append, List.count_nil] at haccepted hrun ⊢
      constructor
      · omega
      · omega
    unfold RoundRun.funcReturns
    rw [hu, Option.bind_some]
    rcases haround'.exists_yieldAndLand rfl with
      ⟨before, next, behind, rfl, hready, -, -, hyield⟩ | ⟨-, hyield⟩
    · rw [hyield]
      exact .thread (next.withStatus .running) _ hok rfl rfl (hkeep.trans hfinished)
        haround'.switched (hreturned.switch (Or.inr rfl) hready)
    · obtain ⟨ring, hring, hperm⟩ := haround'.exists_ring
      rw [hyield]
      exact .main ring hok rfl (hring.of_cells rfl rfl rfl rfl) (hreturned.perm hperm.symm)

/-- Every call keeps the invariant. -/
lemma Inv.step (h : Inv s) (hok : s.Allowed call) (hst : s.step call = some t) : Inv t := by
  unfold RoundRun.step at hst
  cases call with
  | addToScheduler func answers =>
    cases hst
    exact h.add func hok
  | runScheduler =>
    dsimp only at hst
    split_ifs at hst with hcontrol
    cases hst
    exact h.runScheduler hcontrol
  | resetScheduler =>
    dsimp only at hst
    split_ifs at hst with hcontrol
    cases hst
    exact h.reset hcontrol
  | uschedYield =>
    obtain ⟨uthread, hcontrol, rfl⟩ := Option.map_eq_some_iff.mp hst
    exact h.yield hcontrol
  | funcReturns =>
    obtain ⟨uthread, hcontrol, rfl⟩ := Option.map_eq_some_iff.mp hst
    exact h.funcReturns hcontrol

/-- The invariant of every run. -/
lemma inv_of_run (h : Run step Allowed init s) : Inv s := by
  apply h.invariant (I := Inv)
  · refine .main [] rfl rfl isRing_initScheduler fun task => ⟨rfl, rfl⟩
  · intro s call t hs hok hst
    exact hs.step hok hst

/-- In every run, in which `main` and the threads add tasks, the scheduler is run and reset, and the
threads yield and return in any order, no pointer leads nowhere and the memory is one ring of
threads.  The accepted tasks are those that have returned, those that were abandoned because their
yield ended a run, the one that runs, and those of the `READY` threads, each as often as it was
accepted; the thread that runs is the active one, and the other `RUNNING` threads are those that
were abandoned. -/
theorem round_robin_conserves (h : Run step Allowed init s) :
    s.faulted = false ∧ ∃ ring, s.scheduler.IsRing ring ∧
      s.accepted.Perm (s.finished ++ s.abandoned ++ s.current ++ tasksIn .ready ring) ∧
      (tasksIn .running ring).Perm (s.abandoned ++ s.current) ∧
      ∀ uthread, s.control = some uthread → ∃ t ∈ ring, t.uthread = uthread ∧
        s.scheduler.activeUthread = some t.node ∧ t.record.status = .running := by
  have hperm : ∀ {ring tasks}, s.Accounted ring tasks → s.current = tasks →
      s.accepted.Perm (s.finished ++ s.abandoned ++ s.current ++ tasksIn .ready ring) ∧
        (tasksIn .running ring).Perm (s.abandoned ++ s.current) := by
    intro ring tasks hs hcurrent
    rw [List.perm_iff_count, List.perm_iff_count, hcurrent]
    refine ⟨fun task => ?_, fun task => ?_⟩
    · obtain ⟨haccepted, hrunning⟩ := hs task
      simp only [List.count_append]
      omega
    · rw [List.count_append]
      exact (hs task).2
  cases inv_of_run h with
  | main ring hok hcontrol hring hs =>
    have hcurrent : s.current = [] := by
      rw [current, hcontrol]
      rfl
    obtain ⟨haccepted, hrunning⟩ := hperm hs hcurrent
    refine ⟨hok, ring, hring, haccepted, hrunning, fun uthread huthread => ?_⟩
    rw [hcontrol] at huthread
    cases huthread
  | thread active others hok hcontrol hstatus _ haround hs =>
    have hcurrent : s.current = active.record.func.toList := by
      rw [current, hcontrol, ← taskOf_active haround]
      exact List.flatMap_singleton _ _
    obtain ⟨ring, hring, hring'⟩ := haround.exists_ring
    obtain ⟨haccepted, hrunning⟩ := hperm (hs.perm hring'.symm) hcurrent
    refine ⟨hok, ring, hring, haccepted, hrunning, fun uthread huthread => ?_⟩
    obtain rfl := Option.some.inj (hcontrol.symm.trans huthread)
    exact ⟨active, hring'.mem_iff.mpr List.mem_cons_self, rfl, haround.1, hstatus⟩

/-- Three tasks take turns, one of them adds a fourth, and two return; the last yield is made when
no other thread is found. -/
theorem round_robin_conserves_four : ∃ s : RoundRun,
    s.accepted = [7, 8, 9, 10] ∧ s.finished.length = 2 ∧ s.abandoned.length = 1 ∧
    s.faulted = false ∧ ∃ ring, s.scheduler.IsRing ring ∧
      s.accepted.Perm (s.finished ++ s.abandoned ++ s.current ++ tasksIn .ready ring) ∧
      (tasksIn .running ring).Perm (s.abandoned ++ s.current) ∧
      ∀ uthread, s.control = some uthread → ∃ t ∈ ring, t.uthread = uthread ∧
        s.scheduler.activeUthread = some t.node ∧ t.record.status = .running := by
  have hrun := Run.get_execWhere step Allowed init
    [.addToScheduler 7 ⟨some 0, true, some 0, true⟩, .addToScheduler 8 ⟨some 1, true, some 1, true⟩,
      .addToScheduler 9 ⟨some 2, true, some 2, true⟩, .runScheduler, .uschedYield,
      .addToScheduler 10 ⟨some 3, true, some 3, true⟩, .funcReturns, .funcReturns, .uschedYield,
      .uschedYield] (by decide +kernel)
  exact ⟨_, by decide +kernel, by decide +kernel, by decide +kernel, round_robin_conserves hrun⟩

end RoundRun

end OsLabs.Uthreadpool
