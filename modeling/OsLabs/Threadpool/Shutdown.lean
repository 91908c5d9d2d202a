import OsLabs.Threadpool.Conservation

/-!
# The life of a pool up to `destroy_threadpool`

`destroy_threadpool` stops the pool, joins its workers, frees the tasks of the chain and then the
pool.  The model puts these steps over the pool: they interleave with pushes and with the workers,
and whoever uses the pool after it was freed follows a bad pointer.  `handles` are the threads that
are joined, in order.

The code does not keep anybody from pushing a task while the chain is being freed or later
(`beforeFree` says that nobody does).  With that, no bad pointer is followed, a task that was taken
is executed exactly once and its node is never freed, and a task that was not taken is never
executed and its node is freed exactly once: `destroy_conserves`.  From the stop on there are only
so many steps left, and some thread can make one until the pool is freed: `destroy_terminates`.
-/

namespace OsLabs.Threadpool

open Transition

/-- Where `destroy_threadpool` is. -/
inductive DestroyPc (T : Type)
  | notCalled
  /-- At `pthread_join`, with the threads that are left to join. -/
  | joining (left : List T)
  /-- In the loop that frees the tasks. -/
  | freeing (current : Option ℕ)
  /-- The pool is freed. -/
  | returned

/-- How many steps a worker of a stopped pool makes at most, its own wake-up included. -/
def WorkerPc.toDo {W : Type} : WorkerPc W → ℕ
  | .exited => 0
  | .ready | .woken => 1
  | .asleep | .running _ => 2
  | .hasTask _ => 3

/-- The workers are joined. -/
def DestroyPc.workersJoined {T : Type} : DestroyPc T → Bool
  | .notCalled | .joining _ => false
  | .freeing _ | .returned => true

/-- A pool and `destroy_threadpool`. -/
structure PoolLife (T W : Type) where
  pool : Pool T W
  main : DestroyPc T
  /-- The executions that were started, with the workers. Not in the source. -/
  started : List (T × ℕ)
  /-- The tasks that were freed. Not in the source. -/
  freed : List ℕ

/-- What the code does not decide. -/
inductive LifeEvent (T W : Type)
  | push (work : W) (malloc : Option ℕ) (target : Option T)
  | worker (t : T)
  | wakeUp (t : T)
  | destroy

/-- A task is pushed. -/
def LifeEvent.isPush {T W : Type} : LifeEvent T W → Bool
  | .push _ _ _ => true
  | .worker _ | .wakeUp _ | .destroy => false

namespace PoolLife

variable {T W : Type} [DecidableEq T] [Fintype T]

/-- The pool after `init_threadpool`. -/
def init (idSequence : ℤ) : PoolLife T W := ⟨Pool.init idSequence, .notCalled, [], []⟩

/-- The program ends with a bad pointer. -/
def crash (s : PoolLife T W) : PoolLife T W :=
  { s with pool := { s.pool with crash := some .badPointer } }

/-- A step that uses the pool, which must not be freed. -/
def use (s : PoolLife T W) (result : Option (Pool T W)) : Option (PoolLife T W) :=
  result.map fun pool =>
    match s.main with
    | .returned => s.crash
    | _ => { s with pool := pool }

/-- The executions after a step of a worker. -/
def startedAfter (s : PoolLife T W) (t : T) : List (T × ℕ) :=
  match s.pool.worker t with
  | .hasTask n => s.started ++ [(t, n)]
  | _ => s.started

/-- The next step of `destroy_threadpool`. -/
def destroyThreadpool (handles : List T) (s : PoolLife T W) : Option (PoolLife T W) :=
  match s.main with
  | .notCalled => some { s with pool := s.pool.destroySection, main := .joining handles }
  | .joining (t :: left) =>
    match s.pool.worker t with
    | .exited => some { s with main := .joining left }
    | _ => none
  | .joining [] => some { s with main := .freeing s.pool.lastTask }
  | .freeing (some n) =>
    match s.pool.tasks.cell n with
    | none => some s.crash
    | some task =>
      some { s with pool := { s.pool with tasks := s.pool.tasks.set n none },
                    main := .freeing task.prev, freed := s.freed ++ [n] }
  | .freeing none => some { s with main := .returned }
  | .returned => none

/-- A step, while the program runs. -/
def step (handles : List T) (s : PoolLife T W) (e : LifeEvent T W) : Option (PoolLife T W) :=
  if s.pool.crash.isSome then none
  else
    match e with
    | .push work malloc target => s.use (s.pool.threadpoolPushTask work malloc target)
    | .worker t =>
      (s.use (s.pool.workerStep t)).map fun s' => { s' with started := s.startedAfter t }
    | .wakeUp t =>
      s.use (if (s.pool.worker t).isAsleep then some (s.pool.goTo t .woken) else none)
    | .destroy => s.destroyThreadpool handles

/-- Nobody pushes a task once the workers are joined. -/
def beforeFree (s : PoolLife T W) (e : LifeEvent T W) : Prop :=
  e.isPush = false ∨ s.main.workersJoined = false

instance (s : PoolLife T W) (e : LifeEvent T W) : Decidable (s.beforeFree e) :=
  inferInstanceAs (Decidable (e.isPush = false ∨ s.main.workersJoined = false))

end PoolLife

/-! ## The steps of a worker -/

namespace Pool

variable {T W : Type} [DecidableEq T] {p p' : Pool T W} {t : T}

/-- Everything that a step of a worker can be. -/
inductive WorkerEffect (p : Pool T W) (t : T) : Pool T W → Prop
  | wait (hpc : p.worker t = .ready ∨ p.worker t = .woken) (hstop : p.stop = false) :
    WorkerEffect p t (p.goTo t .asleep)
  | leave (hpc : p.worker t = .ready ∨ p.worker t = .woken) (hstop : p.stop = true) :
    WorkerEffect p t (p.goTo t .exited)
  | take {n task} (hpc : p.worker t = .ready ∨ p.worker t = .woken) (hstop : p.stop = false)
    (hlast : p.lastTask = some n) (htask : p.tasks.cell n = some task) : WorkerEffect p t
      { p.goTo t (.hasTask n) with queueSize := wrap 32 (p.queueSize - 1),
                                   lastTask := task.prev, taken := p.taken ++ [(t, n)] }
  | start {n task} (hpc : p.worker t = .hasTask n) (htask : p.tasks.cell n = some task) :
    WorkerEffect p t (p.goTo t (.running task.work))
  | finish {work} (hpc : p.worker t = .running work) : WorkerEffect p t (p.goTo t .ready)
  | crash : WorkerEffect p t { p with crash := some .badPointer }

/-- The critical section of a worker. -/
lemma effect_of_workerSection (hpc : p.worker t = .ready ∨ p.worker t = .woken) :
    WorkerEffect p t (p.workerSection t) := by
  unfold workerSection
  split_ifs with hempty hstop
  · exact .wait hpc hempty.2
  · exact .leave hpc hstop
  · split
    next => exact .crash
    next n hlast =>
      split
      next => exact .crash
      next task htask => exact .take hpc (Bool.eq_false_iff.mpr hstop) hlast htask

/-- Every step of a worker is one of those in the list. -/
lemma effect_of_workerStep (hst : p.workerStep t = some p') : WorkerEffect p t p' := by
  unfold workerStep at hst
  split at hst
  next hpc =>
    cases hst
    exact effect_of_workerSection (Or.inl hpc)
  next hpc =>
    cases hst
    exact effect_of_workerSection (Or.inr hpc)
  next n hpc =>
    cases htask : p.tasks.cell n with
    | none =>
      rw [htask] at hst
      cases hst
      exact .crash
    | some task =>
      rw [htask] at hst
      cases hst
      exact .start hpc htask
  next hpc =>
    cases hst
    exact .finish hpc
  next => cases hst
  next => cases hst

/-- A step that takes nothing and moves nobody, but for threads that it wakes. -/
structure Frame (p p' : Pool T W) : Prop where
  taken : p'.taken = p.taken
  stop : p'.stop = p.stop
  worker : ∀ t, p'.worker t = p.worker t ∨ p'.worker t = (p.worker t).wake

omit [DecidableEq T] in
/-- A worker that was woken has a task as before. -/
lemma Frame.hasTask_iff (h : Frame p p') (t : T) (n : ℕ) :
    p'.worker t = .hasTask n ↔ p.worker t = .hasTask n := by
  rcases h.worker t with heq | heq <;> rw [heq]
  cases p.worker t <;> simp [WorkerPc.wake]

/-- The frame of a wake-up. -/
lemma frame_wakeUp (ht : (p.worker t).isAsleep = true) : Frame p (p.goTo t .woken) where
  taken := rfl
  stop := rfl
  worker u := by
    rcases eq_or_ne u t with rfl | hne
    · refine Or.inr ((Function.update_self ..).trans ?_)
      cases hpc : p.worker u <;> rw [hpc] at ht <;> first | rfl | exact Bool.noConfusion ht
    · exact Or.inl (Function.update_of_ne hne ..)

omit [DecidableEq T] in
/-- The frame of a push up to its signal. -/
lemma frame_pushTask {work : W} {new : ℕ} (hpush : p.pushTask work new = some p') :
    p'.taken = p.taken ∧ p'.stop = p.stop ∧ p'.worker = p.worker ∧
      p'.pushed.length ≤ p.pushed.length + 1 := by
  obtain ⟨tasks, -, hrest⟩ := Option.bind_eq_some_iff.mp hpush
  dsimp only at hrest
  split at hrest
  next =>
    cases hrest
    exact ⟨rfl, rfl, rfl, Nat.le_succ _⟩
  next =>
    cases hrest
    exact ⟨rfl, rfl, rfl, List.length_append.le⟩

/-- The frame of a push; it adds a task at most. -/
lemma frame_threadpoolPushTask [Fintype T] {work : W} {malloc : Option ℕ} {target : Option T}
    (hst : p.threadpoolPushTask work malloc target = some p') :
    Frame p p' ∧ p'.pushed.length ≤ p.pushed.length + 1 := by
  unfold threadpoolPushTask at hst
  cases malloc with
  | none =>
    cases hst
    exact ⟨⟨rfl, rfl, fun _ => Or.inl rfl⟩, Nat.le_succ _⟩
  | some new =>
    dsimp only at hst
    split_ifs at hst
    obtain ⟨q, hpush, rfl⟩ := Option.map_eq_some_iff.mp hst
    obtain ⟨htaken, hstop, hworker, hlength⟩ := frame_pushTask hpush
    refine ⟨⟨htaken, hstop, fun u => ?_⟩, hlength⟩
    rw [← hworker]
    exact deliver_eq WorkerPc.wake q.worker target u

end Pool

/-! ## The records -/

namespace PoolLife

variable {T W : Type} [DecidableEq T] {s s' : PoolLife T W} {t : T}

/-- A task was taken by a worker if it was started by it or is going to be, and it is not started
twice. -/
structure Recorded (s : PoolLife T W) : Prop where
  taken : ∀ t n, (t, n) ∈ s.pool.taken ↔ (t, n) ∈ s.started ∨ s.pool.worker t = .hasTask n
  fresh : ∀ t n, s.pool.worker t = .hasTask n → (t, n) ∉ s.started
  nodup : s.started.Nodup

namespace Recorded

omit [DecidableEq T] in
/-- A step that takes nothing and starts nothing. -/
lemma congr (h : s.Recorded) (htaken : s'.pool.taken = s.pool.taken)
    (hstarted : s'.started = s.started)
    (hworker : ∀ t n, s'.pool.worker t = .hasTask n ↔ s.pool.worker t = .hasTask n) :
    s'.Recorded where
  taken t n := by rw [htaken, hstarted, hworker]; exact h.taken t n
  fresh t n := by rw [hworker, hstarted]; exact h.fresh t n
  nodup := hstarted ▸ h.nodup

/-- A worker that has no task goes to a place without one. -/
lemma goTo (h : s.Recorded) {pc : WorkerPc W} (ht : ∀ n, s.pool.worker t ≠ .hasTask n)
    (hpc : ∀ n, pc ≠ .hasTask n) : Recorded { s with pool := s.pool.goTo t pc } := by
  refine h.congr rfl rfl fun u n => ?_
  show Function.update s.pool.worker t pc u = _ ↔ _
  rcases eq_or_ne u t with rfl | hne
  · rw [Function.update_self]
    exact iff_of_false (hpc n) (ht n)
  · rw [Function.update_of_ne hne]

/-- A worker takes a task that nobody has taken. -/
lemma take (h : s.Recorded) {n : ℕ} {pool : Pool T W} (ht : ∀ n, s.pool.worker t ≠ .hasTask n)
    (hfresh : ∀ u, (u, n) ∉ s.pool.taken) (htaken : pool.taken = s.pool.taken ++ [(t, n)])
    (hworker : pool.worker = Function.update s.pool.worker t (.hasTask n)) :
    Recorded { s with pool := pool } where
  taken u m := by
    rw [htaken, hworker, List.mem_append, List.mem_singleton, h.taken]
    rcases eq_or_ne u t with rfl | hne
    · have hnone := ht m
      rw [Function.update_self]
      simp only [Prod.mk.injEq, true_and, WorkerPc.hasTask.injEq, hnone, or_false]
      exact or_congr_right eq_comm
    · rw [Function.update_of_ne hne]
      simp [hne]
  fresh u m hu hmem := by
    rw [hworker] at hu
    rcases eq_or_ne u t with rfl | hne
    · rw [Function.update_self, WorkerPc.hasTask.injEq] at hu
      exact hfresh u (hu ▸ (h.taken u m).mpr (Or.inl hmem))
    · rw [Function.update_of_ne hne] at hu
      exact h.fresh u m hu hmem
  nodup := h.nodup

/-- A worker starts the task that it has. -/
lemma start (h : s.Recorded) {n : ℕ} {work : W} (ht : s.pool.worker t = .hasTask n) :
    Recorded { s with
      pool := s.pool.goTo t (.running work)
      started := s.started ++ [(t, n)] } where
  taken u m := by
    show (u, m) ∈ s.pool.taken ↔ _ ∨ Function.update s.pool.worker t (.running work) u = _
    rw [h.taken, List.mem_append, List.mem_singleton]
    rcases eq_or_ne u t with rfl | hne
    · rw [Function.update_self, ht]
      simp [eq_comm]
    · rw [Function.update_of_ne hne]
      simp [hne]
  fresh u m hu hmem := by
    replace hu : Function.update s.pool.worker t (.running work) u = .hasTask m := hu
    rcases eq_or_ne u t with rfl | hne
    · rw [Function.update_self] at hu
      cases hu
    · rw [Function.update_of_ne hne] at hu
      rcases List.mem_append.mp hmem with hmem | hmem
      · exact h.fresh u m hu hmem
      · exact hne (congrArg Prod.fst (List.mem_singleton.mp hmem))
  nodup := List.nodup_append.mpr ⟨h.nodup, List.nodup_singleton _, fun x hx y hy heq =>
    h.fresh t n ht (List.mem_singleton.mp hy ▸ heq ▸ hx)⟩

end Recorded

/-! ## The invariant -/

variable [Fintype T]

/-- The workers are joined, but for those in the list. -/
structure Stopping (s : PoolLife T W) (left : List T) : Prop where
  stop : s.pool.stop = true
  awake : ∀ t, (s.pool.worker t).isAsleep = false
  joined : ∀ t, t ∉ left → s.pool.worker t = .exited
  freed : s.freed = []
  pool : ∃ chain, s.pool.Invariant chain

/-- The tasks from `current` on are to be freed. -/
structure Freeing (s : PoolLife T W) (current : Option ℕ) (rest : List (ℕ × W)) : Prop where
  exited : ∀ t, s.pool.worker t = .exited
  path : s.pool.tasks.Path Task.prev Task.work current rest none
  /-- A pushed task is in the rest of the chain, or was freed, or was taken. -/
  conserved : (rest.map Prod.fst ++ s.freed ++ s.pool.taken.map Prod.snd).Perm s.pool.pushed
  nodup : s.pool.pushed.Nodup
  freed : ∀ n ∈ s.freed, s.pool.tasks.cell n = none
  /-- Nobody frees a task that was taken. -/
  kept : ∀ n ∈ s.pool.taken.map Prod.snd, s.pool.tasks.cell n ≠ none
  crash : s.pool.crash = none ∨ s.pool.crash = some .outOfMemory

/-- What holds at each place of `destroy_threadpool`. -/
def AtPlace (s : PoolLife T W) : Prop :=
  match s.main with
  | .notCalled => s.pool.stop = false ∧ s.freed = [] ∧ ∃ chain, s.pool.Invariant chain
  | .joining left => s.Stopping left
  | .freeing current => ∃ rest, s.Freeing current rest
  | .returned => s.Freeing none []

/-- The invariant. -/
structure Sound (s : PoolLife T W) : Prop where
  recorded : s.Recorded
  place : s.AtPlace

omit [DecidableEq T] [Fintype T] in
/-- Before the workers are joined a use of the pool is what it is. -/
lemma exists_of_use (hmain : s.main.workersJoined = false) {result : Option (Pool T W)}
    (hst : s.use result = some s') : ∃ p, result = some p ∧ s' = { s with pool := p } := by
  obtain ⟨p, hp, heq⟩ := Option.map_eq_some_iff.mp hst
  refine ⟨p, hp, ?_⟩
  rw [← heq]
  cases hplace : s.main with
  | notCalled => rfl
  | joining left => rfl
  | freeing current => rfl
  | returned =>
    rw [hplace] at hmain
    cases hmain

omit [DecidableEq T] in
/-- The pool of the invariant before the workers are joined. -/
lemma AtPlace.exists_invariant (h : s.AtPlace) (hmain : s.main.workersJoined = false) :
    ∃ chain, s.pool.Invariant chain := by
  unfold AtPlace at h
  cases hplace : s.main with
  | notCalled =>
    rw [hplace] at h
    exact h.2.2
  | joining left =>
    rw [hplace] at h
    exact h.pool
  | freeing current =>
    rw [hplace] at hmain
    cases hmain
  | returned =>
    rw [hplace] at hmain
    cases hmain

omit [DecidableEq T] in
/-- Once the workers are joined, they have left. -/
lemma AtPlace.exited (h : s.AtPlace) (hmain : s.main.workersJoined = true) (t : T) :
    s.pool.worker t = .exited := by
  unfold AtPlace at h
  cases hplace : s.main with
  | notCalled =>
    rw [hplace] at hmain
    cases hmain
  | joining left =>
    rw [hplace] at hmain
    cases hmain
  | freeing current =>
    rw [hplace] at h
    obtain ⟨rest, hrest⟩ := h
    exact hrest.exited t
  | returned =>
    rw [hplace] at h
    exact h.exited t

omit [DecidableEq T] in
/-- The place is kept by a step of the pool that keeps the stop and lets nobody sleep or work again
after it. -/
lemma AtPlace.congr (h : s.AtPlace) (hmain : s.main.workersJoined = false) {p : Pool T W}
    {started : List (T × ℕ)} (hpool : ∃ chain, p.Invariant chain) (hstop : p.stop = s.pool.stop)
    (hworker : s.pool.stop = true → (∀ t, (s.pool.worker t).isAsleep = false) →
      (∀ t, (p.worker t).isAsleep = false) ∧
      ∀ t, s.pool.worker t = .exited → p.worker t = .exited) :
    AtPlace { s with pool := p, started := started } := by
  unfold AtPlace at h ⊢
  dsimp only
  cases hplace : s.main with
  | notCalled =>
    rw [hplace] at h
    exact ⟨hstop.trans h.1, h.2.1, hpool⟩
  | joining left =>
    rw [hplace] at h
    obtain ⟨hawake, hexited⟩ := hworker h.stop h.awake
    exact ⟨hstop.trans h.stop, hawake, fun t ht => hexited t (h.joined t ht), h.freed, hpool⟩
  | freeing current =>
    rw [hplace] at hmain
    cases hmain
  | returned =>
    rw [hplace] at hmain
    cases hmain

namespace Sound

omit [DecidableEq T] in
/-- The pool after `init_threadpool`. -/
lemma init (idSequence : ℤ) : Sound (PoolLife.init idSequence : PoolLife T W) where
  recorded := by
    refine ⟨fun t n => ⟨fun h => (List.not_mem_nil h).elim, fun h => ?_⟩, fun t n h => ?_,
      List.nodup_nil⟩
    · rcases h with h | h
      · exact (List.not_mem_nil h).elim
      · cases h
    · cases h
  place := ⟨rfl, rfl, [], Pool.Invariant.init idSequence⟩

omit [DecidableEq T] in
/-- A step of the pool that only wakes threads. -/
lemma frame (h : s.Sound) (hmain : s.main.workersJoined = false) {p : Pool T W}
    (hpool : ∃ chain, p.Invariant chain) (hframe : s.pool.Frame p) :
    Sound { s with pool := p } where
  recorded := h.recorded.congr hframe.taken rfl hframe.hasTask_iff
  place := by
    refine h.place.congr hmain hpool hframe.stop fun _ hawake => ⟨fun t => ?_, fun t ht => ?_⟩
    · have hsame : (s.pool.worker t).isAsleep = false := hawake t
      rcases hframe.worker t with heq | heq <;> rw [heq]
      · exact hsame
      · cases hpc : s.pool.worker t <;> rfl
    · rcases hframe.worker t with heq | heq <;> rw [heq, ht]
      rfl

/-- The place of `destroy_threadpool` fits after one worker has moved. -/
lemma place_goTo (h : s.Sound) (hmain : s.main.workersJoined = false) {pc : WorkerPc W}
    {started : List (T × ℕ)} (hpool : ∃ chain, (s.pool.goTo t pc).Invariant chain)
    (hawake : s.pool.stop = true → pc.isAsleep = false) (hleft : s.pool.worker t ≠ .exited) :
    AtPlace { s with pool := s.pool.goTo t pc, started := started } := by
  refine h.place.congr hmain hpool rfl fun hstop hall => ⟨fun u => ?_, fun u hu => ?_⟩
  · rcases eq_or_ne u t with rfl | hne
    · exact (congrArg _ (Function.update_self ..)).trans (hawake hstop)
    · exact (congrArg _ (Function.update_of_ne hne ..)).trans (hall u)
  · rcases eq_or_ne u t with rfl | hne
    · exact absurd hu hleft
    · exact (Function.update_of_ne hne ..).trans hu

/-- What is left to do after one worker has moved. -/
lemma toDo_goTo {pc : WorkerPc W} (hlt : pc.toDo + 1 ≤ (s.pool.worker t).toDo) :
    total (s.pool.goTo t pc).worker WorkerPc.toDo + 1 ≤ total s.pool.worker WorkerPc.toDo := by
  have hpaid := total_update s.pool.worker WorkerPc.toDo t pc
  show total (Function.update s.pool.worker t pc) WorkerPc.toDo + 1 ≤ _
  omega

omit [DecidableEq T] [Fintype T] in
/-- A worker without a task starts nothing. -/
lemma startedAfter_eq (ht : ∀ n, s.pool.worker t ≠ .hasTask n) :
    s.startedAfter t = s.started := by
  unfold startedAfter
  split
  next n hn => exact absurd hn (ht n)
  next => rfl

/-- A step of a worker, which after the stop takes nothing and is on its way to the end. -/
lemma worker (h : s.Sound) (hmain : s.main.workersJoined = false) {p : Pool T W}
    (hst : s.pool.workerStep t = some p) :
    Sound { s with pool := p, started := s.startedAfter t } ∧
      p.pushed = s.pool.pushed ∧ (s.pool.stop = true → p.taken = s.pool.taken ∧
        total p.worker WorkerPc.toDo + 1 ≤ total s.pool.worker WorkerPc.toDo) := by
  obtain ⟨chain, hinv⟩ := h.place.exists_invariant hmain
  have hpool := hinv.workerStep hst
  -- the places where a worker looks at the queue
  have hlook : s.pool.worker t = .ready ∨ s.pool.worker t = .woken →
      (∀ n, s.pool.worker t ≠ .hasTask n) ∧ s.pool.worker t ≠ .exited ∧
        (s.pool.worker t).toDo = 1 := by
    rintro (hpc | hpc) <;> rw [hpc] <;> simp [WorkerPc.toDo]
  cases Pool.effect_of_workerStep hst with
  | wait hpc hstop =>
    obtain ⟨hnone, hleft, -⟩ := hlook hpc
    have hgo : ¬ s.pool.stop = true := Bool.eq_false_iff.mp hstop
    rw [startedAfter_eq hnone]
    exact ⟨⟨h.recorded.goTo hnone (by rintro n ⟨⟩), h.place_goTo hmain hpool
      (fun hstop => absurd hstop hgo) hleft⟩, rfl, fun hstop => absurd hstop hgo⟩
  | leave hpc hstop =>
    obtain ⟨hnone, hleft, htodo⟩ := hlook hpc
    rw [startedAfter_eq hnone]
    exact ⟨⟨h.recorded.goTo hnone (by rintro n ⟨⟩), h.place_goTo hmain hpool (fun _ => rfl) hleft⟩,
      rfl, fun _ => ⟨rfl, toDo_goTo htodo.ge⟩⟩
  | @take n task hpc hstop hlast htask =>
    obtain ⟨hnone, hleft, -⟩ := hlook hpc
    have hgo : ¬ s.pool.stop = true := Bool.eq_false_iff.mp hstop
    rw [startedAfter_eq hnone]
    refine ⟨⟨h.recorded.take hnone (fun u hmem => ?_) rfl rfl, ?_⟩, rfl,
      fun hstop => absurd hstop hgo⟩
    · -- the last task is in the chain, so nobody has taken it
      have hhead := hinv.path.start_eq_of_null
      rw [hlast] at hhead
      obtain ⟨x, hx, hn⟩ := Option.map_eq_some_iff.mp hhead.symm
      have hchain : n ∈ chain.map Prod.fst := hn ▸ List.mem_map_of_mem (List.mem_of_mem_head? hx)
      have hdisjoint := (List.nodup_append.mp (hinv.conserved.nodup_iff.mpr hinv.nodup)).2.2
      exact hdisjoint n hchain n (List.mem_map_of_mem hmem) rfl
    · exact h.place.congr hmain hpool rfl fun hstop => absurd hstop hgo
  | @start n task hpc htask =>
    have hstarted : s.startedAfter t = s.started ++ [(t, n)] := by
      unfold startedAfter
      rw [hpc]
    rw [hstarted]
    refine ⟨⟨h.recorded.start hpc, h.place_goTo hmain hpool (fun _ => rfl) ?_⟩, rfl,
      fun _ => ⟨rfl, toDo_goTo ?_⟩⟩
    · rw [hpc]
      rintro ⟨⟩
    · rw [hpc]
      exact le_rfl
  | @finish work hpc =>
    have hnone : ∀ n, s.pool.worker t ≠ .hasTask n := by
      rw [hpc]
      rintro n ⟨⟩
    rw [startedAfter_eq hnone]
    refine ⟨⟨h.recorded.goTo hnone (by rintro n ⟨⟩), h.place_goTo hmain hpool (fun _ => rfl) ?_⟩,
      rfl, fun _ => ⟨rfl, toDo_goTo ?_⟩⟩
    · rw [hpc]
      rintro ⟨⟩
    · rw [hpc]
      exact le_rfl
  | crash =>
    obtain ⟨chain', hinv'⟩ := hpool
    rcases hinv'.crash with hcrash | hcrash <;> cases hcrash

/-- The stop of the pool. -/
lemma stop (h : s.Sound) (hmain : s.main = .notCalled) (hcrash : s.pool.crash = none)
    {handles : List T} (hhandles : ∀ t, t ∈ handles) :
    Sound { s with pool := s.pool.destroySection, main := .joining handles } := by
  have hplace := h.place
  unfold AtPlace at hplace
  rw [hmain] at hplace
  obtain ⟨-, hfreed, chain, hinv⟩ := hplace
  have hst : s.pool.step .destroy = some s.pool.destroySection := by
    unfold Pool.step
    rw [hcrash]
    rfl
  have hawake : ∀ pc : WorkerPc W, pc.wake.isAsleep = false := by
    intro pc
    cases pc <;> rfl
  refine ⟨h.recorded.congr rfl rfl fun t n => ?_, rfl, fun t => hawake _,
    fun t ht => absurd (hhandles t) ht, hfreed, hinv.step hst⟩
  show (s.pool.worker t).wake = .hasTask n ↔ _
  cases s.pool.worker t <;> simp [WorkerPc.wake]

omit [DecidableEq T] in
/-- A worker is joined. -/
lemma join {left : List T} (h : s.Sound) (hmain : s.main = .joining (t :: left))
    (ht : s.pool.worker t = .exited) : Sound { s with main := .joining left } := by
  have hplace := h.place
  unfold AtPlace at hplace
  rw [hmain] at hplace
  refine ⟨h.recorded.congr rfl rfl fun _ _ => Iff.rfl, hplace.stop, hplace.awake, fun u hu => ?_,
    hplace.freed, hplace.pool⟩
  by_cases heq : u = t
  · exact heq ▸ ht
  · exact hplace.joined u fun hmem => (List.mem_cons.mp hmem).elim heq hu

omit [DecidableEq T] in
/-- All workers are joined. -/
lemma joined (h : s.Sound) (hmain : s.main = .joining []) :
    Sound { s with main := .freeing s.pool.lastTask } := by
  have hplace := h.place
  unfold AtPlace at hplace
  rw [hmain] at hplace
  obtain ⟨chain, hinv⟩ := hplace.pool
  refine ⟨h.recorded.congr rfl rfl fun _ _ => Iff.rfl, chain,
    fun t => hplace.joined t List.not_mem_nil, hinv.path, ?_, hinv.nodup, ?_, ?_, hinv.crash⟩
  · show (chain.map Prod.fst ++ s.freed ++ _).Perm _
    rw [hplace.freed, List.append_nil]
    exact hinv.conserved
  · intro n hn
    replace hn : n ∈ s.freed := hn
    rw [hplace.freed] at hn
    exact absurd hn List.not_mem_nil
  · intro n hn
    exact hinv.allocated n (hinv.conserved.subset (List.mem_append_right _ hn))

omit [DecidableEq T] in
/-- A task of the chain is freed. -/
lemma free {n : ℕ} (h : s.Sound) (hmain : s.main = .freeing (some n)) :
    ∃ task, s.pool.tasks.cell n = some task ∧ s.freed.length < s.pool.pushed.length ∧
      Sound { s with pool := { s.pool with tasks := s.pool.tasks.set n none },
                     main := .freeing task.prev, freed := s.freed ++ [n] } := by
  have hplace := h.place
  unfold AtPlace at hplace
  rw [hmain] at hplace
  obtain ⟨rest, hfreeing⟩ := hplace
  obtain ⟨x, rest, rfl⟩ : ∃ x rest', rest = x :: rest' := by
    cases rest with
    | nil => cases hfreeing.path.eq_of_nil
    | cons x rest => exact ⟨x, rest, rfl⟩
  obtain rfl : n = x.1 := Option.some.inj hfreeing.path.start_eq
  obtain ⟨task, htask, -, hpath⟩ := hfreeing.path.head
  have hnodup := hfreeing.conserved.nodup_iff.mpr hfreeing.nodup
  have hlength := hfreeing.conserved.length_eq
  simp only [List.map_cons, List.cons_append, List.length_cons, List.length_append] at hlength
  refine ⟨task, htask, by omega, h.recorded.congr rfl rfl fun _ _ => Iff.rfl, rest,
    hfreeing.exited, ?_, ?_, hfreeing.nodup, ?_, ?_, hfreeing.crash⟩
  · have hfresh := (List.nodup_cons.mp hfreeing.path.nodup).1
    exact hpath.set_of_notMem hfresh none
  · refine List.Perm.trans ?_ hfreeing.conserved
    show (rest.map Prod.fst ++ (s.freed ++ [x.1]) ++ _).Perm
      (x.1 :: rest.map Prod.fst ++ s.freed ++ _)
    refine List.Perm.append_right _ ?_
    rw [← List.append_assoc]
    exact List.perm_append_singleton x.1 _
  · intro m hm
    show (s.pool.tasks.set x.1 none).cell m = none
    refine Heap.cell_set_none _ ?_
    rcases List.mem_append.mp hm with hm | hm
    · exact Or.inl (hfreeing.freed m hm)
    · exact Or.inr (List.mem_singleton.mp hm)
  · intro m hm
    show (s.pool.tasks.set x.1 none).cell m ≠ none
    have hne : m ≠ x.1 := by
      rintro rfl
      exact (List.nodup_cons.mp hnodup).1 (List.mem_append_right _ hm)
    rw [Heap.cell_set_of_ne hne]
    exact hfreeing.kept m hm

omit [DecidableEq T] in
/-- The chain is freed. -/
lemma finish (h : s.Sound) (hmain : s.main = .freeing none) :
    Sound { s with main := .returned } := by
  have hplace := h.place
  unfold AtPlace at hplace
  rw [hmain] at hplace
  obtain ⟨rest, hfreeing⟩ := hplace
  have hrest : rest = [] := by
    cases rest with
    | nil => rfl
    | cons x rest => cases hfreeing.path.start_eq
  subst hrest
  exact ⟨h.recorded.congr rfl rfl fun _ _ => Iff.rfl, hfreeing.exited, hfreeing.path,
    hfreeing.conserved, hfreeing.nodup, hfreeing.freed, hfreeing.kept, hfreeing.crash⟩

end Sound

/-! ## The steps -/

/-- The steps of `destroy_threadpool` that are left once it is called. -/
def toDo (s : PoolLife T W) : ℕ :=
  total s.pool.worker WorkerPc.toDo +
    match s.main with
    | .notCalled => 0
    | .joining left => left.length + s.pool.pushed.length + 2
    | .freeing _ => s.pool.pushed.length - s.freed.length + 1
    | .returned => 0

/-- What a step does after `destroy_threadpool` was called: nothing is taken, and less is left to
do, unless the step is a push. -/
structure Ending (s s' : PoolLife T W) (granted : ℕ) : Prop where
  called : s'.main ≠ .notCalled
  taken : s'.pool.taken = s.pool.taken
  toDo : s'.toDo + 1 ≤ s.toDo + granted

omit [DecidableEq T] in
/-- A step of a worker or of a push while `destroy_threadpool` waits for the workers. -/
lemma ending_of_joining {left : List T} {p : Pool T W} {started : List (T × ℕ)} {granted : ℕ}
    (hmain : s.main = .joining left) (htaken : p.taken = s.pool.taken)
    (htodo : total p.worker WorkerPc.toDo + p.pushed.length + 1 ≤
      total s.pool.worker WorkerPc.toDo + s.pool.pushed.length + granted) :
    Ending s { s with pool := p, started := started } granted := by
  refine ⟨?_, htaken, ?_⟩
  · show s.main ≠ .notCalled
    rw [hmain]
    rintro ⟨⟩
  · unfold toDo
    simp only [hmain]
    omega

omit [DecidableEq T] [Fintype T] in
/-- Between its call and the end of the joins `destroy_threadpool` joins. -/
lemma exists_joining (hcalled : s.main ≠ .notCalled) (hmain : s.main.workersJoined = false) :
    ∃ left, s.main = .joining left := by
  cases hplace : s.main with
  | notCalled => exact absurd hplace hcalled
  | joining left => exact ⟨left, rfl⟩
  | freeing current =>
    rw [hplace] at hmain
    cases hmain
  | returned =>
    rw [hplace] at hmain
    cases hmain

omit [DecidableEq T] in
/-- While the workers are joined, the pool is stopped and nobody sleeps. -/
lemma AtPlace.stopping {left : List T} (h : s.AtPlace) (hmain : s.main = .joining left) :
    s.Stopping left := by
  unfold AtPlace at h
  rw [hmain] at h
  exact h

/-- A step of `destroy_threadpool`. -/
lemma Sound.destroyThreadpool {handles : List T} (hhandles : ∀ t, t ∈ handles) (h : s.Sound)
    (hcrash : s.pool.crash = none) (hst : s.destroyThreadpool handles = some s') :
    s'.Sound ∧ (s.main ≠ .notCalled → Ending s s' 0) := by
  unfold PoolLife.destroyThreadpool at hst
  split at hst
  next hmain =>
    cases hst
    exact ⟨h.stop hmain hcrash hhandles, fun hcalled => absurd hmain hcalled⟩
  next t left hmain =>
    split at hst
    next ht =>
      cases hst
      refine ⟨h.join hmain ht, fun _ => ⟨by rintro ⟨⟩, rfl, ?_⟩⟩
      unfold toDo
      simp only [hmain, List.length_cons]
      omega
    next => cases hst
  next hmain =>
    cases hst
    refine ⟨h.joined hmain, fun _ => ⟨by rintro ⟨⟩, rfl, ?_⟩⟩
    unfold toDo
    simp only [hmain, List.length_nil]
    omega
  next n hmain =>
    obtain ⟨task, htask, hlt, hsound⟩ := h.free hmain
    rw [htask] at hst
    cases hst
    refine ⟨hsound, fun _ => ⟨by rintro ⟨⟩, rfl, ?_⟩⟩
    unfold toDo
    simp only [hmain, List.length_append, List.length_singleton]
    omega
  next hmain =>
    cases hst
    refine ⟨h.finish hmain, fun _ => ⟨by rintro ⟨⟩, rfl, ?_⟩⟩
    unfold toDo
    simp only [hmain]
    omega
  next => cases hst

/-- Every step keeps the invariant, and once `destroy_threadpool` is called it leads to its end. -/
lemma Sound.step {handles : List T} (hhandles : ∀ t, t ∈ handles) (h : s.Sound)
    {e : LifeEvent T W} (hok : s.beforeFree e) (hst : PoolLife.step handles s e = some s') :
    s'.Sound ∧ (s.main ≠ .notCalled → Ending s s' (2 * e.isPush.toNat)) := by
  unfold PoolLife.step at hst
  split_ifs at hst with hcrash
  replace hcrash : s.pool.crash = none := by simpa using hcrash
  cases e with
  | push work malloc target =>
    have hmain : s.main.workersJoined = false := hok.resolve_left Bool.noConfusion
    obtain ⟨p, hp, rfl⟩ := exists_of_use hmain hst
    obtain ⟨hframe, hlength⟩ := Pool.frame_threadpoolPushTask hp
    obtain ⟨chain, hinv⟩ := h.place.exists_invariant hmain
    refine ⟨h.frame hmain (hinv.threadpoolPushTask hp) hframe, fun hcalled => ?_⟩
    obtain ⟨left, hleft⟩ := exists_joining hcalled hmain
    refine ending_of_joining hleft hframe.taken ?_
    have hworker : p.worker = s.pool.worker := by
      funext t
      have hawake := (h.place.stopping hleft).awake t
      rcases hframe.worker t with heq | heq <;> rw [heq]
      cases hpc : s.pool.worker t <;> rw [hpc] at hawake <;>
        first | rfl | exact Bool.noConfusion hawake
    rw [hworker]
    show _ ≤ _ + 2
    omega
  | worker t =>
    obtain ⟨q, hq, rfl⟩ := Option.map_eq_some_iff.mp hst
    cases hmain : s.main.workersJoined with
    | true =>
      -- a worker that was joined has left
      obtain ⟨p, hp, -⟩ := Option.map_eq_some_iff.mp hq
      unfold Pool.workerStep at hp
      rw [h.place.exited hmain t] at hp
      cases hp
    | false =>
      obtain ⟨p, hp, rfl⟩ := exists_of_use hmain hq
      obtain ⟨hsound, hpushed, hstopped⟩ := h.worker hmain hp
      refine ⟨hsound, fun hcalled => ?_⟩
      obtain ⟨left, hleft⟩ := exists_joining hcalled hmain
      obtain ⟨htaken, htodo⟩ := hstopped (h.place.stopping hleft).stop
      refine ending_of_joining hleft htaken ?_
      show total p.worker WorkerPc.toDo + p.pushed.length + 1 ≤ _
      rw [hpushed]
      rw [Nat.add_right_comm]
      exact Nat.add_le_add_right htodo _
  | wakeUp t =>
    obtain ⟨p, hp, -⟩ := Option.map_eq_some_iff.mp hst
    split_ifs at hp with hasleep
    have hmain : s.main.workersJoined = false := by
      by_contra hover
      rw [h.place.exited (by simpa using hover) t] at hasleep
      cases hasleep
    obtain ⟨p, hp, rfl⟩ := exists_of_use hmain hst
    rw [if_pos hasleep] at hp
    cases hp
    obtain ⟨chain, hinv⟩ := h.place.exists_invariant hmain
    have hpool : s.pool.step (.wakeUp t) = some (s.pool.goTo t .woken) := by
      unfold Pool.step
      rw [hcrash]
      exact if_pos hasleep
    refine ⟨h.frame hmain (hinv.step hpool) (Pool.frame_wakeUp hasleep), fun hcalled => ?_⟩
    obtain ⟨left, hleft⟩ := exists_joining hcalled hmain
    rw [(h.place.stopping hleft).awake t] at hasleep
    cases hasleep
  | destroy => exact h.destroyThreadpool hhandles hcrash hst

/-- The invariant holds in every run without a late push. -/
lemma Sound.of_run {handles : List T} (hhandles : ∀ t, t ∈ handles) {idSequence : ℤ}
    (h : Run (PoolLife.step handles) beforeFree (PoolLife.init idSequence) s) : s.Sound :=
  h.invariant (Sound.init idSequence) fun _ _ _ hs hok hst => (hs.step hhandles hok hst).1

omit [Fintype T] in
/-- A worker that is awake and has not left can make a step. -/
lemma exists_workerStep {p : Pool T W} (hawake : (p.worker t).isAsleep = false)
    (hleft : p.worker t ≠ .exited) : ∃ p', p.workerStep t = some p' := by
  unfold Pool.workerStep
  cases hpc : p.worker t with
  | ready => exact ⟨_, rfl⟩
  | woken => exact ⟨_, rfl⟩
  | running work => exact ⟨_, rfl⟩
  | exited => exact absurd hpc hleft
  | asleep =>
    rw [hpc] at hawake
    cases hawake
  | hasTask n =>
    cases htask : p.tasks.cell n with
    | none => exact ⟨_, by simp only [htask]; rfl⟩
    | some task => exact ⟨_, by simp only [htask]; rfl⟩

omit [DecidableEq T] in
/-- Nothing but a failed allocation ends the program. -/
lemma Sound.crash_eq (h : s.Sound) : s.pool.crash = none ∨ s.pool.crash = some .outOfMemory := by
  have hplace := h.place
  unfold AtPlace at hplace
  split at hplace
  next =>
    obtain ⟨chain, hinv⟩ := hplace.2.2
    exact hinv.crash
  next =>
    obtain ⟨chain, hinv⟩ := hplace.pool
    exact hinv.crash
  next =>
    obtain ⟨rest, hrest⟩ := hplace
    exact hrest.crash
  next => exact hplace.crash

/-- Only a push allocates memory. -/
lemma isPush_of_outOfMemory {handles : List T} {e : LifeEvent T W} (hcrash : s.pool.crash = none)
    (hst : PoolLife.step handles s e = some s') (hmemory : s'.pool.crash = some .outOfMemory) :
    e.isPush = true := by
  have hnot : s.pool.crash ≠ some .outOfMemory := by rw [hcrash]; exact (Option.some_ne_none _).symm
  have huse : ∀ result, s.use result = some s' → ∃ p, result = some p ∧
      p.crash = some .outOfMemory := by
    intro result hresult
    obtain ⟨p, hp, rfl⟩ := Option.map_eq_some_iff.mp hresult
    refine ⟨p, hp, ?_⟩
    split at hmemory
    · cases hmemory
    · exact hmemory
  unfold PoolLife.step at hst
  rw [hcrash] at hst
  cases e with
  | push work malloc target => rfl
  | worker t =>
    obtain ⟨r, hr, rfl⟩ := Option.map_eq_some_iff.mp hst
    obtain ⟨p, hp, heq⟩ := Option.map_eq_some_iff.mp hr
    have hp' : p.crash = some .outOfMemory := by
      subst heq
      split at hmemory
      · cases hmemory
      · exact hmemory
    cases Pool.effect_of_workerStep hp with
    | crash => cases hp'
    | _ => exact absurd hp' hnot
  | wakeUp t =>
    obtain ⟨p, hp, hp'⟩ := huse _ hst
    split_ifs at hp
    cases hp
    exact absurd hp' hnot
  | destroy =>
    replace hst : s.destroyThreadpool handles = some s' := hst
    unfold destroyThreadpool at hst
    split at hst
    all_goals
      (try split at hst) <;>
        first
          | (cases hst; done)
          | (cases hst; exact absurd hmemory hnot)
          | (cases hst; cases hmemory)

/-- Until the pool is freed, `destroy_threadpool` or a worker can make a step. -/
lemma Sound.exists_event {handles : List T} (h : s.Sound) (hcalled : s.main ≠ .notCalled)
    (hback : s.main ≠ .returned) (hcrash : s.pool.crash = none) :
    ∃ e s', e.isPush = false ∧ PoolLife.step handles s e = some s' := by
  have hgo : s.pool.crash.isSome = false := by rw [hcrash]; rfl
  have hdestroy : ∀ s', s.destroyThreadpool handles = some s' →
      ∃ e s', e.isPush = false ∧ PoolLife.step handles s e = some s' := by
    intro s' hst
    refine ⟨.destroy, s', rfl, ?_⟩
    unfold PoolLife.step
    rw [hgo]
    exact hst
  cases hmain : s.main with
  | notCalled => exact absurd hmain hcalled
  | returned => exact absurd hmain hback
  | freeing current =>
    cases current with
    | none => exact hdestroy _ (by unfold PoolLife.destroyThreadpool; rw [hmain])
    | some n =>
      obtain ⟨task, htask, -⟩ := h.free hmain
      exact hdestroy _ (by unfold PoolLife.destroyThreadpool; simp only [hmain, htask]; rfl)
  | joining left =>
    cases left with
    | nil => exact hdestroy _ (by unfold PoolLife.destroyThreadpool; rw [hmain])
    | cons t left =>
      by_cases ht : s.pool.worker t = .exited
      · exact hdestroy _ (by unfold PoolLife.destroyThreadpool; simp only [hmain, ht]; rfl)
      · obtain ⟨p, hp⟩ := exists_workerStep ((h.place.stopping hmain).awake t) ht
        have hsome : (PoolLife.step handles s (.worker t)).isSome = true := by
          unfold PoolLife.step use
          simp [hgo, hp]
        exact ⟨.worker t, _, rfl, (Option.some_get hsome).symm⟩

/-- With that step the program goes on. -/
lemma Sound.exists_step {handles : List T} (hhandles : ∀ t, t ∈ handles) (h : s.Sound)
    (hcalled : s.main ≠ .notCalled) (hback : s.main ≠ .returned) (hcrash : s.pool.crash = none) :
    ∃ e s', e.isPush = false ∧ PoolLife.step handles s e = some s' ∧ s'.pool.crash = none := by
  obtain ⟨e, s', hpush, hst⟩ := h.exists_event hcalled hback hcrash
  have hs' : s'.Sound := (h.step hhandles (Or.inl hpush) hst).1
  refine ⟨e, s', hpush, hst, hs'.crash_eq.resolve_right ?_⟩
  intro hmemory
  exact Bool.false_ne_true (hpush.symm.trans (isPush_of_outOfMemory hcrash hst hmemory))

/-! ## Main results -/

/-- Whenever `destroy_threadpool` is called, and whatever the workers and the pushes before the end
of the joins do: no bad pointer is followed, and no task is executed twice or without having been
taken.  When the pool is freed all workers have left, a task that was taken was executed and is
still allocated, and every other task was freed, exactly once. -/
theorem destroy_conserves {handles : List T} (hhandles : ∀ t, t ∈ handles) {idSequence : ℤ}
    (h : Run (step handles) beforeFree (init idSequence) s) :
    (s.pool.crash = none ∨ s.pool.crash = some .outOfMemory) ∧
    s.started.Nodup ∧ (∀ x ∈ s.started, x ∈ s.pool.taken) ∧
    (s.main = .returned → (∀ t, s.pool.worker t = .exited) ∧ s.started.Perm s.pool.taken ∧
      (s.freed ++ s.pool.taken.map Prod.snd).Perm s.pool.pushed ∧ s.pool.pushed.Nodup ∧
      (∀ n ∈ s.freed, s.pool.tasks.cell n = none) ∧
      ∀ n ∈ s.pool.taken.map Prod.snd, s.pool.tasks.cell n ≠ none) := by
  have hsound := Sound.of_run hhandles h
  refine ⟨hsound.crash_eq, hsound.recorded.nodup,
    fun x hx => (hsound.recorded.taken _ _).mpr (Or.inl hx), fun hmain => ?_⟩
  have hplace := hsound.place
  unfold AtPlace at hplace
  rw [hmain] at hplace
  have hconserved := hplace.conserved
  rw [List.map_nil, List.nil_append] at hconserved
  refine ⟨hplace.exited, ?_, hconserved, hplace.nodup, hplace.freed, hplace.kept⟩
  have htaken : s.pool.taken.Nodup := by
    have hnodup := hconserved.nodup_iff.mpr hplace.nodup
    exact (List.nodup_append.mp hnodup).2.1.of_map _
  refine (List.perm_ext_iff_of_nodup hsound.recorded.nodup htaken).mpr fun x => ?_
  rw [hsound.recorded.taken x.1 x.2, hplace.exited x.1]
  exact ⟨Or.inl, fun hx => hx.resolve_right (by rintro ⟨⟩)⟩

/-- Two tasks are pushed and one is taken before the stop; the other one is freed. -/
def twoTasks : List (LifeEvent Bool Unit) :=
  [.push () (some 0) none, .push () (some 1) none, .worker true, .destroy, .worker true,
    .worker false, .worker true, .worker true]

/-- The steps of `destroy_threadpool` after these. -/
def twoTasksFreed : List (LifeEvent Bool Unit) :=
  [.destroy, .destroy, .destroy, .destroy, .destroy]

/-- The run to its end. -/
theorem destroy_conserves_two : ∃ s : PoolLife Bool Unit, s.main = .returned ∧ s.freed = [0] ∧
    s.started.Perm s.pool.taken ∧ (s.freed ++ s.pool.taken.map Prod.snd).Perm s.pool.pushed := by
  have hrun := Run.get_execWhere (step [true, false]) beforeFree (init 7 : PoolLife Bool Unit)
    (twoTasks ++ twoTasksFreed) (by decide +kernel)
  have hconserved := destroy_conserves (by decide) hrun
  have hmain : ((execWhere (step [true, false]) beforeFree (init 7 : PoolLife Bool Unit)
    (twoTasks ++ twoTasksFreed)).get (by decide +kernel)).main = .returned := by rfl
  exact ⟨_, hmain, by rfl, (hconserved.2.2.2 hmain).2.1, (hconserved.2.2.2 hmain).2.2.1⟩

/-- From the critical section of `destroy_threadpool` on, while nothing is pushed once the workers
are joined: the threads make no more steps than are left to do, and two for each later push; nothing
more is taken; and until the pool is freed some thread can make a step, unless a push has got no
memory.  A worker has three steps to do at most, and a task one. -/
theorem destroy_terminates {handles : List T} (hhandles : ∀ t, t ∈ handles) {idSequence : ℤ}
    (h : Run (step handles) beforeFree (init idSequence) s) (hcalled : s.main ≠ .notCalled) :
    (∀ es s', execWhere (step handles) beforeFree s es = some s' →
      es.length ≤ s.toDo + 2 * es.countP LifeEvent.isPush ∧ s'.pool.taken = s.pool.taken ∧
      (s'.main ≠ .returned → s'.pool.crash = none →
        ∃ e s'', e.isPush = false ∧ step handles s' e = some s'' ∧ s''.pool.crash = none)) ∧
    ∀ left, s.main = .joining left →
      s.toDo ≤ Fintype.card T * 3 + left.length + s.pool.pushed.length + 2 := by
  have hsound := Sound.of_run hhandles h
  refine ⟨fun es s' hes => ?_, fun left hmain => ?_⟩
  · have hrun := Run.of_execWhere hes
    obtain ⟨hsound', hcalled', htaken⟩ : s'.Sound ∧ s'.main ≠ .notCalled ∧
        s'.pool.taken = s.pool.taken := by
      refine hrun.invariant (I := fun s' => s'.Sound ∧ s'.main ≠ .notCalled ∧
        s'.pool.taken = s.pool.taken) ⟨hsound, hcalled, rfl⟩ fun u e u' hu hok hst => ?_
      obtain ⟨hnext, hending⟩ := hu.1.step hhandles hok hst
      have hend := hending hu.2.1
      exact ⟨hnext, hend.called, hend.taken.trans hu.2.2⟩
    refine ⟨?_, htaken, hsound'.exists_step hhandles hcalled'⟩
    have hlength : es.length + s'.toDo ≤ s.toDo +
        granted (step handles) (fun _ e => 2 * e.isPush.toNat) s es := by
      refine length_le_of_potential (I := fun s => s.Sound ∧ s.main ≠ .notCalled)
        ⟨hsound, hcalled⟩ (fun u e u' hu hok hst => ?_) hes
      obtain ⟨hnext, hending⟩ := hu.1.step hhandles hok hst
      have hend := hending hu.2
      exact ⟨⟨hnext, hend.called⟩, hend.toDo⟩
    have hgranted : granted (step handles) (fun _ e => 2 * e.isPush.toNat) s es ≤
        2 * es.countP LifeEvent.isPush := granted_le (fun _ _ => le_rfl) s es
    omega
  · have hbound : total s.pool.worker WorkerPc.toDo ≤ Fintype.card T * 3 := by
      refine total_le fun pc => ?_
      cases pc <;> simp [WorkerPc.toDo]
    unfold toDo
    simp only [hmain]
    omega

/-- The same run: nothing is taken after the stop. -/
theorem destroy_terminates_two : ∃ s s' : PoolLife Bool Unit,
    s.main ≠ .notCalled ∧ s'.main = .returned ∧ s'.pool.taken = s.pool.taken := by
  have hrun := Run.get_execWhere (step [true, false]) beforeFree (init 7 : PoolLife Bool Unit)
    twoTasks (by decide +kernel)
  have hcalled : ((execWhere (step [true, false]) beforeFree (init 7 : PoolLife Bool Unit)
    twoTasks).get (by decide +kernel)).main ≠ .notCalled := by rintro ⟨⟩
  have hrest := (Option.some_get (x := execWhere (step [true, false]) beforeFree
    ((execWhere (step [true, false]) beforeFree (init 7 : PoolLife Bool Unit)
      twoTasks).get (by decide +kernel)) twoTasksFreed) (by decide +kernel)).symm
  exact ⟨_, _, hcalled, by rfl, ((destroy_terminates (by decide) hrun hcalled).1 _ _ hrest).2.1⟩

end PoolLife

end OsLabs.Threadpool
