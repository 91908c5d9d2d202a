import OsLabs.Foundation.CondVar
import OsLabs.Foundation.Heap
import OsLabs.Foundation.MachineInt
import OsLabs.Foundation.Transition

/-!
# The thread pool

`lab3/src/threadpool/threadpool.c`: any number of workers, and any number of threads that call
`threadpool_push_task`.  A step is a critical section of `pool->mutex`: a push with its signal, the
test of a worker with what follows until it waits, leaves or has taken a task, and the stop of
`destroy_threadpool` with its broadcast.  A worker in `pthread_cond_wait` is asleep until a wake-up
is delivered to it, by a signal or for no reason.

`queue_size` is an `int`. The tasks are linked both ways, but a worker takes the last one without
touching the `next` field of the one before, so `next` pointers may be stale and nobody reads them;
the queue is the chain of `prev` pointers from `last_task`. A task is not freed after its execution.

`pushed` and `taken` are not in the source: they record the tasks by the addresses of their nodes.
-/

namespace OsLabs.Threadpool

open Transition

/-- `task_t`; `W` is the type of a function with its argument. -/
structure Task (W : Type) where
  id : ℤ
  work : W
  next : Option ℕ
  prev : Option ℕ

/-- Where a worker is. -/
inductive WorkerPc (W : Type)
  /-- At `pthread_mutex_lock`. -/
  | ready
  /-- In `pthread_cond_wait`, and no wake-up was delivered. -/
  | asleep
  /-- A wake-up was delivered; the mutex is to be taken again. -/
  | woken
  /-- The mutex was released, with the value of `task`. -/
  | hasTask (task : ℕ)
  /-- In `task->function(task->argument)`. -/
  | running (work : W)
  /-- The worker has returned. -/
  | exited

/-- Why the program ends. -/
inductive Crash
  /-- NULL, the answer of a failed `malloc`, is followed. -/
  | outOfMemory
  /-- Another bad pointer is followed. -/
  | badPointer
  deriving DecidableEq, Repr

/-- The pool and its workers. -/
structure Pool (T W : Type) where
  tasks : Heap (Task W)
  lastTask : Option ℕ
  /-- An `int`. -/
  queueSize : ℤ
  stop : Bool
  /-- An `int`, which `init_threadpool` leaves as it finds it. -/
  idSequence : ℤ
  worker : T → WorkerPc W
  crash : Option Crash
  /-- The tasks of all pushes. -/
  pushed : List ℕ
  /-- The tasks that were taken, with the workers. -/
  taken : List (T × ℕ)

/-- What the code does not decide: who makes the next step, the arguments and the `malloc` of a
push, and which worker a signal wakes. -/
inductive Event (T W : Type)
  | push (work : W) (malloc : Option ℕ) (target : Option T)
  | worker (t : T)
  | wakeUp (t : T)
  | destroy

namespace WorkerPc

variable {W : Type}

/-- The worker sleeps. -/
def isAsleep : WorkerPc W → Bool
  | .asleep => true
  | _ => false

/-- The worker was woken and is going to look at the queue. -/
def isWoken : WorkerPc W → Bool
  | .woken => true
  | _ => false

/-- What a wake-up does to a worker. -/
def wake : WorkerPc W → WorkerPc W
  | .asleep => .woken
  | pc => pc

/-- What a wake-up does to a sleeping worker. -/
lemma wake_asleep (pc : WorkerPc W) (h : pc.isAsleep = true) :
    pc.wake.isAsleep = false ∧ pc.wake.isWoken = true ∧ pc.isWoken = false := by
  cases pc <;> first | exact ⟨rfl, rfl, rfl⟩ | exact Bool.noConfusion h

end WorkerPc

namespace Pool

variable {T W : Type} [DecidableEq T] [Fintype T]

/-- The pool after `init_threadpool`, with what was in `id_sequence`. -/
def init (idSequence : ℤ) : Pool T W :=
  ⟨Heap.empty, none, 0, false, idSequence, fun _ => .ready, none, [], []⟩

/-- The worker is at another place. -/
def goTo (p : Pool T W) (t : T) (pc : WorkerPc W) : Pool T W :=
  { p with worker := Function.update p.worker t pc }

/-- The critical section of `threadpool_push_task` up to the signal, with the address of the new
task. -/
def pushTask (p : Pool T W) (work : W) (new : ℕ) : Option (Pool T W) := do
  let tasks ← p.tasks.alloc new ⟨p.idSequence, work, none, p.lastTask⟩
  let linked :=
    if p.lastTask.isSome then tasks.modify p.lastTask fun task => { task with next := some new }
    else some tasks
  match linked with
  | none => some { p with crash := some .badPointer }
  | some tasks =>
    some { p with tasks := tasks, lastTask := some new, queueSize := wrap 32 (p.queueSize + 1),
                  idSequence := wrap 32 (p.idSequence + 1), pushed := p.pushed ++ [new] }

/-- `threadpool_push_task`; a failed `malloc` is not noticed, and NULL is followed. -/
def threadpoolPushTask (p : Pool T W) (work : W) (malloc : Option ℕ) (target : Option T) :
    Option (Pool T W) :=
  match malloc with
  | none => some { p with crash := some .outOfMemory }
  | some new =>
    if maySignal (fun t => (p.worker t).isAsleep) target then
      (p.pushTask work new).map fun p => { p with worker := deliver WorkerPc.wake p.worker target }
    else none

/-- The critical section of a worker: the loop with `pthread_cond_wait`, the exit, and the taking of
the last task. -/
def workerSection (p : Pool T W) (t : T) : Pool T W :=
  if p.queueSize = 0 ∧ p.stop = false then p.goTo t .asleep
  else if p.stop then p.goTo t .exited
  else
    match p.lastTask with
    | none => { p with crash := some .badPointer }
    | some new =>
      match p.tasks.cell new with
      | none => { p with crash := some .badPointer }
      | some task =>
        { p.goTo t (.hasTask new) with queueSize := wrap 32 (p.queueSize - 1),
                                       lastTask := task.prev, taken := p.taken ++ [(t, new)] }

/-- The next step of a worker; `none` while it sleeps and after its return. -/
def workerStep (p : Pool T W) (t : T) : Option (Pool T W) :=
  match p.worker t with
  | .ready | .woken => some (p.workerSection t)
  | .hasTask new =>
    match p.tasks.cell new with
    | none => some { p with crash := some .badPointer }
    | some task => some (p.goTo t (.running task.work))
  | .running _ => some (p.goTo t .ready)
  | .asleep | .exited => none

/-- The critical section of `destroy_threadpool`. -/
def destroySection (p : Pool T W) : Pool T W :=
  { p with stop := true, worker := fun t => (p.worker t).wake }

/-- A step of the pool, while the program runs. -/
def step (p : Pool T W) (e : Event T W) : Option (Pool T W) :=
  if p.crash.isSome then none
  else
    match e with
    | .push work malloc target => p.threadpoolPushTask work malloc target
    | .worker t => p.workerStep t
    | .wakeUp t => if (p.worker t).isAsleep then some (p.goTo t .woken) else none
    | .destroy => some p.destroySection

end Pool

end OsLabs.Threadpool
