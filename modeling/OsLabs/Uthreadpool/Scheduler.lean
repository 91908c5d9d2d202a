import Mathlib.Logic.Function.Basic
import Mathlib.Data.Nat.Notation

/-!
# The cooperative scheduler of `uthreadpool.c`

The data and the functions of `lab1/src/7/uthreadpool.c`.  The node list that starts at
`head_uthread` is a list of slot numbers (`nodes`, head first) over a heap of `uthread_t` records;
a `ucontext_t` is the continuation that it holds.  Allocations, `getcontext`, `makecontext`,
`setcontext` and `swapcontext` are taken to succeed and to behave as POSIX says, and
`head_uthread` is taken to start as `NULL`.

One `step` is what the flow of control does between two visible points: a task is entered, a task's
function returns, yields or adds a task, or `run_scheduler` goes on after its `getcontext`.
-/

namespace OsLabs.Uthreadpool

/-- `uthread_status_t`. -/
inductive UthreadStatus
  | idle | ready | running | terminated
  deriving DecidableEq, Repr

/-- What a task's function does, as far as the scheduler can see: it returns, it calls
`usched_yield` and goes on, or it adds a task and goes on. -/
inductive Func
  | ret
  | yield (rest : Func)
  | add (func : Func) (rest : Func)
  deriving DecidableEq, Repr

/-- A function that calls `usched_yield` `n` times and returns. -/
def Func.yields : ℕ → Func
  | 0 => .ret
  | n + 1 => .yield (Func.yields n)

/-- The continuation held by a `ucontext_t`. -/
inductive Context
  /-- Not yet initialised. -/
  | unset
  /-- Set by `makecontext`: the start of `__func_wrapper`. -/
  | wrapper
  /-- Saved by the `swapcontext` of a `usched_yield` that the task's function called. -/
  | func (rest : Func)
  /-- Saved by the `swapcontext` of the `usched_yield` that ends `__func_wrapper`. -/
  | wrapperEnd
  deriving DecidableEq, Repr

/-- `uthread_t`; the function and its argument are one value.  `task` is not in the source: it is
the number of the added task that the slot was last given to. -/
structure Uthread where
  /-- `status`. -/
  status : UthreadStatus
  /-- `func` together with `arg`. -/
  func : Func
  /-- `context`. -/
  context : Context
  /-- The number of the task in this slot. -/
  task : ℕ
  deriving DecidableEq, Repr

/-- Where the flow of control is. -/
inductive Control
  /-- Outside `run_scheduler`, which has returned or was not called yet. -/
  | returned
  /-- In `run_scheduler`, right after `getcontext(&scheduler->initial_context)`. -/
  | initialContext
  /-- At the start of `__func_wrapper`. -/
  | wrapper
  /-- In the function of the task of slot `self`, with `rest` still to do. -/
  | func (self : ℕ) (rest : Func)
  /-- After the last `usched_yield` of `__func_wrapper`: with `uc_link = 0` the thread exits. -/
  | exited
  /-- A `NULL` pointer was followed or an unset context entered. -/
  | crashed
  deriving DecidableEq, Repr

/-- `uthread_scheduler_t` with the flow of control.  `tasks`, `entered` and `finished` are not in
the source: they number the added tasks and record whose function was entered and whose function
has returned. -/
structure State where
  /-- `is_finished`. -/
  isFinished : Bool
  /-- `id_generator`; the identifier of a slot is also its name here. -/
  idGenerator : ℕ
  /-- `size`. -/
  size : ℕ
  /-- The slots from `head_uthread` along `next`. -/
  nodes : List ℕ
  /-- The `uthread_t` of each slot. -/
  uthread : ℕ → Uthread
  /-- `active_uthread`. -/
  activeUthread : Option ℕ
  /-- The flow of control. -/
  control : Control
  /-- How many tasks were added. -/
  tasks : ℕ
  /-- The tasks whose function was entered, last first. -/
  entered : List ℕ
  /-- The tasks whose function has returned, last first. -/
  finished : List ℕ

namespace State

/-- Overwrites the record of one slot. -/
def setUthread (s : State) (i : ℕ) (u : Uthread) : State :=
  { s with uthread := Function.update s.uthread i u }

/-- The slot that was overwritten. -/
@[simp] lemma setUthread_self (s : State) (i : ℕ) (u : Uthread) :
    (s.setUthread i u).uthread i = u := by
  simp [setUthread]

/-- The other slots are as before. -/
lemma setUthread_of_ne (s : State) {i j : ℕ} (u : Uthread) (h : j ≠ i) :
    (s.setUthread i u).uthread j = s.uthread j := by
  simp [setUthread, Function.update_of_ne h]

/-- The loop `while (node != NULL && node->uthread->status != status) node = node->next`. -/
def firstWith (s : State) (status : UthreadStatus) : Option ℕ :=
  s.nodes.find? fun i => (s.uthread i).status = status

end State

/-- `init_scheduler`. -/
def initScheduler : State where
  isFinished := false
  idGenerator := 0
  size := 0
  nodes := []
  uthread := fun _ => ⟨.idle, .ret, .unset, 0⟩
  activeUthread := none
  control := .returned
  tasks := 0
  entered := []
  finished := []

/-- `__create_uthread`: a new idle slot at the head of the node list. -/
def createUthread (s : State) : State :=
  { s with
    idGenerator := s.idGenerator + 1
    uthread := Function.update s.uthread s.idGenerator ⟨.idle, .ret, .unset, 0⟩
    nodes := s.idGenerator :: s.nodes
    size := s.size + 1 }

/-- The end of `add_to_scheduler`: the slot `i` is given the function and a fresh context. -/
def assignTask (s : State) (i : ℕ) (func : Func) : State :=
  { s.setUthread i ⟨.ready, func, .wrapper, s.tasks⟩ with tasks := s.tasks + 1 }

/-- `add_to_scheduler`: the first idle slot, or a new one, gets the task. -/
def addToScheduler (s : State) (func : Func) : State :=
  match s.firstWith .idle with
  | some i => assignTask s i func
  | none => assignTask (createUthread s) s.idGenerator func

/-- `setcontext` to the context of slot `i`. -/
def setContext (s : State) (i : ℕ) : Control :=
  match (s.uthread i).context with
  | .unset => .crashed
  | .wrapper => .wrapper
  | .func rest => .func i rest
  | .wrapperEnd => .exited

/-- Makes slot `i` the active and running one. -/
def activate (s : State) (i : ℕ) : State :=
  { s.setUthread i { s.uthread i with status := .running } with activeUthread := some i }

/-- `usched_yield`, called where `saved` is left to do.  Without a `READY` thread the whole run is
finished, whatever the caller still has to do. -/
def uschedYield (s : State) (saved : Context) : State :=
  match s.firstWith .ready, s.activeUthread with
  | none, _ => { s with isFinished := true, control := .initialContext }
  | some _, none => { s with control := .crashed }
  | some node, some current =>
    let status := if (s.uthread current).status = .terminated then .idle else .ready
    let s₁ := s.setUthread current { s.uthread current with status := status, context := saved }
    let s₂ := activate s₁ node
    { s₂ with control := setContext s₂ node }

/-- The call of `run_scheduler`, up to its `getcontext`. -/
def runScheduler (s : State) : State := { s with control := .initialContext }

/-- `reset_scheduler`. -/
def resetScheduler (s : State) : State := { s with isFinished := false }

/-- One step of the flow of control. -/
def step (s : State) : Option State :=
  match s.control with
  | .returned | .exited | .crashed => none
  | .initialContext =>
    if s.isFinished then some { s with control := .returned }
    else match s.firstWith .ready with
      | none => some { s with control := .returned }
      | some node => some { activate s node with control := setContext (activate s node) node }
  | .wrapper =>
    match s.activeUthread with
    | none => some { s with control := .crashed }
    | some self => some
        { s with
          control := .func self (s.uthread self).func
          entered := (s.uthread self).task :: s.entered }
  | .func self .ret => some <|
      uschedYield
        { s.setUthread self { s.uthread self with status := .terminated } with
          finished := (s.uthread self).task :: s.finished }
        .wrapperEnd
  | .func _ (.yield rest) => some (uschedYield s (.func rest))
  | .func self (.add func rest) =>
      some { addToScheduler s func with control := .func self rest }

/-- Follows the flow of control until `run_scheduler` returns, at most `fuel` steps. -/
def runFor : ℕ → State → Option State
  | 0, s => if s.control = .returned then some s else none
  | fuel + 1, s => if s.control = .returned then some s else (step s).bind (runFor fuel)

/-- `add_to_scheduler` for every task of a list, in its order. -/
def addTasks (s : State) (funcs : List Func) : State := funcs.foldl addToScheduler s

end OsLabs.Uthreadpool
