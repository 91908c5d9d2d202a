import OsLabs.Foundation.Lock
import OsLabs.Foundation.LinkedList
import Mathlib.Data.List.FinRange
import Mathlib.Logic.Function.Basic

/-!
# The list of task 3 and its threads

`swap_routine` and `__compare_routine` of `lab2/src/3/routine/routine.c`, run by any number of
threads on one list whose nodes have a lock each.  Every access to shared data is a step: the read
of `ll->stop`, each acquisition and release of a lock, each read and each write of a `next` pointer.
The routines are given as the sequence of these accesses, with what the thread does next.

`read_lock` and `write_lock` are those of `lock.c`, for each of the locks that it can be compiled
for.  The values of the nodes and the counters that `print_routine` prints do not influence the
routines and are left out.  The record of a thread also counts, for its current pass, the iterations
of the loop and the comparisons, and lists the nodes that it has visited; these are not in the
source.
-/

namespace OsLabs.SwapList

/-- The lock that `lock.c` is compiled for. -/
inductive LockKind
  /-- `USE_SPINLOCK`. -/
  | spinlock
  /-- `USE_MUTEX`. -/
  | mutex
  /-- `USE_RWLOCK`. -/
  | rwlock
  deriving DecidableEq, Repr

/-- `read_lock`: shared only where the lock is a `pthread_rwlock_t`. -/
def LockKind.readLock : LockKind → LockMode
  | .spinlock | .mutex => .exclusive
  | .rwlock => .shared

/-- `write_lock`. -/
def LockKind.writeLock : LockKind → LockMode
  | .spinlock | .mutex | .rwlock => .exclusive

/-- `__compare_type_t`. -/
inductive CompareType
  | asc
  | desc
  | eq
  deriving DecidableEq, Repr

/-- What a thread runs. -/
inductive Routine
  /-- `asc_routine`, `desc_routine` or `eq_routine`. -/
  | compare (type : CompareType)
  /-- `swap_routine`. -/
  | swap
  deriving DecidableEq, Repr

/-- Where a thread is, with its local variables; `swapping` is the answer of `__needs_swap`. -/
inductive Pc (N : Type*)
  /-- `while (!ll->stop)`. -/
  | loop
  /-- The lock of `ll->first`. -/
  | lockFirst
  /-- `while (prev->next != NULL)`. -/
  | test (prev : N)
  /-- `__needs_swap()`. -/
  | needsSwap (prev : N)
  /-- `cur = prev->next`. -/
  | readCur (prev : N) (swapping : Bool)
  /-- The lock of `cur`. -/
  | lockCur (prev cur : N) (swapping : Bool)
  /-- `unlock(&prev->lock)` on the way to `cur`. -/
  | unlockPrev (prev cur : N)
  /-- The `switch` of `__compare_routine`, and `prev = cur`. -/
  | compare (cur : N)
  /-- `next = cur->next`. -/
  | readNext (prev cur : N)
  /-- `unlock(&cur->lock)` before `break`. -/
  | unlockSwap (prev cur : N)
  /-- `write_lock(&next->lock)`. -/
  | lockNext (prev cur next : N)
  /-- `prev->next = next`. -/
  | writePrev (prev cur next : N)
  /-- `unlock(&prev->lock)` in the swap. -/
  | releasePrev (prev cur next : N)
  /-- The read of `next->next`. -/
  | readTail (cur next : N)
  /-- The write of `cur->next`, with the value of `next->next`. -/
  | writeCur (cur next : N) (tail : Option N)
  /-- `unlock(&cur->lock)` in the swap. -/
  | releaseCur (cur next : N)
  /-- `next->next = cur`, and `prev = next`. -/
  | writeNext (cur next : N)
  /-- `unlock(&prev->lock)` after the loop. -/
  | unlockLast (prev : N)
  /-- `(*iter)++` or `swap_iter++`. -/
  | count
  /-- The routine has returned. -/
  | exited
  /-- `cur` is a null pointer. -/
  | fault (prev : N)
  deriving DecidableEq, Repr

/-- An access to shared data. -/
inductive Op (N : Type*)
  | readStop
  | lock (mode : LockMode) (x : N)
  | unlock (x : N)
  | readNext (x : N)
  | writeNext (x : N) (value : Option N)
  /-- No access. -/
  | internal

/-- What an access answers. -/
structure Answer (N : Type*) where
  /-- The pointer that was read. -/
  next : Option N
  /-- The value of `ll->stop` or of `__needs_swap()`. -/
  flag : Bool

section Routines

variable {N : Type*}

/-- `__compare_routine`: the next access, and where its answer leads. -/
def compareRoutine (kind : LockKind) (first : N) : Pc N → Option (Op N × (Answer N → Pc N))
  | .loop => some (.readStop, fun a => if a.flag then .exited else .lockFirst)
  | .lockFirst => some (.lock kind.readLock first, fun _ => .test first)
  | .test prev =>
    some (.readNext prev, fun a => if a.next.isSome then .readCur prev false else .unlockLast prev)
  | .readCur prev _ =>
    some (.readNext prev, fun a => a.next.elim (.fault prev) fun cur => .lockCur prev cur false)
  | .lockCur prev cur _ => some (.lock kind.readLock cur, fun _ => .unlockPrev prev cur)
  | .unlockPrev prev cur => some (.unlock prev, fun _ => .compare cur)
  | .compare cur => some (.internal, fun _ => .test cur)
  | .unlockLast prev => some (.unlock prev, fun _ => .count)
  | .count => some (.internal, fun _ => .loop)
  | _ => none

/-- `swap_routine`: the next access, and where its answer leads. -/
def swapRoutine (kind : LockKind) (first : N) : Pc N → Option (Op N × (Answer N → Pc N))
  | .loop => some (.readStop, fun a => if a.flag then .exited else .lockFirst)
  | .lockFirst => some (.lock kind.writeLock first, fun _ => .test first)
  | .test prev =>
    some (.readNext prev, fun a => if a.next.isSome then .needsSwap prev else .unlockLast prev)
  | .needsSwap prev => some (.internal, fun a => .readCur prev a.flag)
  | .readCur prev swapping =>
    some (.readNext prev, fun a => a.next.elim (.fault prev) fun cur => .lockCur prev cur swapping)
  | .lockCur prev cur swapping =>
    some (.lock kind.writeLock cur,
      fun _ => if swapping then .readNext prev cur else .unlockPrev prev cur)
  | .unlockPrev prev cur => some (.unlock prev, fun _ => .test cur)
  | .readNext prev cur =>
    some (.readNext cur,
      fun a => a.next.elim (.unlockSwap prev cur) fun next => .lockNext prev cur next)
  | .unlockSwap prev cur => some (.unlock cur, fun _ => .unlockLast prev)
  | .lockNext prev cur next => some (.lock kind.writeLock next, fun _ => .writePrev prev cur next)
  | .writePrev prev cur next =>
    some (.writeNext prev (some next), fun _ => .releasePrev prev cur next)
  | .releasePrev prev cur next => some (.unlock prev, fun _ => .readTail cur next)
  | .readTail cur next => some (.readNext next, fun a => .writeCur cur next a.next)
  | .writeCur cur next tail => some (.writeNext cur tail, fun _ => .releaseCur cur next)
  | .releaseCur cur next => some (.unlock cur, fun _ => .writeNext cur next)
  | .writeNext cur next => some (.writeNext next (some cur), fun _ => .test next)
  | .unlockLast prev => some (.unlock prev, fun _ => .count)
  | .count => some (.internal, fun _ => .loop)
  | _ => none

/-- The lock call of a routine. -/
def Routine.mode (kind : LockKind) : Routine → LockMode
  | .compare _ => kind.readLock
  | .swap => kind.writeLock

/-- The routine of a thread. -/
def Routine.program (kind : LockKind) (first : N) :
    Routine → Pc N → Option (Op N × (Answer N → Pc N))
  | .compare _ => compareRoutine kind first
  | .swap => swapRoutine kind first

/-- A thread, with the record of its current pass. -/
structure Thread (N : Type*) where
  pc : Pc N
  /-- The nodes that a pass of `__compare_routine` has visited, newest first. -/
  visited : List N
  /-- The comparisons of the pass. -/
  comparisons : ℕ
  /-- The iterations of the loop that the pass has ended. -/
  iterations : ℕ
  deriving DecidableEq, Repr

/-- The record of a thread of a routine after its next step, which leads to `pc`. -/
def Thread.advance (routine : Routine) (first : N) (thread : Thread N) (pc : Pc N) : Thread N :=
  match routine, thread.pc with
  | _, .lockFirst => ⟨pc, [first], 0, 0⟩
  | .compare _, .compare cur =>
    ⟨pc, cur :: thread.visited, thread.comparisons + 1, thread.iterations + 1⟩
  | .swap, .unlockPrev _ _ | .swap, .unlockSwap _ _ | .swap, .writeNext _ _ =>
    { thread with pc := pc, iterations := thread.iterations + 1 }
  | _, _ => { thread with pc := pc }

end Routines

/-- The shared list and its threads. -/
structure ListState (N : Type*) (m : ℕ) where
  /-- The `next` pointers. -/
  next : N → Option N
  /-- The lock of each node. -/
  lock : N → LockState (Fin m)
  /-- `ll->stop`. -/
  stop : Bool
  thread : Fin m → Thread N

/-- The main thread sets `ll->stop`, or a thread makes its next step; `answer` is what
`__needs_swap` returns. -/
inductive ListEvent (m : ℕ)
  | setStop
  | run (t : Fin m) (answer : Bool)
  deriving DecidableEq, Repr

namespace ListState

variable {N : Type*} [DecidableEq N] {m : ℕ}

/-- The list with the nodes `first :: rest`, before any thread has started. -/
def initial (m : ℕ) (first : N) (rest : List N) : ListState N m where
  next := LinkedList.nextIn (first :: rest)
  lock := fun _ => .free
  stop := false
  thread := fun _ => ⟨.loop, [], 0, 0⟩

/-- The effect of an access on the shared data; `none` if the thread has to wait. -/
def access (s : ListState N m) (t : Fin m) : Op N → Option (ListState N m)
  | .readStop | .readNext _ | .internal => some s
  | .lock mode x =>
    ((s.lock x).acquire mode t).map fun l => { s with lock := Function.update s.lock x l }
  | .unlock x => some { s with lock := Function.update s.lock x ((s.lock x).release t) }
  | .writeNext x value => some { s with next := Function.update s.next x value }

/-- The answer of an access. -/
def answer (s : ListState N m) (needsSwap : Bool) : Op N → Answer N
  | .readStop => ⟨none, s.stop⟩
  | .readNext x => ⟨s.next x, false⟩
  | .lock _ _ | .unlock _ | .writeNext _ _ => ⟨none, false⟩
  | .internal => ⟨none, needsSwap⟩

/-- A thread goes on to `pc`. -/
def advance (s : ListState N m) (routine : Fin m → Routine) (first : N) (t : Fin m) (pc : Pc N) :
    ListState N m :=
  { s with
    thread := Function.update s.thread t ((s.thread t).advance (routine t) first pc) }

/-- One step of the system. -/
def step (kind : LockKind) (routine : Fin m → Routine) (first : N) (s : ListState N m) :
    ListEvent m → Option (ListState N m)
  | .setStop => some { s with stop := true }
  | .run t needsSwap =>
    match (routine t).program kind first (s.thread t).pc with
    | none => none
    | some (op, next) =>
      (s.access t op).map fun s' => s'.advance routine first t (next (s.answer needsSwap op))

/-- The pointer writes that remain of the swap in progress of a thread. -/
def finishSwap (next : N → Option N) : Pc N → N → Option N
  | .releasePrev _ cur nxt | .readTail cur nxt =>
    Function.update (Function.update next cur (next nxt)) nxt (some cur)
  | .writeCur cur nxt tail => Function.update (Function.update next cur tail) nxt (some cur)
  | .releaseCur cur nxt | .writeNext cur nxt => Function.update next nxt (some cur)
  | _ => next

/-- The `next` pointers after the remaining writes of all swaps in progress. -/
def completed (s : ListState N m) : N → Option N :=
  (List.finRange m).foldl (fun next t => finishSwap next (s.thread t).pc) s.next

end ListState

end OsLabs.SwapList
