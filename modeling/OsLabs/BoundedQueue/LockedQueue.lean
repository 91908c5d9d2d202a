import OsLabs.BoundedQueue.NodeList
import OsLabs.Foundation.Transition

/-!
# The queues under a mutex and under a spinlock

`queue_add` and `queue_get` of `queue_mutex/queue.c` and `queue_spinlock/queue.c`, which differ in
the lock only.  A lock is given by a `LockImpl`; the functions of the two files are the common
functions with the mutex and with the spinlock.  A call takes the lock, works and gives the lock
back, and nobody else does something in between, so that a run is a list of calls by any threads.

What the calls should do is `Fifo`: a list of values with a capacity.  `Fifo.replay` checks a log of
calls with their results against that list.
-/

namespace OsLabs.BoundedQueue

open Transition

/-! ## Locks -/

/-- A lock: `lock` answers `none` where the thread has to wait. -/
structure LockImpl (T : Type) where
  State : Type
  free : State
  lock : T → State → Option State
  unlock : T → State → State
  /-- A free lock can be taken, and is free again after the release. -/
  lock_unlock : ∀ t, (lock t free).map (unlock t) = some free

/-- `pthread_mutex_lock` and `pthread_mutex_unlock`: the state is the thread that holds the
mutex. -/
def pthreadMutex (T : Type) : LockImpl T where
  State := Option T
  free := none
  lock t held := if held.isNone then some (some t) else none
  unlock _ _ := none
  lock_unlock _ := rfl

/-- `spinlock_lock` and `spinlock_unlock`: the state is `s->lock`. -/
def mySpinlock (T : Type) : LockImpl T where
  State := Bool
  free := false
  lock _ held := if held then none else some true
  unlock _ _ := false
  lock_unlock _ := rfl

/-! ## The functions -/

/-- `queue_t`, without the thread that prints it. -/
structure Queue {T : Type} (L : LockImpl T) where
  list : NodeList
  lock : L.State
  maxCount : ℤ
  /-- A `long`. -/
  addAttempts : ℤ
  /-- A `long`. -/
  getAttempts : ℤ

namespace Queue

variable {T : Type} {L : LockImpl T}

/-- `queue_init`. -/
def init (L : LockImpl T) (maxCount : ℤ) : Queue L := ⟨NodeList.initial, L.free, maxCount, 0, 0⟩

/-- `queue_add`, with the result and the answer of `malloc`; `none` where the thread has to wait for
the lock and where `malloc` cannot give that answer. -/
def add (q : Queue L) (t : T) (val : ℤ) (malloc : Option ℕ) :
    Option (Except Failure (ℤ × Queue L)) := do
  let held ← L.lock t q.lock
  let q := { q with lock := held, addAttempts := wrap 64 (q.addAttempts + 1) }
  if ¬ q.list.count ≤ q.maxCount then
    some (.error .assertion)
  else if q.list.count = q.maxCount then
    some (.ok (0, { q with lock := L.unlock t q.lock }))
  else
    match malloc with
    | none => some (.error .outOfMemory)
    | some new => do
      let list ← q.list.allocate new val
      match list.link new with
      | none => some (.error .badPointer)
      | some list => some (.ok (1, { q with list := list, lock := L.unlock t q.lock }))

/-- `queue_get`, with the result and the value in `*val` after the call, where `val` was there
before. -/
def get (q : Queue L) (t : T) (val : ℤ) : Option (Except Failure (ℤ × ℤ × Queue L)) := do
  let held ← L.lock t q.lock
  let q := { q with lock := held, getAttempts := wrap 64 (q.getAttempts + 1) }
  if ¬ 0 ≤ q.list.count then
    some (.error .assertion)
  else if q.list.count = 0 then
    some (.ok (0, val, { q with lock := L.unlock t q.lock }))
  else
    match q.list.takeFirst with
    | none => some (.error .badPointer)
    | some (v, list) => some (.ok (1, v, { q with list := list, lock := L.unlock t q.lock }))

end Queue

/-! ## Runs -/

/-- A call of one of the functions, with the answer of `malloc`. -/
inductive Request
  | add (val : ℤ) (malloc : Option ℕ)
  | get (val : ℤ)
  deriving DecidableEq, Repr

/-- A call that has returned, with its result; for `queue_get` also the value of `*val` before and
after. -/
inductive Entry
  | add (val result : ℤ)
  | get (before result after : ℤ)
  deriving DecidableEq, Repr

/-- A queue, the failure that has ended the program, and the calls that have returned. -/
structure QueueRun {T : Type} (L : LockImpl T) where
  queue : Queue L
  failure : Option Failure
  log : List Entry

namespace QueueRun

variable {T : Type} {L : LockImpl T}

/-- The state after `queue_init`. -/
def init (L : LockImpl T) (maxCount : ℤ) : QueueRun L := ⟨Queue.init L maxCount, none, []⟩

/-- A thread makes a call of `queueAdd` or `queueGet`. -/
def step (queueAdd : Queue L → T → ℤ → Option ℕ → Option (Except Failure (ℤ × Queue L)))
    (queueGet : Queue L → T → ℤ → Option (Except Failure (ℤ × ℤ × Queue L)))
    (s : QueueRun L) (e : T × Request) : Option (QueueRun L) :=
  if s.failure.isSome then none
  else
    match e.2 with
    | .add val malloc => (queueAdd s.queue e.1 val malloc).map fun
      | .error failure => { s with failure := some failure }
      | .ok (result, queue) => { s with queue := queue, log := s.log ++ [.add val result] }
    | .get val => (queueGet s.queue e.1 val).map fun
      | .error failure => { s with failure := some failure }
      | .ok (result, after, queue) =>
        { s with queue := queue, log := s.log ++ [.get val result after] }

end QueueRun

namespace QueueMutex

variable {T : Type}

/-- `queue_add` of `queue_mutex/queue.c`. -/
def queueAdd (q : Queue (pthreadMutex T)) (t : T) (val : ℤ) (malloc : Option ℕ) :
    Option (Except Failure (ℤ × Queue (pthreadMutex T))) := q.add t val malloc

/-- `queue_get` of `queue_mutex/queue.c`. -/
def queueGet (q : Queue (pthreadMutex T)) (t : T) (val : ℤ) :
    Option (Except Failure (ℤ × ℤ × Queue (pthreadMutex T))) := q.get t val

/-- A call of one of the functions of `queue_mutex/queue.c`. -/
def step : QueueRun (pthreadMutex T) → T × Request → Option (QueueRun (pthreadMutex T)) :=
  QueueRun.step queueAdd queueGet

end QueueMutex

namespace QueueSpinlock

variable {T : Type}

/-- `queue_add` of `queue_spinlock/queue.c`. -/
def queueAdd (q : Queue (mySpinlock T)) (t : T) (val : ℤ) (malloc : Option ℕ) :
    Option (Except Failure (ℤ × Queue (mySpinlock T))) := q.add t val malloc

/-- `queue_get` of `queue_spinlock/queue.c`. -/
def queueGet (q : Queue (mySpinlock T)) (t : T) (val : ℤ) :
    Option (Except Failure (ℤ × ℤ × Queue (mySpinlock T))) := q.get t val

/-- A call of one of the functions of `queue_spinlock/queue.c`. -/
def step : QueueRun (mySpinlock T) → T × Request → Option (QueueRun (mySpinlock T)) :=
  QueueRun.step queueAdd queueGet

end QueueSpinlock

/-! ## What the calls do -/

namespace Fifo

/-- An addition to a list of values: at the capacity nothing is added, with the result `0`. -/
def add (capacity val : ℤ) (l : List ℤ) : ℤ × List ℤ :=
  if (l.length : ℤ) = capacity then (0, l) else (1, l ++ [val])

/-- A removal from a list of values: from the empty list nothing is taken, with the result `0`, and
the variable keeps its value. -/
def get (before : ℤ) : List ℤ → ℤ × ℤ × List ℤ
  | [] => (0, before, [])
  | val :: l => (1, val, l)

/-- The list after a call, where the call has the results of the list. -/
def explain (capacity : ℤ) (l : List ℤ) : Entry → Option (List ℤ)
  | .add val result => if (add capacity val l).1 = result then some (add capacity val l).2 else none
  | .get before result after =>
    if (get before l).1 = result ∧ (get before l).2.1 = after then some (get before l).2.2 else none

/-- The list after a log of calls, where all calls have the results of the list. -/
def replay (capacity : ℤ) (log : List Entry) (l : List ℤ) : Option (List ℤ) :=
  log.foldlM (explain capacity) l

/-- A log with one more call. -/
lemma replay_append (capacity : ℤ) (log : List Entry) (entry : Entry) (l : List ℤ) :
    replay capacity (log ++ [entry]) l =
      (replay capacity log l).bind fun l' => explain capacity l' entry := by
  unfold replay
  rw [List.foldlM_append]
  congr
  funext l'
  exact bind_pure _

end Fifo

/-! ## The invariant -/

namespace Queue

variable {T : Type} {L : LockImpl T} {maxCount : ℤ} {q : Queue L} {l : List (ℕ × ℤ)} {t : T}
  {val : ℤ} {malloc : Option ℕ}

/-- Between two calls the queue holds the values of a list within its bounds, and the lock is
free. -/
structure Holds (maxCount : ℤ) (q : Queue L) (l : List (ℕ × ℤ)) : Prop where
  represents : q.list.Represents l
  bound : (l.length : ℤ) ≤ maxCount
  capacity : q.maxCount = maxCount
  unlocked : q.lock = L.free

/-- The new queue. -/
lemma holds_init (h : 0 ≤ maxCount) : (init L maxCount).Holds maxCount [] :=
  ⟨NodeList.represents_initial, h, rfl, rfl⟩

/-- A free lock is taken, and the release gives it back. -/
lemma Holds.lock (h : q.Holds maxCount l) (t : T) :
    ∃ held, L.lock t q.lock = some held ∧ L.unlock t held = L.free := by
  rw [h.unlocked]
  exact Option.map_eq_some_iff.mp (L.lock_unlock t)

/-- At the capacity `queue_add` answers `0` and changes no element. -/
lemma Holds.add_full (h : q.Holds maxCount l) (hfull : (l.length : ℤ) = maxCount) (t : T) (val : ℤ)
    (malloc : Option ℕ) :
    ∃ q', q.add t val malloc = some (.ok (0, q')) ∧ q'.Holds maxCount l := by
  obtain ⟨held, hlock, hunlock⟩ := h.lock t
  have heq : q.list.count = q.maxCount := by rw [h.represents.count, h.capacity, hfull]
  have hadd : q.add t val malloc =
      some (.ok (0, { q with lock := L.unlock t held,
                             addAttempts := wrap 64 (q.addAttempts + 1) })) := by
    simp only [Queue.add, hlock, Option.bind_eq_bind, Option.bind_some]
    rw [if_neg (not_not.mpr (Int.le_of_eq heq)), if_pos heq]
  exact ⟨_, hadd, h.represents, h.bound, h.capacity, hunlock⟩

/-- Below the capacity `queue_add` allocates a node. -/
lemma Holds.add_room (h : q.Holds maxCount l) (hroom : (l.length : ℤ) ≠ maxCount) (t : T) (val : ℤ)
    (malloc : Option ℕ) :
    ∃ held, L.unlock t held = L.free ∧ q.add t val malloc =
      match malloc with
      | none => some (.error .outOfMemory)
      | some new => (q.list.allocate new val).bind fun list =>
        match list.link new with
        | none => some (.error .badPointer)
        | some list => some (.ok (1, { q with list := list, lock := L.unlock t held,
                                              addAttempts := wrap 64 (q.addAttempts + 1) })) := by
  obtain ⟨held, hlock, hunlock⟩ := h.lock t
  have hcount := h.represents.count
  have hle : q.list.count ≤ q.maxCount := by rw [hcount, h.capacity]; exact h.bound
  have hne : q.list.count ≠ q.maxCount := by rw [hcount, h.capacity]; exact hroom
  refine ⟨held, hunlock, ?_⟩
  simp only [Queue.add, hlock, Option.bind_eq_bind, Option.bind_some]
  rw [if_neg (not_not.mpr hle), if_neg hne]

/-- Below the capacity the new value comes last. -/
lemma Holds.add_some (h : q.Holds maxCount l) (hroom : (l.length : ℤ) ≠ maxCount) (t : T) (val : ℤ)
    {new : ℕ} (hfree : q.list.nodes.cell new = none) :
    ∃ q', q.add t val (some new) = some (.ok (1, q')) ∧ q'.Holds maxCount (l ++ [(new, val)]) := by
  obtain ⟨held, hunlock, hadd⟩ := h.add_room hroom t val (some new)
  obtain ⟨list, hal⟩ := NodeList.exists_allocate val hfree
  obtain ⟨hlist, -, hcell⟩ := h.represents.allocate hal
  -- the new node is no node of the list, so it may be linked
  have hnew : list.nodes.cell new = some ⟨val, none⟩ := by rw [hcell, Function.update_self]
  obtain ⟨list', hlink, hlist', -⟩ := hlist.link hnew (h.represents.path.notMem_of_cell hfree)
  have hbound : ((l ++ [(new, val)]).length : ℤ) ≤ maxCount := by
    have hle := h.bound
    rw [List.length_append, List.length_singleton]
    omega
  simp only [hal, Option.bind_some, hlink] at hadd
  exact ⟨_, hadd, hlist', hbound, h.capacity, hunlock⟩

/-- From the empty list `queue_get` answers `0` and leaves the variable alone. -/
lemma Holds.get_nil (h : q.Holds maxCount []) (t : T) (val : ℤ) :
    ∃ q', q.get t val = some (.ok (0, val, q')) ∧ q'.Holds maxCount [] := by
  obtain ⟨held, hlock, hunlock⟩ := h.lock t
  have hcount : q.list.count = 0 := h.represents.count
  have hget : q.get t val =
      some (.ok (0, val, { q with lock := L.unlock t held,
                                  getAttempts := wrap 64 (q.getAttempts + 1) })) := by
    simp only [Queue.get, hlock, Option.bind_eq_bind, Option.bind_some]
    rw [if_neg (by omega), if_pos hcount]
  exact ⟨_, hget, h.represents, h.bound, h.capacity, hunlock⟩

/-- From any other list `queue_get` takes the first value. -/
lemma Holds.get_cons {x : ℕ × ℤ} (h : q.Holds maxCount (x :: l)) (t : T) (val : ℤ) :
    ∃ q', q.get t val = some (.ok (1, x.2, q')) ∧ q'.Holds maxCount l := by
  obtain ⟨held, hlock, hunlock⟩ := h.lock t
  obtain ⟨list, htake, hlist, -⟩ := h.represents.takeFirst
  have hcount := h.represents.count
  have hbound := h.bound
  rw [List.length_cons] at hcount hbound
  have hget : q.get t val =
      some (.ok (1, x.2, { q with list := list, lock := L.unlock t held,
                                  getAttempts := wrap 64 (q.getAttempts + 1) })) := by
    simp only [Queue.get, hlock, Option.bind_eq_bind, Option.bind_some]
    rw [if_neg (by omega), if_neg (by omega), htake]
  exact ⟨_, hget, hlist, by show (l.length : ℤ) ≤ maxCount; omega, h.capacity, hunlock⟩

end Queue

/-- The queue holds the list that results from its log. -/
structure Refines {T : Type} {L : LockImpl T} (maxCount : ℤ) (s : QueueRun L)
    (l : List (ℕ × ℤ)) : Prop where
  /-- The nodes in memory form the list, within its bounds. -/
  holds : s.queue.Holds maxCount l
  /-- Every call has had the result that the list gives. -/
  replay : Fifo.replay maxCount s.log [] = some (l.map Prod.snd)
  /-- Nothing but a failed allocation has ended the program. -/
  failure : s.failure = none ∨ s.failure = some .outOfMemory

namespace Refines

variable {T : Type} {L : LockImpl T} {maxCount : ℤ} {s s' : QueueRun L} {l : List (ℕ × ℤ)}
  {e : T × Request}

/-- Every call keeps the refinement. -/
lemma step (h : Refines maxCount s l) (hst : QueueRun.step Queue.add Queue.get s e = some s') :
    ∃ l', Refines maxCount s' l' := by
  obtain ⟨t, request⟩ := e
  unfold QueueRun.step at hst
  split_ifs at hst with hf
  cases request with
  | add val malloc =>
    by_cases hfull : (l.length : ℤ) = maxCount
    · obtain ⟨q, hadd, hq⟩ := h.holds.add_full hfull t val malloc
      simp only [hadd, Option.map_some, Option.some.injEq] at hst
      subst hst
      refine ⟨l, hq, ?_, h.failure⟩
      rw [Fifo.replay_append, h.replay]
      simp [Fifo.explain, Fifo.add, hfull]
    · cases malloc with
      | none =>
        obtain ⟨_, -, hadd⟩ := h.holds.add_room hfull t val none
        simp only [hadd, Option.map_some, Option.some.injEq] at hst
        subst hst
        exact ⟨l, h.holds, h.replay, Or.inr rfl⟩
      | some new =>
        have hfree : s.queue.list.nodes.cell new = none := by
          by_contra hused
          obtain ⟨_, -, hadd⟩ := h.holds.add_room hfull t val (some new)
          simp [hadd, NodeList.allocate_of_used val hused] at hst
        obtain ⟨q, hadd, hq⟩ := h.holds.add_some hfull t val hfree
        simp only [hadd, Option.map_some, Option.some.injEq] at hst
        subst hst
        refine ⟨l ++ [(new, val)], hq, ?_, h.failure⟩
        rw [Fifo.replay_append, h.replay]
        simp [Fifo.explain, Fifo.add, hfull]
  | get val =>
    cases l with
    | nil =>
      obtain ⟨q, hget, hq⟩ := h.holds.get_nil t val
      simp only [hget, Option.map_some, Option.some.injEq] at hst
      subst hst
      refine ⟨[], hq, ?_, h.failure⟩
      rw [Fifo.replay_append, h.replay]
      simp [Fifo.explain, Fifo.get]
    | cons x l =>
      obtain ⟨q, hget, hq⟩ := h.holds.get_cons t val
      simp only [hget, Option.map_some, Option.some.injEq] at hst
      subst hst
      refine ⟨l, hq, ?_, h.failure⟩
      rw [Fifo.replay_append, h.replay]
      simp [Fifo.explain, Fifo.get]

/-- No thread waits in a call, and every call comes to an end: `malloc` may answer any address that
is not in use. -/
lemma exists_step (h : Refines maxCount s l) (hf : s.failure = none) (t : T) (request : Request)
    (hmalloc : ∀ val new, request = .add val (some new) → s.queue.list.nodes.cell new = none) :
    ∃ s', QueueRun.step Queue.add Queue.get s (t, request) = some s' := by
  unfold QueueRun.step
  rw [hf]
  cases request with
  | add val malloc =>
    by_cases hfull : (l.length : ℤ) = maxCount
    · obtain ⟨q, hadd, -⟩ := h.holds.add_full hfull t val malloc
      exact ⟨_, by simp only [hadd, Option.map_some]; rfl⟩
    · cases malloc with
      | none =>
        obtain ⟨_, -, hadd⟩ := h.holds.add_room hfull t val none
        exact ⟨_, by simp only [hadd, Option.map_some]; rfl⟩
      | some new =>
        obtain ⟨q, hadd, -⟩ := h.holds.add_some hfull t val (hmalloc val new rfl)
        exact ⟨_, by simp only [hadd, Option.map_some]; rfl⟩
  | get val =>
    cases l with
    | nil =>
      obtain ⟨q, hget, -⟩ := h.holds.get_nil t val
      exact ⟨_, by simp only [hget, Option.map_some]; rfl⟩
    | cons x l =>
      obtain ⟨q, hget, -⟩ := h.holds.get_cons t val
      exact ⟨_, by simp only [hget, Option.map_some]; rfl⟩

/-- A call of `queue_add` that needs no memory, or gets it, returns: at the capacity with `0` and
the same elements, and below it with `1` and the new element behind the others. -/
lemma add_returns (h : Refines maxCount s l) (hf : s.failure = none) (t : T) (val : ℤ)
    {malloc : Option ℕ}
    (hmalloc : (l.length : ℤ) ≠ maxCount → ∃ new ∈ malloc, s.queue.list.nodes.cell new = none) :
    ∃ s', QueueRun.step Queue.add Queue.get s (t, .add val malloc) = some s' ∧ s'.failure = none ∧
      if (l.length : ℤ) = maxCount then
        s'.log = s.log ++ [.add val 0] ∧ s'.queue.list.Represents l
      else
        ∃ new ∈ malloc, s'.log = s.log ++ [.add val 1] ∧
          s'.queue.list.Represents (l ++ [(new, val)]) := by
  unfold QueueRun.step
  rw [hf]
  by_cases hfull : (l.length : ℤ) = maxCount
  · obtain ⟨q, hadd, hq⟩ := h.holds.add_full hfull t val malloc
    simp only [hadd, if_pos hfull]
    exact ⟨⟨q, none, s.log ++ [.add val 0]⟩, rfl, rfl, rfl, hq.represents⟩
  · obtain ⟨new, rfl, hfree⟩ := hmalloc hfull
    obtain ⟨q, hadd, hq⟩ := h.holds.add_some hfull t val hfree
    simp only [hadd, if_neg hfull]
    exact ⟨⟨q, none, s.log ++ [.add val 1]⟩, rfl, rfl, new, rfl, rfl, hq.represents⟩

/-- A call of `queue_get` returns: with `0` and the variable as it was where there is no element,
and with `1` and the first element where there is one. -/
lemma get_returns (h : Refines maxCount s l) (hf : s.failure = none) (t : T) (before : ℤ) :
    ∃ s', QueueRun.step Queue.add Queue.get s (t, .get before) = some s' ∧ s'.failure = none ∧
      s'.log = s.log ++ [.get before (Fifo.get before (l.map Prod.snd)).1
        (Fifo.get before (l.map Prod.snd)).2.1] ∧
      s'.queue.list.Represents l.tail := by
  unfold QueueRun.step
  rw [hf]
  cases l with
  | nil =>
    obtain ⟨q, hget, hq⟩ := h.holds.get_nil t before
    simp only [hget]
    exact ⟨⟨q, none, s.log ++ [.get before 0 before]⟩, rfl, rfl, rfl, hq.represents⟩
  | cons x rest =>
    obtain ⟨q, hget, hq⟩ := h.holds.get_cons t before
    simp only [hget]
    exact ⟨⟨q, none, s.log ++ [.get before 1 x.2]⟩, rfl, rfl, rfl, hq.represents⟩

/-- Below the capacity, the address that `malloc` answers in a call is a free one. -/
lemma free_of_add (h : Refines maxCount s l) (hroom : (l.length : ℤ) ≠ maxCount) {t : T} {val : ℤ}
    {new : ℕ} (hst : QueueRun.step Queue.add Queue.get s (t, .add val (some new)) = some s') :
    s.queue.list.nodes.cell new = none := by
  by_contra hused
  obtain ⟨_, -, hadd⟩ := h.holds.add_room hroom t val (some new)
  unfold QueueRun.step at hst
  simp [hadd, NodeList.allocate_of_used val hused] at hst

/-- The program fails only in a call of `queue_add` below the capacity that gets no memory. -/
lemma fails (h : Refines maxCount s l) (hf : s.failure = none)
    (hst : QueueRun.step Queue.add Queue.get s e = some s') (hfail : s'.failure ≠ none) :
    s'.failure = some .outOfMemory ∧ (l.length : ℤ) ≠ maxCount ∧ ∃ val, e.2 = .add val none := by
  obtain ⟨t, request⟩ := e
  obtain ⟨_, hl'⟩ := h.step hst
  refine ⟨hl'.failure.resolve_left hfail, ?_⟩
  cases request with
  | add val malloc =>
    by_contra hcon
    -- otherwise the call needs no memory or gets it, and returns
    have hmalloc : (l.length : ℤ) ≠ maxCount →
        ∃ new ∈ malloc, s.queue.list.nodes.cell new = none := by
      intro hroom
      cases malloc with
      | none => exact absurd ⟨hroom, val, rfl⟩ hcon
      | some new => exact ⟨new, rfl, h.free_of_add hroom hst⟩
    obtain ⟨r, hr, hnone, -⟩ := h.add_returns hf t val hmalloc
    obtain rfl := Option.some.inj (hr.symm.trans hst)
    exact hfail hnone
  | get before =>
    obtain ⟨r, hr, hnone, -⟩ := h.get_returns hf t before
    obtain rfl := Option.some.inj (hr.symm.trans hst)
    exact absurd hnone hfail

/-- Every state of a run is a refinement of some list. -/
lemma of_reachable (hmax : 0 ≤ maxCount)
    (h : Reachable (QueueRun.step Queue.add Queue.get) (QueueRun.init L maxCount) s) :
    ∃ l, Refines maxCount s l :=
  h.invariant (I := fun s => ∃ l, Refines maxCount s l)
    ⟨[], Queue.holds_init hmax, rfl, Or.inl rfl⟩ fun _ _ _ ⟨_, hl⟩ _ hst => hl.step hst

/-- The counter of the elements is the difference of the two others, as the code computes it. -/
lemma count_eq (h : Refines maxCount s l) (hmax : maxCount < 2 ^ 31) :
    s.queue.list.count = wrap 64 (s.queue.list.addCount - s.queue.list.getCount) := by
  have hcount := h.holds.represents.count
  have hbound := h.holds.bound
  rw [h.holds.represents.counters, wrap_eq_self (by omega) (by omega)]

/-- Where `last` is used it points to the last node. -/
lemma last_eq (h : Refines maxCount s l) (hfirst : s.queue.list.first ≠ none) :
    ∃ x, l.getLast? = some x ∧ s.queue.list.last = some x.1 := by
  cases hlast : l.getLast? with
  | none =>
    rw [List.getLast?_eq_none_iff] at hlast
    subst hlast
    exact absurd h.holds.represents.path.eq_of_nil hfirst
  | some x => exact ⟨x, rfl, h.holds.represents.last x hlast⟩

end Refines

/-- What a reachable state of a queue of the given capacity looks like. -/
structure BoundedFifo {T : Type} {L : LockImpl T}
    (step : QueueRun L → T × Request → Option (QueueRun L)) (maxCount : ℤ) (s : QueueRun L)
    (l : List (ℕ × ℤ)) : Prop where
  /-- The list that results from the log is in memory, and every result in the log is that of the
  list. -/
  refines : Refines maxCount s l
  /-- The number of elements is counted in two ways. -/
  count_eq_length : s.queue.list.count = l.length
  count_eq_counters : s.queue.list.count = wrap 64 (s.queue.list.addCount - s.queue.list.getCount)
  /-- Where `queue_add` follows `last`, it leads to the last node. -/
  last_eq : s.queue.list.first ≠ none →
    ∃ x, l.getLast? = some x ∧ s.queue.list.last = some x.1
  /-- The next call comes to an end, whichever free address `malloc` answers. -/
  exists_step : s.failure = none → ∀ t request,
    (∀ val new, request = .add val (some new) → s.queue.list.nodes.cell new = none) →
    ∃ s', step s (t, request) = some s'
  /-- A call of `queue_add` at the capacity answers `0` and changes no element; below it, with the
  memory it needs, it answers `1` and the new element comes last. -/
  add_returns : s.failure = none → ∀ t val (malloc : Option ℕ),
    ((l.length : ℤ) ≠ maxCount → ∃ new ∈ malloc, s.queue.list.nodes.cell new = none) →
    ∃ s', step s (t, .add val malloc) = some s' ∧ s'.failure = none ∧
      if (l.length : ℤ) = maxCount then
        s'.log = s.log ++ [.add val 0] ∧ s'.queue.list.Represents l
      else
        ∃ new ∈ malloc, s'.log = s.log ++ [.add val 1] ∧
          s'.queue.list.Represents (l ++ [(new, val)])
  /-- A call of `queue_get` without an element answers `0` and leaves the variable alone; otherwise
  it answers `1` with the first element. -/
  get_returns : s.failure = none → ∀ t before,
    ∃ s', step s (t, .get before) = some s' ∧ s'.failure = none ∧
      s'.log = s.log ++ [.get before (Fifo.get before (l.map Prod.snd)).1
        (Fifo.get before (l.map Prod.snd)).2.1] ∧
      s'.queue.list.Represents l.tail
  /-- The program ends only in a call of `queue_add` below the capacity to which `malloc` answers
  NULL. -/
  fails : s.failure = none → ∀ e s', step s e = some s' → s'.failure ≠ none →
    s'.failure = some .outOfMemory ∧ (l.length : ℤ) ≠ maxCount ∧ ∃ val, e.2 = .add val none

/-- The queue under any lock is a bounded list in the order of the calls. -/
lemma boundedFifo_of_reachable {T : Type} {L : LockImpl T} {maxCount : ℤ} (h0 : 0 ≤ maxCount)
    (hint : maxCount < 2 ^ 31) {s : QueueRun L}
    (h : Reachable (QueueRun.step Queue.add Queue.get) (QueueRun.init L maxCount) s) :
    ∃ l, BoundedFifo (QueueRun.step Queue.add Queue.get) maxCount s l := by
  obtain ⟨l, hl⟩ := Refines.of_reachable h0 h
  exact ⟨l, hl, hl.holds.represents.count, hl.count_eq hint, hl.last_eq, hl.exists_step,
    hl.add_returns, hl.get_returns, fun hf _ _ => hl.fails hf⟩

/-- In both files the queue is a bounded list of values in the order of the calls: every call
returns with the result of the list, the counters and assertions hold, and a `last` that is followed
is not the one left behind by an emptied list. -/
theorem queues_are_bounded_fifos {T : Type} {maxCount : ℤ} (h0 : 0 ≤ maxCount)
    (hint : maxCount < 2 ^ 31) :
    (∀ s, Reachable QueueMutex.step (QueueRun.init (pthreadMutex T) maxCount) s →
      ∃ l, BoundedFifo QueueMutex.step maxCount s l) ∧
    ∀ s, Reachable QueueSpinlock.step (QueueRun.init (mySpinlock T) maxCount) s →
      ∃ l, BoundedFifo QueueSpinlock.step maxCount s l :=
  ⟨fun _ hs => boundedFifo_of_reachable h0 hint hs, fun _ hs => boundedFifo_of_reachable h0 hint hs⟩

/-- In a queue of two values the third addition is refused, and after the queue has been emptied it
is filled again. -/
theorem queues_are_bounded_fifos_two :
    (∃ (s : QueueRun (pthreadMutex ℕ)) (l : List (ℕ × ℤ)), s.failure = none ∧
      s.log = [.add 10 1, .add 11 1, .add 12 0, .get 7 1 10, .get 7 1 11, .get 7 0 7, .add 13 1] ∧
      BoundedFifo QueueMutex.step 2 s l) ∧
    ∃ (s : QueueRun (mySpinlock ℕ)) (l : List (ℕ × ℤ)), s.failure = none ∧
      s.log = [.add 10 1, .add 11 1, .add 12 0, .get 7 1 10, .get 7 1 11, .get 7 0 7, .add 13 1] ∧
      BoundedFifo QueueSpinlock.step 2 s l := by
  -- the last addition gets the address of a node that was freed
  have hmutex := Run.get_execWhere QueueMutex.step anyStep (QueueRun.init (pthreadMutex ℕ) 2)
    [(1, .add 10 (some 0)), (2, .add 11 (some 1)), (1, .add 12 (some 2)), (3, .get 7), (3, .get 7),
      (4, .get 7), (1, .add 13 (some 0))] (by decide)
  have hspinlock := Run.get_execWhere QueueSpinlock.step anyStep (QueueRun.init (mySpinlock ℕ) 2)
    [(1, .add 10 (some 0)), (2, .add 11 (some 1)), (1, .add 12 (some 2)), (3, .get 7), (3, .get 7),
      (4, .get 7), (1, .add 13 (some 0))] (by decide)
  obtain ⟨l, hl⟩ := (queues_are_bounded_fifos (by decide) (by decide)).1 _ hmutex
  obtain ⟨l', hl'⟩ := (queues_are_bounded_fifos (by decide) (by decide)).2 _ hspinlock
  exact ⟨⟨_, l, by decide, by decide, hl⟩, _, l', by decide, by decide, hl'⟩

end OsLabs.BoundedQueue
