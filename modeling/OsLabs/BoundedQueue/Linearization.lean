import OsLabs.BoundedQueue.LockedQueue

/-!
# Calls under a lock, step by step

The calls of `LockedQueue.lean` are atomic.  Here a call of `queue_add` or `queue_get` consists of
the steps it has in the code: it takes the lock, for which it may have to wait, works on the queue
and gives the lock back, and threads may come and wait in between.

`queues_linearize` says that this makes no difference: the calls that have returned, in the order of
their returns, have the results of atomic calls, and so has the one that may be at the release of
the lock.  The two lists of calls, `log` and `returned`, are not in the source.
-/

namespace OsLabs.BoundedQueue

open Transition

/-! ## The functions in three parts -/

/-- While a lock is held, nobody takes it. -/
def LockImpl.Excludes {T : Type} (L : LockImpl T) : Prop :=
  ∀ t u held, L.lock t L.free = some held → L.lock u held = none

/-- The mutex excludes. -/
lemma pthreadMutex_excludes (T : Type) : (pthreadMutex T).Excludes := by
  intro t u held hlock
  cases hlock
  rfl

/-- The spinlock excludes. -/
lemma mySpinlock_excludes (T : Type) : (mySpinlock T).Excludes := by
  intro t u held hlock
  cases hlock
  rfl

namespace Queue

variable {T : Type} {L : LockImpl T} {q q' : Queue L} {t : T} {val result after : ℤ}
  {malloc : Option ℕ}

/-- `queue_add` between the acquisition and the release of the lock. -/
def addBody (q : Queue L) (val : ℤ) (malloc : Option ℕ) :
    Option (Except Failure (ℤ × Queue L)) :=
  let q := { q with addAttempts := wrap 64 (q.addAttempts + 1) }
  if ¬ q.list.count ≤ q.maxCount then
    some (.error .assertion)
  else if q.list.count = q.maxCount then
    some (.ok (0, q))
  else
    match malloc with
    | none => some (.error .outOfMemory)
    | some new => do
      let list ← q.list.allocate new val
      match list.link new with
      | none => some (.error .badPointer)
      | some list => some (.ok (1, { q with list := list }))

/-- `queue_get` between the acquisition and the release of the lock. -/
def getBody (q : Queue L) (val : ℤ) : Except Failure (ℤ × ℤ × Queue L) :=
  let q := { q with getAttempts := wrap 64 (q.getAttempts + 1) }
  if ¬ 0 ≤ q.list.count then
    .error .assertion
  else if q.list.count = 0 then
    .ok (0, val, q)
  else
    match q.list.takeFirst with
    | none => .error .badPointer
    | some (v, list) => .ok (1, v, { q with list := list })

/-- The lock is taken. -/
def acquire (q : Queue L) (held : L.State) : Queue L := { q with lock := held }

/-- The lock is given back. -/
def release (q : Queue L) (t : T) : Queue L := { q with lock := L.unlock t q.lock }

/-- The parts make up `queue_add`. -/
lemma add_eq (q : Queue L) (t : T) (val : ℤ) (malloc : Option ℕ) :
    q.add t val malloc = (L.lock t q.lock).bind fun held =>
      ((q.acquire held).addBody val malloc).map (Except.map fun r => (r.1, r.2.release t)) := by
  unfold add addBody acquire release
  cases L.lock t q.lock with
  | none => rfl
  | some held =>
    dsimp only [Option.bind_eq_bind, Option.bind_some]
    split_ifs
    · rfl
    · cases malloc with
      | none => rfl
      | some new =>
        dsimp only
        cases q.list.allocate new val with
        | none => rfl
        | some list =>
          dsimp only [Option.bind_some]
          cases list.link new with
          | none => rfl
          | some list => rfl
    · rfl

/-- The parts make up `queue_get`. -/
lemma get_eq (q : Queue L) (t : T) (val : ℤ) :
    q.get t val = (L.lock t q.lock).map fun held =>
      ((q.acquire held).getBody val).map fun r => (r.1, r.2.1, r.2.2.release t) := by
  unfold get getBody acquire release
  cases L.lock t q.lock with
  | none => rfl
  | some held =>
    dsimp only [Option.bind_eq_bind, Option.bind_some, Option.map_some]
    split_ifs
    · rfl
    · cases q.list.takeFirst with
      | none => rfl
      | some r => rfl
    · rfl

/-- For a thread that got the lock, `queue_add` consists of the work and the release. -/
lemma add_of_lock (h : L.lock t L.free = some q.lock) (val : ℤ) (malloc : Option ℕ) :
    (q.acquire L.free).add t val malloc =
      (q.addBody val malloc).map (Except.map fun r => (r.1, r.2.release t)) := by
  rw [add_eq]
  show (L.lock t L.free).bind _ = _
  rw [h]
  rfl

/-- For a thread that got the lock, `queue_get` consists of the work and the release. -/
lemma get_of_lock (h : L.lock t L.free = some q.lock) (val : ℤ) :
    (q.acquire L.free).get t val =
      some ((q.getBody val).map fun r => (r.1, r.2.1, r.2.2.release t)) := by
  rw [get_eq]
  show (L.lock t L.free).map _ = _
  rw [h]
  rfl

/-- The work of `queue_add` leaves the lock alone. -/
lemma lock_addBody (h : q.addBody val malloc = some (.ok (result, q'))) : q'.lock = q.lock := by
  unfold addBody at h
  dsimp only at h
  split_ifs at h
  · cases h
    rfl
  · cases malloc with
    | none => cases h
    | some new =>
      obtain ⟨list, -, hlink⟩ := Option.bind_eq_some_iff.mp h
      cases hlist : list.link new with
      | none =>
        rw [hlist] at hlink
        cases hlink
      | some list' =>
        rw [hlist] at hlink
        cases hlink
        rfl
  · cases h

/-- The work of `queue_get` leaves the lock alone. -/
lemma lock_getBody (h : q.getBody val = .ok (result, after, q')) : q'.lock = q.lock := by
  unfold getBody at h
  dsimp only at h
  split_ifs at h
  · cases h
    rfl
  · cases htake : q.list.takeFirst with
    | none =>
      rw [htake] at h
      cases h
    | some r =>
      rw [htake] at h
      cases h
      rfl

end Queue

/-! ## The threads -/

/-- Where a thread is in `queue_add` or `queue_get`. -/
inductive CallPlace
  | outside
  /-- At the acquisition of the lock in `queue_add`. -/
  | addLock (val : ℤ)
  /-- In `queue_add`, the lock is held. -/
  | addBody (val : ℤ)
  /-- At the acquisition of the lock in `queue_get`. -/
  | getLock (val : ℤ)
  /-- In `queue_get`, the lock is held. -/
  | getBody (val : ℤ)
  /-- At the release of the lock, with the result. -/
  | unlocking (entry : Entry)
  deriving DecidableEq, Repr

namespace CallPlace

/-- The thread holds the lock. -/
def holds : CallPlace → Bool
  | .addBody _ | .getBody _ | .unlocking _ => true
  | _ => false

/-- The call that had its effect and has not returned. -/
def pending : CallPlace → List Entry
  | .unlocking entry => [entry]
  | _ => []

end CallPlace

/-- The queue with the places of all threads. -/
structure LockedQueue {T : Type} (L : LockImpl T) where
  queue : Queue L
  place : T → CallPlace
  failure : Option Failure
  /-- The calls in the order of their effects. -/
  log : List Entry
  /-- The calls in the order of their returns. -/
  returned : List Entry

/-- What the code does not decide: the calls with their arguments and the answers of `malloc`. -/
inductive CallChoice
  | add (val : ℤ)
  | get (val : ℤ)
  | malloc (answer : Option ℕ)
  | go
  deriving DecidableEq, Repr

namespace LockedQueue

variable {T : Type} [DecidableEq T] {L : LockImpl T}

/-- The state after `queue_init`. -/
def init (L : LockImpl T) (maxCount : ℤ) : LockedQueue L :=
  ⟨Queue.init L maxCount, fun _ => .outside, none, [], []⟩

/-- The thread is at another place. -/
def goTo (s : LockedQueue L) (t : T) (p : CallPlace) : LockedQueue L :=
  { s with place := Function.update s.place t p }

/-- The thread takes the lock. -/
def lock (s : LockedQueue L) (t : T) (p : CallPlace) : Option (LockedQueue L) :=
  (L.lock t s.queue.lock).map fun held => { s.goTo t p with queue := s.queue.acquire held }

/-- The thread has worked on the queue. -/
def work (s : LockedQueue L) (t : T) (entry : Entry) (queue : Queue L) : LockedQueue L :=
  { s.goTo t (.unlocking entry) with queue := queue, log := s.log ++ [entry] }

/-- The program is aborted. -/
def abort (s : LockedQueue L) (failure : Failure) : LockedQueue L :=
  { s with failure := some failure }

/-- The thread gives the lock back and returns. -/
def unlock (s : LockedQueue L) (t : T) (entry : Entry) : LockedQueue L :=
  { s.goTo t .outside with queue := s.queue.release t, returned := s.returned ++ [entry] }

/-- The next step of a thread; `none` while it waits for the lock. -/
def advance (s : LockedQueue L) (t : T) (choice : CallChoice) : Option (LockedQueue L) :=
  match s.place t, choice with
  | .outside, .add val => some (s.goTo t (.addLock val))
  | .outside, .get val => some (s.goTo t (.getLock val))
  | .addLock val, .go => s.lock t (.addBody val)
  | .addBody val, .malloc answer =>
    (s.queue.addBody val answer).map fun
      | .error failure => s.abort failure
      | .ok (result, queue) => s.work t (.add val result) queue
  | .getLock val, .go => s.lock t (.getBody val)
  | .getBody val, .go =>
    match s.queue.getBody val with
    | .error failure => some (s.abort failure)
    | .ok (result, after, queue) => some (s.work t (.get val result after) queue)
  | .unlocking entry, .go => some (s.unlock t entry)
  | _, _ => none

/-- A thread makes a step, while the program runs. -/
def step (s : LockedQueue L) (e : T × CallChoice) : Option (LockedQueue L) :=
  if s.failure.isSome then none else s.advance e.1 e.2

end LockedQueue

/-! ## The lock -/

section Exclusion

variable {T : Type} [DecidableEq T] {L : LockImpl T} {place : T → CallPlace} {lock held : L.State}
  {t u : T} {p : CallPlace}

/-- The lock is free and nobody holds it, or one thread holds it. -/
def Exclusive (L : LockImpl T) (place : T → CallPlace) (lock : L.State) : Prop :=
  (lock = L.free ∧ ∀ t, (place t).holds = false) ∨
    ∃ t, L.lock t L.free = some lock ∧ ∀ u, (place u).holds = true ↔ u = t

namespace Exclusive

omit [DecidableEq T] in
/-- The holder got the lock when it was free, and there is no other holder. -/
lemma of_holds (h : Exclusive L place lock) (ht : (place t).holds = true) :
    L.lock t L.free = some lock ∧ ∀ u, (place u).holds = true ↔ u = t := by
  rcases h with ⟨-, hnone⟩ | ⟨u, hlock, hholds⟩
  · exact absurd (ht.symm.trans (hnone t)) Bool.noConfusion
  · obtain rfl := (hholds t).mp ht
    exact ⟨hlock, hholds⟩

/-- A thread that takes the lock found it free. -/
lemma acquire (h : Exclusive L place lock) (hL : L.Excludes) (hlock : L.lock t lock = some held)
    (hp : p.holds = true) :
    lock = L.free ∧ Exclusive L (Function.update place t p) held := by
  rcases h with ⟨hfree, hnone⟩ | ⟨u, hu, -⟩
  · refine ⟨hfree, Or.inr ⟨t, hfree ▸ hlock, ?_⟩⟩
    intro u
    rcases eq_or_ne u t with rfl | hne
    · rw [Function.update_self]
      exact iff_of_true hp rfl
    · rw [Function.update_of_ne hne, hnone u]
      exact iff_of_false Bool.noConfusion hne
  · rw [hL u t lock hu] at hlock
    cases hlock

/-- The holder gives the lock back. -/
lemma release (h : Exclusive L place lock) (ht : (place t).holds = true) (hp : p.holds = false) :
    L.unlock t lock = L.free ∧ Exclusive L (Function.update place t p) (L.unlock t lock) := by
  obtain ⟨hlock, hholds⟩ := h.of_holds ht
  have hfree : L.unlock t lock = L.free := by
    have hunlock := L.lock_unlock t
    rw [hlock, Option.map_some, Option.some.injEq] at hunlock
    exact hunlock
  refine ⟨hfree, Or.inl ⟨hfree, ?_⟩⟩
  intro u
  rcases eq_or_ne u t with rfl | hne
  · rw [Function.update_self, hp]
  · rw [Function.update_of_ne hne]
    exact Bool.eq_false_iff.mpr fun hu => hne ((hholds u).mp hu)

/-- A thread goes on with the lock, or without it. -/
lemma keep (h : Exclusive L place lock) (hp : p.holds = (place t).holds) :
    Exclusive L (Function.update place t p) lock := by
  have hsame : ∀ u, (Function.update place t p u).holds = (place u).holds := by
    intro u
    rcases eq_or_ne u t with rfl | hne
    · rw [Function.update_self, hp]
    · rw [Function.update_of_ne hne]
  rcases h with ⟨hfree, hnone⟩ | ⟨u, hlock, hholds⟩
  · refine Or.inl ⟨hfree, ?_⟩
    intro u
    rw [hsame, hnone]
  · refine Or.inr ⟨u, hlock, ?_⟩
    intro v
    rw [hsame, hholds]

end Exclusive

end Exclusion

/-! ## Linearization -/

namespace LockedQueue

variable {T : Type} [DecidableEq T] {L : LockImpl T} {maxCount : ℤ} {s s' : LockedQueue L} {t : T}
  {a : QueueRun L} {choice : CallChoice} {p : CallPlace} {entry : Entry} {queue : Queue L}

/-- The state of the atomic calls: the lock is free. -/
def atomic (s : LockedQueue L) : QueueRun L :=
  ⟨s.queue.acquire L.free, s.failure, s.log⟩

/-- What the returned calls and the one at the release of the lock have to do with the log. -/
structure Returns (s : LockedQueue L) : Prop where
  pending : ∀ t, (s.place t).holds = true → s.log = s.returned ++ (s.place t).pending
  idle : (∀ t, (s.place t).holds = false) → s.log = s.returned

/-- The invariant: the steps so far had the effect of atomic calls. -/
structure Invariant (maxCount : ℤ) (s : LockedQueue L) : Prop where
  atomic : Reachable (QueueRun.step Queue.add Queue.get) (QueueRun.init L maxCount) s.atomic
  exclusive : Exclusive L s.place s.queue.lock
  returns : s.failure = none → Returns s

/-- Who does not hold the lock has no effect behind it. -/
lemma pending_of_not_holds (h : p.holds = false) : p.pending = [] := by
  cases p <;> first | rfl | cases h

/-- A step of a thread while nobody else holds the lock. -/
lemma Returns.of_alone (hplace : s'.place = Function.update s.place t p)
    (halone : ∀ u, u ≠ t → (s.place u).holds = false)
    (hlog : s'.log = s'.returned ++ p.pending) : Returns s' := by
  constructor
  · intro u hu
    rw [hplace] at hu ⊢
    rcases eq_or_ne u t with rfl | hne
    · rw [Function.update_self]
      exact hlog
    · rw [Function.update_of_ne hne, halone u hne] at hu
      cases hu
  · intro hnone
    have hp := hnone t
    rw [hplace, Function.update_self] at hp
    rw [hlog, pending_of_not_holds hp, List.append_nil]

/-- A step of a thread without the lock. -/
lemma Returns.keep (h : Returns s) (ht : (s.place t).holds = false) (hp : p.holds = false) :
    Returns (s.goTo t p) := by
  have hsame : ∀ u, ((s.goTo t p).place u).holds = (s.place u).holds := by
    intro u
    rcases eq_or_ne u t with rfl | hne
    · exact (congrArg CallPlace.holds (Function.update_self ..)).trans (hp.trans ht.symm)
    · exact congrArg CallPlace.holds (Function.update_of_ne hne ..)
  constructor
  · intro u hu
    have hne : u ≠ t := by
      rintro rfl
      rw [hsame, ht] at hu
      cases hu
    have hpending := h.pending u ((hsame u).symm.trans hu)
    rw [show (s.goTo t p).place u = s.place u from Function.update_of_ne hne ..]
    exact hpending
  · intro hnone
    exact h.idle fun u => (hsame u).symm.trans (hnone u)

omit [DecidableEq T] in
/-- The atomic call of `queue_add` at the work of the thread that got the lock. -/
lemma step_atomic_add (hfail : s.failure = none) (hlock : L.lock t L.free = some s.queue.lock)
    (val : ℤ) (malloc : Option ℕ) :
    QueueRun.step Queue.add Queue.get s.atomic (t, .add val malloc) =
      (s.queue.addBody val malloc).map fun
        | .error failure => ⟨s.queue.acquire L.free, some failure, s.log⟩
        | .ok (result, queue) => ⟨queue.release t, none, s.log ++ [.add val result]⟩ := by
  have hrunning : s.atomic = ⟨s.queue.acquire L.free, none, s.log⟩ := by rw [← hfail]; rfl
  rw [hrunning]
  show Option.map _ ((s.queue.acquire L.free).add t val malloc) = _
  rw [Queue.add_of_lock hlock, Option.map_map]
  congr 1
  funext result
  cases result <;> rfl

omit [DecidableEq T] in
/-- The atomic call of `queue_get` at the work of the thread that got the lock. -/
lemma step_atomic_get (hfail : s.failure = none) (hlock : L.lock t L.free = some s.queue.lock)
    (val : ℤ) :
    QueueRun.step Queue.add Queue.get s.atomic (t, .get val) =
      match s.queue.getBody val with
      | .error failure => some ⟨s.queue.acquire L.free, some failure, s.log⟩
      | .ok (result, after, queue) =>
        some ⟨queue.release t, none, s.log ++ [.get val result after]⟩ := by
  have hrunning : s.atomic = ⟨s.queue.acquire L.free, none, s.log⟩ := by rw [← hfail]; rfl
  rw [hrunning]
  show Option.map _ ((s.queue.acquire L.free).get t val) = _
  rw [Queue.get_of_lock hlock]
  cases s.queue.getBody val <;> rfl

namespace Invariant

/-- A step outside the lock. -/
lemma goTo (h : Invariant maxCount s) (hfail : s.failure = none)
    (ht : (s.place t).holds = false) (hp : p.holds = false) : Invariant maxCount (s.goTo t p) where
  atomic := h.atomic
  exclusive := h.exclusive.keep (hp.trans ht.symm)
  returns _ := (h.returns hfail).keep ht hp

/-- The lock is taken. -/
lemma lock (h : Invariant maxCount s) (hL : L.Excludes) (hfail : s.failure = none)
    (hp : p.holds = true) (hpending : p.pending = []) (hst : s.lock t p = some s') :
    Invariant maxCount s' := by
  obtain ⟨held, hlock, rfl⟩ := Option.map_eq_some_iff.mp hst
  obtain ⟨hfree, hexclusive⟩ := h.exclusive.acquire hL hlock hp
  have hnone : ∀ u, (s.place u).holds = false := by
    rcases h.exclusive with ⟨-, hnone⟩ | ⟨u, hu, -⟩
    · exact hnone
    · rw [hL u t _ hu] at hlock
      cases hlock
  refine ⟨h.atomic, hexclusive, fun _ => .of_alone rfl (fun u _ => hnone u) ?_⟩
  show s.log = s.returned ++ p.pending
  rw [(h.returns hfail).idle hnone, hpending, List.append_nil]

/-- The work on the queue, which an atomic call does in the same way. -/
lemma work (h : Invariant maxCount s) (hfail : s.failure = none) (ht : (s.place t).holds = true)
    (hpending : (s.place t).pending = [])
    (hstep : Reachable (QueueRun.step Queue.add Queue.get) s.atomic
      ⟨queue.release t, none, s.log ++ [entry]⟩)
    (hqueue : queue.lock = s.queue.lock) : Invariant maxCount (s.work t entry queue) := by
  obtain ⟨-, hholds⟩ := h.exclusive.of_holds ht
  obtain ⟨hfree, -⟩ := h.exclusive.release (p := .outside) ht rfl
  constructor
  · have hatomic : (s.work t entry queue).atomic = ⟨queue.release t, none, s.log ++ [entry]⟩ := by
      unfold Queue.release
      rw [hqueue, hfree, ← hfail]
      rfl
    rw [hatomic]
    exact h.atomic.trans hstep
  · show Exclusive L (Function.update s.place t _) queue.lock
    rw [hqueue]
    exact h.exclusive.keep ht.symm
  · intro _
    apply Returns.of_alone rfl
    · intro u hne
      exact Bool.eq_false_iff.mpr fun hu => hne ((hholds u).mp hu)
    · show s.log ++ [entry] = s.returned ++ [entry]
      rw [(h.returns hfail).pending t ht, hpending, List.append_nil]

omit [DecidableEq T] in
/-- The end of the program, to which an atomic call leads in the same way. -/
lemma abort {failure : Failure} (h : Invariant maxCount s)
    (hstep : Reachable (QueueRun.step Queue.add Queue.get) s.atomic
      ⟨s.queue.acquire L.free, some failure, s.log⟩) : Invariant maxCount (s.abort failure) where
  atomic := h.atomic.trans hstep
  exclusive := h.exclusive
  returns hfail := by cases hfail

/-- The lock is given back. -/
lemma unlock (h : Invariant maxCount s) (hfail : s.failure = none)
    (ht : s.place t = .unlocking entry) : Invariant maxCount (s.unlock t entry) := by
  have hholds : (s.place t).holds = true := by rw [ht]; rfl
  obtain ⟨-, halone⟩ := h.exclusive.of_holds hholds
  obtain ⟨-, hexclusive⟩ := h.exclusive.release (p := .outside) hholds rfl
  refine ⟨h.atomic, hexclusive, fun _ => .of_alone rfl ?_ ?_⟩
  · intro u hne
    exact Bool.eq_false_iff.mpr fun hu => hne ((halone u).mp hu)
  · show s.log = s.returned ++ [entry] ++ []
    rw [List.append_nil, (h.returns hfail).pending t hholds, ht]
    rfl

/-- Every step keeps the invariant. -/
lemma step (h : Invariant maxCount s) (hL : L.Excludes)
    (hst : LockedQueue.step s (t, choice) = some s') : Invariant maxCount s' := by
  unfold LockedQueue.step at hst
  split_ifs at hst with hf
  have hfail : s.failure = none := by simpa using hf
  unfold advance at hst
  dsimp only at hst
  split at hst
  next val ht =>
    cases hst
    exact h.goTo hfail (by rw [ht]; rfl) rfl
  next val ht =>
    cases hst
    exact h.goTo hfail (by rw [ht]; rfl) rfl
  next val ht => exact h.lock hL hfail rfl rfl hst
  next val answer ht =>
    have hholds : (s.place t).holds = true := by rw [ht]; rfl
    have hatomic := step_atomic_add hfail (h.exclusive.of_holds hholds).1 val answer
    obtain ⟨result, hbody, hs'⟩ := Option.map_eq_some_iff.mp hst
    rw [hbody] at hatomic
    cases result with
    | error failure =>
      cases hs'
      exact h.abort (Run.tail .refl trivial hatomic)
    | ok r =>
      cases hs'
      exact h.work hfail hholds (by rw [ht]; rfl) (Run.tail .refl trivial hatomic)
        (Queue.lock_addBody hbody)
  next val ht => exact h.lock hL hfail rfl rfl hst
  next val ht =>
    have hholds : (s.place t).holds = true := by rw [ht]; rfl
    have hatomic := step_atomic_get hfail (h.exclusive.of_holds hholds).1 val
    split at hst
    next failure hbody =>
      cases hst
      rw [hbody] at hatomic
      exact h.abort (Run.tail .refl trivial hatomic)
    next result after queue hbody =>
      cases hst
      rw [hbody] at hatomic
      exact h.work hfail hholds (by rw [ht]; rfl) (Run.tail .refl trivial hatomic)
        (Queue.lock_getBody hbody)
  next entry ht =>
    cases hst
    exact h.unlock hfail ht
  next => cases hst

omit [DecidableEq T] in
/-- The new queue. -/
lemma init (L : LockImpl T) (maxCount : ℤ) : Invariant maxCount (LockedQueue.init L maxCount) where
  atomic := .refl
  exclusive := Or.inl ⟨rfl, fun _ => rfl⟩
  returns _ := ⟨fun _ h => Bool.noConfusion h, fun _ => rfl⟩

/-- The invariant holds in every reachable state. -/
lemma of_reachable (hL : L.Excludes)
    (h : Reachable LockedQueue.step (LockedQueue.init L maxCount) s) : Invariant maxCount s :=
  h.invariant (init L maxCount) fun _ _ _ hi _ hst => hi.step hL hst

omit [DecidableEq T] in
/-- With the lock a thread can add its value, or finds the queue full. -/
lemma exists_addBody {l : List (ℕ × ℤ)} (hl : s.atomic.queue.Holds maxCount l)
    (hlock : L.lock t L.free = some s.queue.lock) (val : ℤ) :
    ∃ malloc r, s.queue.addBody val malloc = some (.ok r) := by
  have hadd : ∃ malloc r, (s.queue.acquire L.free).add t val malloc = some (.ok r) := by
    by_cases hfull : (l.length : ℤ) = maxCount
    · obtain ⟨q, hq, -⟩ := hl.add_full hfull t val none
      exact ⟨none, _, hq⟩
    · obtain ⟨new, hnew⟩ := s.queue.list.nodes.exists_free
      obtain ⟨q, hq, -⟩ := hl.add_some hfull t val hnew
      exact ⟨some new, _, hq⟩
  obtain ⟨malloc, r, hr⟩ := hadd
  rw [Queue.add_of_lock hlock] at hr
  obtain ⟨result, hbody, hresult⟩ := Option.map_eq_some_iff.mp hr
  cases result with
  | error failure => cases hresult
  | ok r => exact ⟨malloc, r, hbody⟩

omit [DecidableEq T] in
/-- With the lock a thread can get a value, or finds the queue empty. -/
lemma exists_getBody {l : List (ℕ × ℤ)} (hl : s.atomic.queue.Holds maxCount l)
    (hlock : L.lock t L.free = some s.queue.lock) (val : ℤ) :
    ∃ r, s.queue.getBody val = .ok r := by
  have hget : ∃ r, (s.queue.acquire L.free).get t val = some (.ok r) := by
    cases l with
    | nil =>
      obtain ⟨q, hq, -⟩ := hl.get_nil t val
      exact ⟨_, hq⟩
    | cons x l =>
      obtain ⟨q, hq, -⟩ := hl.get_cons t val
      exact ⟨_, hq⟩
  obtain ⟨r, hr⟩ := hget
  rw [Queue.get_of_lock hlock, Option.some.injEq] at hr
  cases hbody : s.queue.getBody val with
  | error failure =>
    rw [hbody] at hr
    cases hr
  | ok r => exact ⟨r, rfl⟩

/-- The holder of the lock can go on. -/
lemma exists_step_of_holds {l : List (ℕ × ℤ)} (h : Invariant maxCount s)
    (hl : s.atomic.queue.Holds maxCount l) (hfail : s.failure = none)
    (ht : (s.place t).holds = true) :
    ∃ choice s', LockedQueue.step s (t, choice) = some s' ∧ s'.failure = none := by
  have hlock := (h.exclusive.of_holds ht).1
  unfold LockedQueue.step
  rw [hfail]
  cases hplace : s.place t with
  | outside | addLock val | getLock val =>
    rw [hplace] at ht
    cases ht
  | addBody val =>
    obtain ⟨malloc, r, hbody⟩ := exists_addBody hl hlock val
    refine ⟨.malloc malloc, s.work t (.add val r.1) r.2, ?_, hfail⟩
    show s.advance t (.malloc malloc) = _
    unfold advance
    rw [hplace]
    dsimp only
    rw [hbody]
    rfl
  | getBody val =>
    obtain ⟨r, hbody⟩ := exists_getBody hl hlock val
    refine ⟨.go, s.work t (.get val r.1 r.2.1) r.2.2, ?_, hfail⟩
    show s.advance t .go = _
    unfold advance
    rw [hplace]
    dsimp only
    rw [hbody]
  | unlocking entry =>
    refine ⟨.go, s.unlock t entry, ?_, hfail⟩
    show s.advance t .go = _
    unfold advance
    rw [hplace]

omit [DecidableEq T] in
/-- A free lock can be taken. -/
lemma exists_lock (t : T) (hfree : s.queue.lock = L.free) :
    ∃ held, L.lock t s.queue.lock = some held := by
  obtain ⟨held, hheld, -⟩ := Option.map_eq_some_iff.mp (L.lock_unlock t)
  exact ⟨held, hfree ▸ hheld⟩

/-- While some thread is in a call, some thread in a call can go on. -/
lemma exists_step {l : List (ℕ × ℤ)} (h : Invariant maxCount s)
    (hl : s.atomic.queue.Holds maxCount l) (hfail : s.failure = none)
    (ht : s.place t ≠ .outside) :
    ∃ u choice s', s.place u ≠ .outside ∧ LockedQueue.step s (u, choice) = some s' ∧
      s'.failure = none := by
  rcases h.exclusive with ⟨hfree, hnone⟩ | ⟨u, -, hholds⟩
  · obtain ⟨held, hlock⟩ := exists_lock t hfree
    refine ⟨t, .go, ?_⟩
    unfold LockedQueue.step
    rw [hfail]
    cases hplace : s.place t with
    | outside => exact absurd hplace ht
    | addBody | getBody | unlocking =>
      have hholds := hnone t
      rw [hplace] at hholds
      cases hholds
    | addLock val =>
      refine ⟨{ s.goTo t (.addBody val) with queue := s.queue.acquire held }, hplace ▸ ht, ?_,
        hfail⟩
      · show s.advance t .go = _
        unfold advance
        rw [hplace]
        exact Option.map_eq_some_iff.mpr ⟨held, hlock, rfl⟩
    | getLock val =>
      refine ⟨{ s.goTo t (.getBody val) with queue := s.queue.acquire held }, hplace ▸ ht, ?_,
        hfail⟩
      · show s.advance t .go = _
        unfold advance
        rw [hplace]
        exact Option.map_eq_some_iff.mpr ⟨held, hlock, rfl⟩
  · have hu := (hholds u).mpr rfl
    obtain ⟨choice, s', hst, hfail'⟩ := h.exists_step_of_holds hl hfail hu
    refine ⟨u, choice, s', ?_, hst, hfail'⟩
    intro hout
    rw [hout] at hu
    cases hu

end Invariant

/-- What a reachable state looks like. -/
structure Linearizes (maxCount : ℤ) (s : LockedQueue L) : Prop where
  /-- One thread at most is between the acquisition and the release of the lock. -/
  exclusive : ∀ t u, (s.place t).holds = true → (s.place u).holds = true → t = u
  /-- The calls that have returned, in the order of their returns, and behind them the one that is
  at the release of the lock have the results of a list, which is the one in memory. -/
  replay : s.failure = none → ∃ l pending, s.queue.list.Represents l ∧
    Fifo.replay maxCount (s.returned ++ pending) [] = some (l.map Prod.snd) ∧
    (∀ t, (s.place t).holds = true → pending = (s.place t).pending) ∧
    ((∀ t, (s.place t).holds = false) → pending = [])
  failure : s.failure = none ∨ s.failure = some .outOfMemory
  /-- While some thread is in a call, some thread in a call can go on, and the program with it. -/
  exists_step : s.failure = none → (∃ t, s.place t ≠ .outside) →
    ∃ t choice s', s.place t ≠ .outside ∧ step s (t, choice) = some s' ∧ s'.failure = none

/-- Under every lock that excludes the calls are as if they were atomic. -/
lemma linearizes_of_reachable (hL : L.Excludes) (hmax : 0 ≤ maxCount)
    (h : Reachable step (init L maxCount) s) : Linearizes maxCount s := by
  have hinv := Invariant.of_reachable hL h
  obtain ⟨l, hl⟩ := Refines.of_reachable hmax hinv.atomic
  refine ⟨?_, ?_, hl.failure, fun hfail ⟨t, ht⟩ => hinv.exists_step hl.holds hfail ht⟩
  · intro t u ht hu
    exact ((hinv.exclusive.of_holds hu).2 t).mp ht
  · intro hfail
    have hreturns := hinv.returns hfail
    have hreplay : Fifo.replay maxCount s.log [] = some (l.map Prod.snd) := hl.replay
    by_cases hnone : ∀ t, (s.place t).holds = false
    · refine ⟨l, [], hl.holds.represents, ?_, ?_, fun _ => rfl⟩
      · rw [List.append_nil, ← hreturns.idle hnone]
        exact hreplay
      · intro t ht
        rw [hnone t] at ht
        cases ht
    · rw [not_forall] at hnone
      obtain ⟨t, ht⟩ := hnone
      rw [Bool.not_eq_false] at ht
      refine ⟨l, (s.place t).pending, hl.holds.represents, ?_, ?_, ?_⟩
      · rw [← hreturns.pending t ht]
        exact hreplay
      · intro u hu
        rw [((hinv.exclusive.of_holds ht).2 u).mp hu]
      · intro hnone
        rw [hnone t] at ht
        cases ht

end LockedQueue

/-- In every interleaving of the steps of any number of threads, the queue under the mutex and the
queue under the spinlock behave as if their calls were atomic, in the order of the returns. -/
theorem queues_linearize {T : Type} [DecidableEq T] {maxCount : ℤ} (hmax : 0 ≤ maxCount) :
    (∀ s, Reachable LockedQueue.step (LockedQueue.init (pthreadMutex T) maxCount) s →
      s.Linearizes maxCount) ∧
    ∀ s, Reachable LockedQueue.step (LockedQueue.init (mySpinlock T) maxCount) s →
      s.Linearizes maxCount :=
  ⟨fun _ hs => LockedQueue.linearizes_of_reachable (pthreadMutex_excludes T) hmax hs,
    fun _ hs => LockedQueue.linearizes_of_reachable (mySpinlock_excludes T) hmax hs⟩

/-- While one thread has the lock another one waits for it; its value comes second, and the third
addition is refused. -/
theorem queues_linearize_two :
    (∃ s : LockedQueue (pthreadMutex ℕ), s.failure = none ∧
      s.returned = [.add 10 1, .add 11 1, .add 12 0, .get 7 1 10] ∧
      s.place 3 = .unlocking (.get 7 1 11) ∧ s.Linearizes 2) ∧
    ∃ s : LockedQueue (mySpinlock ℕ), s.failure = none ∧
      s.returned = [.add 10 1, .add 11 1, .add 12 0, .get 7 1 10] ∧
      s.place 3 = .unlocking (.get 7 1 11) ∧ s.Linearizes 2 := by
  have hmutex := Run.get_execWhere LockedQueue.step anyStep (LockedQueue.init (pthreadMutex ℕ) 2)
    [(1, .add 10), (2, .add 11), (1, .go), (1, .malloc (some 0)), (1, .go), (2, .go), (1, .add 12),
      (2, .malloc (some 1)), (2, .go), (1, .go), (1, .malloc (some 2)), (3, .get 7), (1, .go),
      (3, .go), (3, .go), (3, .go), (3, .get 7), (3, .go), (3, .go)] (by decide)
  have hspinlock := Run.get_execWhere LockedQueue.step anyStep (LockedQueue.init (mySpinlock ℕ) 2)
    [(1, .add 10), (2, .add 11), (1, .go), (1, .malloc (some 0)), (1, .go), (2, .go), (1, .add 12),
      (2, .malloc (some 1)), (2, .go), (1, .go), (1, .malloc (some 2)), (3, .get 7), (1, .go),
      (3, .go), (3, .go), (3, .go), (3, .get 7), (3, .go), (3, .go)] (by decide)
  exact ⟨⟨_, by decide, by decide, by decide, (queues_linearize (by decide)).1 _ hmutex⟩,
    _, by decide, by decide, by decide, (queues_linearize (by decide)).2 _ hspinlock⟩

end OsLabs.BoundedQueue
