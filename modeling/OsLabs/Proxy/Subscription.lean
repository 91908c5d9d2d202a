import OsLabs.Proxy.Chunk
import Mathlib.Algebra.Group.Int.Defs
import Mathlib.Algebra.Group.Nat.Defs
import Mathlib.Data.Int.Init
import Mathlib.Logic.Function.Basic

/-!
# One manager, its session thread and its upload workers

`lab3/src/chunk/subscription.c` with `send_data_to_fd` of `common.c`, in the `PARALLEL` build, as a
step function.  The session thread makes a list of `add_chunk` calls and then calls
`finish_pending_chunks`; other threads call `subscribe` at any time; every task that
`__send_chunks` pushes is executed by some worker, in any order.

A step is a critical section or a piece of code between two accesses to shared data: each
acquisition of `manager->lock` or of a subscriber's lock, each `send`, each update of `chunk_loaded`
is a step of its own.  A wait on `manager->cond` may end at any time, as POSIX allows.  Subscribers
are numbered in the order of their allocation and chunks by their position in the container.

`accepted`, `torn`, `round` and `roundSubscribers` are not in the source: they record the bytes that
`send` took, whether a `send_data_to_fd` failed in the middle of a chunk, how often `__send_chunks`
was called, and which subscribers were linked then.
-/

namespace OsLabs.Proxy

/-- `subscriber_t`, without the links. -/
structure Subscriber where
  fd : ℕ
  chunkLoaded : ℕ
  /-- `lock` is held. -/
  locked : Bool
  /-- `unsubscribe` has closed the `fd` and freed the subscriber. -/
  closed : Bool
  accepted : List UInt8
  torn : Bool

/-- Where a worker is in `__send_chunks_to_subscriber`. -/
inductive TaskPc
  /-- In the queue of the pool, or waiting for `subscriber->lock`. -/
  | queued
  /-- `subscriber->lock` was taken. -/
  | locked
  /-- The test of the `for` loop, with the values of `current_chunk`, `i` and `last_chunk`. -/
  | loop (current : ℕ) (i last : ℤ)
  /-- In `send_data_to_fd`, with the value of `total_sent`. -/
  | sending (current : ℕ) (i last : ℤ) (total : ℕ)
  /-- At the label `end`; `failed` says whether a `send_data_to_fd` failed. -/
  | finishing (failed : Bool)
  /-- `manager->flag` was decremented, `subscriber->lock` is still held. -/
  | unlocking (failed : Bool)
  /-- The task has returned. -/
  | done (failed : Bool)
  /-- The task has used memory that was freed, or a null pointer; `holding` says whether it had
  taken `subscriber->lock`. -/
  | fault (holding : Bool)
  deriving DecidableEq, Repr

/-- One task of the upload pool. -/
structure Task where
  subscriber : ℕ
  /-- The call of `__send_chunks` that pushed the task. -/
  round : ℕ
  pc : TaskPc
  deriving DecidableEq, Repr

/-- Where the session thread is. -/
inductive SessionPc
  /-- Between two calls of `add_chunk`, or after the last one. -/
  | idle
  /-- In `add_chunk`, before `__add_chunk`. -/
  | adding (p : Payload)
  /-- Before `__send_chunks`. -/
  | sendStart
  /-- In the loop of `__send_chunks`, with the subscribers that remain. -/
  | sendLoop (rest : List ℕ)
  /-- `__send_chunks` waits for `manager->lock`, which this thread holds. -/
  | selfLocked (rest : List ℕ)
  /-- The test `manager->flag > 0`. -/
  | waitTest
  /-- In `pthread_cond_wait`. -/
  | waiting
  /-- `manager->first_subscriber->fd` was read without a subscriber. -/
  | crashed
  /-- The test of the loop of `finish_pending_chunks`. -/
  | finishing (subscriber : Option ℕ)
  /-- Before the lock of `unsubscribe`, with the value of `tmp`. -/
  | unsubscribing (subscriber : ℕ) (tmp : Option ℕ)
  /-- In `unsubscribe`, waiting for `subscriber->lock`. -/
  | closing (subscriber : ℕ) (tmp : Option ℕ)

/-- The shared state and the positions of all threads. -/
structure Subscription where
  container : ChunkContainer
  /-- The subscribers by allocation number. -/
  subscriber : ℕ → Subscriber
  /-- How many subscribers were allocated. -/
  subscribers : ℕ
  /-- The list from `first_subscriber` to `last_subscriber`. -/
  linked : List ℕ
  subscribersCount : ℕ
  /-- The value of the `char` in `flag`. -/
  flag : ℤ
  /-- `manager->lock` is held across steps. -/
  locked : Bool
  pc : SessionPc
  /-- The arguments of the calls of `add_chunk` to come. -/
  todo : List Payload
  tasks : List Task
  round : ℕ
  roundSubscribers : List ℕ

/-- A choice of the scheduler, with the result of what may fail. -/
inductive SubscriptionEvent
  /-- A handler calls `subscribe(manager, fd)`. -/
  | subscribe (fd : ℕ) (allocated : Bool)
  /-- The session thread makes its next step. -/
  | session (allocated : Bool)
  /-- The worker of a task makes its next step; `none` is a `send` that returns `-1`. -/
  | worker (task : ℕ) (sent : Option ℕ)
  deriving DecidableEq, Repr

/-! ## Conversions of integers -/

/-- The conversion to a signed `char`. -/
@[irreducible] def toChar (x : ℤ) : ℤ := Int.bmod x 256

/-- The conversion of a `size_t` to `int`. -/
def toInt (x : ℕ) : ℤ := Int.bmod x (2 ^ 32)

/-- The conversion of an `int` to `size_t`. -/
def toSize (x : ℤ) : ℕ := (x % 2 ^ 64).toNat

/-- A small value is not changed by the conversion to `char`. -/
lemma toChar_of_lt {x : ℤ} (hlow : -128 ≤ x) (hhigh : x < 128) : toChar x = x := by
  unfold toChar
  exact Int.bmod_eq_of_le hlow hhigh

/-- An `int` is less than `2 ^ 31`. -/
lemma toInt_lt (x : ℕ) : toInt x < 2 ^ 31 := by
  unfold toInt
  have h := Int.bmod_lt (x := (x : ℤ)) (Nat.two_pow_pos 32)
  omega

/-- The conversion to `int` never makes a number larger. -/
lemma toInt_le (x : ℕ) : toInt x ≤ x := by
  unfold toInt
  rw [Int.bmod_def]
  split_ifs <;> omega

/-- A small value is not changed by the conversion to `int`. -/
lemma toInt_of_lt {x : ℕ} (h : x < 2 ^ 31) : toInt x = x := by
  unfold toInt
  exact Int.bmod_eq_of_le (by omega) (by omega)

/-- Nor by the conversion back to `size_t`. -/
lemma toSize_toInt {x : ℕ} (h : x < 2 ^ 31) : toSize (toInt x) = x := by
  have hx := toInt_of_lt h
  unfold toSize
  omega

/-! ## Steps -/

namespace Subscription

/-- A new manager whose session will add the chunks `todo`. -/
def initial (todo : List Payload) : Subscription where
  container := ChunkContainer.create
  subscriber := fun _ => ⟨0, 0, false, false, [], false⟩
  subscribers := 0
  linked := []
  subscribersCount := 0
  flag := 0
  locked := false
  pc := .idle
  todo := todo
  tasks := []
  round := 0
  roundSubscribers := []

/-- The session thread goes on to `pc`. -/
def goto (s : Subscription) (pc : SessionPc) : Subscription := { s with pc := pc }

/-- Takes or releases `manager->lock`. -/
def setLocked (s : Subscription) (locked : Bool) : Subscription := { s with locked := locked }

/-- The body of `subscribe` after a successful allocation. -/
def link (s : Subscription) (fd : ℕ) : Subscription :=
  { s with
    subscriber := Function.update s.subscriber s.subscribers ⟨fd, 0, false, false, [], false⟩
    subscribers := s.subscribers + 1
    linked := s.linked ++ [s.subscribers]
    subscribersCount := s.subscribersCount + 1 }

/-- `subscribe`; a failed allocation leaves the lock held. -/
def subscribe (s : Subscription) (fd : ℕ) (allocated : Bool) : Subscription :=
  if allocated then s.link fd else s.setLocked true

/-- `subscriber->next`. -/
def next (s : Subscription) (j : ℕ) : Option ℕ := s.linked[s.linked.idxOf j + 1]?

/-- `flag = subscribers_count`, at the beginning of `__send_chunks`. -/
def startRound (s : Subscription) : Subscription :=
  { s with
    flag := toChar s.subscribersCount
    round := s.round + 1
    roundSubscribers := s.linked }

/-- `threadpool_push_task(upload_pool, __send_chunks_to_subscriber, info)`. -/
def pushTask (s : Subscription) (j : ℕ) : Subscription :=
  { s with tasks := s.tasks ++ [⟨j, s.round, .queued⟩] }

/-- The unlinking in `unsubscribe`. -/
def unlink (s : Subscription) (j : ℕ) : Subscription := { s with linked := s.linked.erase j }

/-- `close(fd)`, `free(subscriber)` and `subscribers_count--` in `unsubscribe`. -/
def close (s : Subscription) (j : ℕ) : Subscription :=
  { s with
    subscriber := Function.update s.subscriber j { s.subscriber j with closed := true }
    subscribersCount := s.subscribersCount - 1 }

/-- One step of the session thread. -/
def sessionStep (s : Subscription) (allocated : Bool) : Option Subscription :=
  match s.pc with
  | .idle =>
    match s.todo with
    | [] => some (s.goto (.finishing s.linked.head?))
    | p :: todo =>
      if s.linked = [] then some (s.goto .crashed)
      else if s.locked then none
      else some ({ s.setLocked true with todo := todo }.goto (.adding p))
  | .adding p =>
    some ({ s with container := s.container.addChunk p allocated }.goto .sendStart)
  | .sendStart => some (s.startRound.goto (.sendLoop s.linked))
  | .sendLoop [] => some (s.goto .waitTest)
  | .sendLoop (j :: rest) =>
    if (s.subscriber j).chunkLoaded = s.container.count then some (s.goto (.selfLocked (j :: rest)))
    else if allocated then some ((s.pushTask j).goto (.sendLoop rest))
    else some (s.goto (.selfLocked (j :: rest)))
  | .selfLocked _ => none
  | .waitTest => some ((s.setLocked false).goto (if 0 < s.flag then .waiting else .idle))
  | .waiting => if s.locked then none else some ((s.setLocked true).goto .waitTest)
  | .crashed => none
  | .finishing none => none
  | .finishing (some j) => some (s.goto (.unsubscribing j (s.next j)))
  | .unsubscribing j tmp =>
    if s.locked then none else some (((s.setLocked true).unlink j).goto (.closing j tmp))
  | .closing j tmp =>
    if (s.subscriber j).locked then none
    else some (((s.close j).setLocked false).goto (.finishing tmp))

/-- What one step of a worker does to the subscriber of its task and to its position. -/
def work (s : Subscription) (sub : Subscriber) (sent : Option ℕ) :
    TaskPc → Option (Subscriber × TaskPc)
  | .queued =>
    if sub.closed then some (sub, .fault false)
    else if sub.locked then none
    else some ({ sub with locked := true }, .locked)
  | .locked =>
    match s.container.getChunk (toSize (toInt sub.chunkLoaded)) with
    | none => some (sub, .finishing false)
    | some current => some (sub, .loop current (toInt sub.chunkLoaded) (toInt s.container.count))
  | .loop current i last =>
    if i < last then some (sub, .sending current i last 0) else some (sub, .finishing false)
  | .sending current i last total =>
    match s.container.chunks[current]? with
    | none => some (sub, .fault true)
    | some chunk =>
      if total < chunk.bytes then
        match sent with
        | none => some ({ sub with torn := sub.torn || decide (0 < total) }, .finishing true)
        | some n =>
          if total + n ≤ chunk.bytes then
            some ({ sub with accepted := sub.accepted ++ (chunk.data.drop total).take n },
              .sending current i last (total + n))
          else none
      else
        some ({ sub with chunkLoaded := sub.chunkLoaded + 1 }, .loop (current + 1) (i + 1) last)
  | .finishing failed => if s.locked then none else some (sub, .unlocking failed)
  | .unlocking failed => some ({ sub with locked := false }, .done failed)
  | .done _ | .fault _ => none

/-- The value of `flag` after a step of a worker: `flag--` is the critical section at `end`. -/
def flagAfter (s : Subscription) : TaskPc → ℤ
  | .finishing _ => toChar (s.flag - 1)
  | _ => s.flag

/-- Writes back the step of the worker of task `k`. -/
def worked (s : Subscription) (k : ℕ) (task : Task) (sub : Subscriber) (pc : TaskPc) :
    Subscription :=
  { s with
    subscriber := Function.update s.subscriber task.subscriber sub
    tasks := s.tasks.set k { task with pc := pc }
    flag := s.flagAfter task.pc }

/-- One step of the worker of task `k`. -/
def workerStep (s : Subscription) (k : ℕ) (sent : Option ℕ) : Option Subscription :=
  match s.tasks[k]? with
  | none => none
  | some task =>
    match s.work (s.subscriber task.subscriber) sent task.pc with
    | none => none
    | some (sub, pc) => some (s.worked k task sub pc)

/-- The condition that every allocation and every `send` succeeds. -/
def allSucceed (_ : Subscription) : SubscriptionEvent → Bool
  | .subscribe _ allocated | .session allocated => allocated
  | .worker _ sent => sent.isSome

/-- One step of the whole system. -/
def step (s : Subscription) : SubscriptionEvent → Option Subscription
  | .subscribe fd allocated => if s.locked then none else some (s.subscribe fd allocated)
  | .session allocated => s.sessionStep allocated
  | .worker k sent => s.workerStep k sent

end Subscription

end OsLabs.Proxy
