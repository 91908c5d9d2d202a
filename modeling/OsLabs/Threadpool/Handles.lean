import Mathlib.Data.List.Range
import Mathlib.Data.Nat.Notation
import Mathlib.Logic.Function.Basic
import Mathlib.Tactic.SplitIfs

/-!
# The handles of the workers

`init_threadpool` of `lab3/src/threadpool/threadpool.c` allocates an array for as many handles as
its argument says, but its loop creates `MAX_THREADS` workers, and the loop of `destroy_threadpool`
joins as many.  `init_context` starts one pool with `HANDLER_THREADS` and one with `UPLOAD_THREADS`.

What is found behind `pool->threads` is a function of the index; beyond the end of the array it is
not the memory of the pool.  Of a failed `pthread_create` nothing is known but that it stores no
handle.
-/

namespace OsLabs.Threadpool

/-- `MAX_THREADS`. -/
def maxThreads : ℕ := 10

/-- `UPLOAD_THREADS`. -/
def uploadThreads : ℕ := 5

/-- `HANDLER_THREADS`. -/
def handlerThreads : ℕ := 10

variable {H : Type}

/-- The part of `threadpool_t` that holds the handles.  `stored` and `created` are not in the
source: they record where handles were stored and which workers exist. -/
structure HandlePool (H : Type) where
  /-- How many handles the array has room for. -/
  size : ℕ
  /-- What is found at `pool->threads[i]`, if anything was stored there. -/
  threads : ℕ → Option H
  /-- The indices at which a handle was stored. -/
  stored : List ℕ
  /-- The handles of the workers that were created. -/
  created : List H

/-- What the allocators and `pthread_create` answer to `init_threadpool`. -/
structure PoolAnswers (H : Type) where
  /-- `malloc(sizeof(threadpool_t))` succeeds. -/
  pool : Bool
  /-- `malloc(sizeof(pthread_t) * threads)` succeeds. -/
  threads : Bool
  /-- The handle of the worker that is created in each round, if it is. -/
  create : ℕ → Option H

/-- `pthread_create(&pool->threads[i], NULL, worker, pool)`. -/
def HandlePool.pthreadCreate (pool : HandlePool H) (create : ℕ → Option H) (i : ℕ) :
    HandlePool H :=
  match create i with
  | some handle =>
    { pool with
      threads := Function.update pool.threads i (some handle)
      stored := pool.stored ++ [i]
      created := pool.created ++ [handle] }
  | none => pool

/-- `init_threadpool`. -/
def initThreadpool (threads : ℕ) (answers : PoolAnswers H) : Option (HandlePool H) :=
  if answers.pool && answers.threads then
    some ((List.range maxThreads).foldl (fun pool i => pool.pthreadCreate answers.create i)
      ⟨threads, fun _ => none, [], []⟩)
  else none

/-- What the loop of `destroy_threadpool` gives to `pthread_join`. -/
def HandlePool.joined (pool : HandlePool H) : List (Option H) :=
  (List.range maxThreads).map pool.threads

/-- `init_context`, as far as its two pools go: the handler pool and the upload pool. -/
def initContext (uploadThreads handlerThreads : ℕ) (handler upload : PoolAnswers H) :
    Option (HandlePool H × HandlePool H) :=
  (initThreadpool handlerThreads handler).bind fun handlerPool =>
    (initThreadpool uploadThreads upload).map fun uploadPool => (handlerPool, uploadPool)

/-- Handles were stored in the array only, and exactly the created workers are joined. -/
def HandlePool.Sound (pool : HandlePool H) : Prop :=
  (∀ i ∈ pool.stored, i < pool.size) ∧ pool.joined = pool.created.map some

/-- The array has room for a handle of every round, and every round creates a worker. -/
def EnoughRoom (threads : ℕ) (create : ℕ → Option H) : Prop :=
  maxThreads ≤ threads ∧ ∀ i < maxThreads, (create i).isSome = true

variable {threads : ℕ} {answers : PoolAnswers H} {create : ℕ → Option H} {pool : HandlePool H}

/-- What the first `n` rounds of the loop leave. -/
structure HandlePool.After (pool : HandlePool H) (threads : ℕ) (create : ℕ → Option H) (n : ℕ) :
    Prop where
  /-- The array. -/
  size : pool.size = threads
  /-- The rounds that have created a worker. -/
  stored : pool.stored = (List.range n).filter fun i => (create i).isSome
  /-- The workers. -/
  created : pool.created = (List.range n).filterMap create
  /-- What is found at each index. -/
  threads : ∀ i, pool.threads i = if i < n then create i else none

/-- One more round. -/
lemma HandlePool.After.succ {n : ℕ} (h : pool.After threads create n) :
    (pool.pthreadCreate create n).After threads create (n + 1) := by
  have hlast : ∀ i, i < n + 1 ↔ i = n ∨ i < n := fun i => by omega
  rcases Option.eq_none_or_eq_some (create n) with hnone | ⟨handle, hsome⟩
  · have hround : pool.pthreadCreate create n = pool := by
      simp [HandlePool.pthreadCreate, hnone]
    rw [hround]
    refine ⟨h.size, ?_, ?_, fun i => ?_⟩
    · simp [h.stored, List.range_succ, hnone]
    · simp [h.created, List.range_succ, hnone]
    · rw [h.threads]
      by_cases hi : i = n
      · simp [hi, hnone]
      · simp [hlast, hi]
  · have hround : pool.pthreadCreate create n =
        { pool with
          threads := Function.update pool.threads n (some handle)
          stored := pool.stored ++ [n]
          created := pool.created ++ [handle] } := by
      simp [HandlePool.pthreadCreate, hsome]
    rw [hround]
    refine ⟨h.size, ?_, ?_, fun i => ?_⟩
    · simp [h.stored, List.range_succ, hsome]
    · simp [h.created, List.range_succ, hsome]
    · by_cases hi : i = n
      · simp [hi, hsome]
      · simp [h.threads, hlast, hi]

/-- The whole loop. -/
lemma after_foldl (threads : ℕ) (create : ℕ → Option H) (n : ℕ) :
    ((List.range n).foldl (fun pool i => HandlePool.pthreadCreate pool create i)
      ⟨threads, fun _ => none, [], []⟩).After threads create n := by
  induction n with
  | zero => exact ⟨rfl, rfl, rfl, fun i => rfl⟩
  | succ n ih =>
    rw [List.range_succ, List.foldl_append]
    exact ih.succ

/-- The pool that `init_threadpool` answers. -/
lemma initThreadpool_spec (h : initThreadpool threads answers = some pool) :
    pool.size = threads ∧
      pool.stored = (List.range maxThreads).filter (fun i => (answers.create i).isSome) ∧
      pool.created = (List.range maxThreads).filterMap answers.create ∧
      pool.joined = (List.range maxThreads).map answers.create := by
  rw [initThreadpool] at h
  split_ifs at h
  have hafter := after_foldl threads answers.create maxThreads
  obtain rfl := Option.some.inj h
  refine ⟨hafter.size, hafter.stored, hafter.created, List.map_congr_left fun i hi => ?_⟩
  rw [hafter.threads, if_pos (List.mem_range.mp hi)]

/-- A list is mapped to the answers of a partial function exactly when it has them all. -/
lemma map_eq_map_some_iff (f : ℕ → Option H) (l : List ℕ) :
    l.map f = (l.filterMap f).map some ↔ ∀ i ∈ l, (f i).isSome = true := by
  constructor
  · intro h i hi
    have hmem : f i ∈ (l.filterMap f).map some := h ▸ List.mem_map_of_mem hi
    obtain ⟨handle, -, heq⟩ := List.mem_map.mp hmem
    rw [← heq, Option.isSome_some]
  · intro h
    induction l with
    | nil => rfl
    | cons i l ih =>
      obtain ⟨handle, hsome⟩ := Option.isSome_iff_exists.mp (h i List.mem_cons_self)
      rw [List.map_cons, List.filterMap_cons_some hsome, List.map_cons, hsome,
        ih fun j hj => h j (List.mem_cons_of_mem i hj)]

/-- A pool that was started is sound exactly when the array has enough room and every round creates
a worker. -/
lemma HandlePool.sound_iff (h : initThreadpool threads answers = some pool) :
    pool.Sound ↔ EnoughRoom threads answers.create := by
  obtain ⟨hsize, hstored, hcreated, hjoined⟩ := initThreadpool_spec h
  have hall : pool.joined = pool.created.map some ↔
      ∀ i < maxThreads, (answers.create i).isSome = true := by
    rw [hjoined, hcreated, map_eq_map_some_iff]
    simp only [List.mem_range]
  rw [HandlePool.Sound, EnoughRoom, hall, hsize, hstored]
  refine and_congr_left fun hsome => ?_
  simp only [List.mem_filter, List.mem_range]
  constructor
  · intro hlt
    -- the last round has stored a handle
    have hlast := hlt (maxThreads - 1) ⟨by decide, hsome _ (by decide)⟩
    have hmax : maxThreads = maxThreads - 1 + 1 := by decide
    omega
  · intro hle i hi
    exact Nat.lt_of_lt_of_le hi.1 hle

/-- For every thread count and all answers, `init_threadpool` stores handles only in its array and
`destroy_threadpool` joins exactly the workers that were created if and only if no pool was started,
or the count is at least `MAX_THREADS` and no `pthread_create` fails. -/
theorem initThreadpool_sound_iff (threads : ℕ) (answers : PoolAnswers H) :
    (∀ pool, initThreadpool threads answers = some pool → pool.Sound) ↔
      answers.pool = false ∨ answers.threads = false ∨ EnoughRoom threads answers.create := by
  rcases Option.eq_none_or_eq_some (initThreadpool threads answers) with hnone | ⟨pool, hpool⟩
  · have hfail : answers.pool = false ∨ answers.threads = false := by
      rw [initThreadpool] at hnone
      split_ifs at hnone with hboth
      rwa [Bool.and_eq_true, not_and_or, Bool.not_eq_true, Bool.not_eq_true] at hboth
    refine iff_of_true (fun pool hpool => ?_) (hfail.imp_right Or.inl)
    rw [hnone] at hpool
    cases hpool
  · have hboth : answers.pool = true ∧ answers.threads = true := by
      have hsome := hpool
      rw [initThreadpool] at hsome
      split_ifs at hsome with hboth
      exact Bool.and_eq_true_iff.mp hboth
    simp only [hpool, Option.some.injEq, forall_eq', hboth.1, hboth.2, Bool.true_eq_false,
      false_or]
    exact HandlePool.sound_iff hpool

/-- When the program starts its pools and everything succeeds, five handles are stored behind the
end of the array of the upload pool. -/
theorem initContext_overruns :
    ∃ handlerPool uploadPool : HandlePool ℕ,
      initContext uploadThreads handlerThreads ⟨true, true, some⟩ ⟨true, true, some⟩ =
        some (handlerPool, uploadPool) ∧
      initThreadpool uploadThreads ⟨true, true, some⟩ = some uploadPool ∧
      uploadPool.size = 5 ∧ uploadPool.stored = [0, 1, 2, 3, 4, 5, 6, 7, 8, 9] ∧
      ¬ uploadPool.Sound := by
  have hpool : initThreadpool uploadThreads ⟨true, true, some⟩ = some _ := rfl
  refine ⟨_, _, rfl, hpool, rfl, rfl, fun hsound => ?_⟩
  have henough := (HandlePool.sound_iff hpool).mp hsound
  exact absurd henough.1 (by decide)

end OsLabs.Threadpool
