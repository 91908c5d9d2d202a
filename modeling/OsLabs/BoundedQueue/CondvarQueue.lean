import OsLabs.BoundedQueue.NodeList
import OsLabs.Foundation.CondVar
import OsLabs.Foundation.Mutex
import OsLabs.Foundation.Transition

/-!
# The queue with two condition variables

`queue_condvar/queue.c` with any number of writers, which call `queue_add` again and again, and
readers, which call `queue_get`.  Each acquisition and release of the mutex, each test of a waiting
loop, the work on the list and each `pthread_cond_signal` is a step of its own.  A thread that waits
is asleep until a wake-up is delivered to it, by a signal or for no reason, and then has to take the
mutex again, where others may come first.

`added` and `taken` are not in the source: they record the values in the order of the list updates.
`returned` records the results of the calls.
-/

namespace OsLabs.BoundedQueue

open Transition

/-- Where a thread is in `queue_add` or `queue_get`. -/
inductive CvPhase
  /-- Outside both functions. -/
  | outside
  /-- At `pthread_mutex_lock` of `queue_add`. -/
  | addLock (val : ℤ)
  /-- The mutex is held, at the test of the loop. -/
  | addTest (val : ℤ)
  /-- In `pthread_cond_wait(&q->condvar_writer)`, and no wake-up was delivered. -/
  | addAsleep (val : ℤ)
  /-- Woken; the mutex is to be taken again. -/
  | addWoken (val : ℤ)
  /-- Behind the loop, the mutex is held. -/
  | addBody (val : ℤ)
  /-- At `pthread_cond_signal(&q->condvar_reader)`, the mutex is held. -/
  | addSignal
  /-- At `pthread_mutex_lock` of `queue_get`. -/
  | getLock
  /-- The mutex is held, at the test of the loop. -/
  | getTest
  /-- In `pthread_cond_wait(&q->condvar_reader)`, and no wake-up was delivered. -/
  | getAsleep
  /-- Woken; the mutex is to be taken again. -/
  | getWoken
  /-- Behind the loop, the mutex is held. -/
  | getBody
  /-- At `pthread_cond_signal(&q->condvar_writer)`, the mutex is held. -/
  | getSignal
  /-- At `pthread_mutex_unlock`, with the result. -/
  | unlocking (result : ℤ)
  deriving DecidableEq, Repr

namespace CvPhase

/-- The thread holds the mutex. -/
def holds : CvPhase → Bool
  | .addTest _ | .addBody _ | .addSignal | .getTest | .getBody | .getSignal | .unlocking _ => true
  | _ => false

/-- The thread sleeps on `condvar_reader`. -/
def readerAsleep : CvPhase → Bool
  | .getAsleep => true
  | _ => false

/-- The thread sleeps on `condvar_writer`. -/
def writerAsleep : CvPhase → Bool
  | .addAsleep _ => true
  | _ => false

/-- The thread was woken from `condvar_reader` and has not taken the mutex again. -/
def readerWoken : CvPhase → Bool
  | .getWoken => true
  | _ => false

/-- The thread was woken from `condvar_writer` and has not taken the mutex again. -/
def writerWoken : CvPhase → Bool
  | .addWoken _ => true
  | _ => false

/-- What a wake-up does to a thread. -/
def wake : CvPhase → CvPhase
  | .addAsleep val => .addWoken val
  | .getAsleep => .getWoken
  | phase => phase

/-- The function that the phase belongs to, where it is one of them. -/
def role : CvPhase → Option Role
  | .outside | .unlocking _ => none
  | .addLock _ | .addTest _ | .addAsleep _ | .addWoken _ | .addBody _ | .addSignal => some .producer
  | .getLock | .getTest | .getAsleep | .getWoken | .getBody | .getSignal => some .consumer

end CvPhase

/-- The shared state and the positions of all threads. -/
structure CvQueue (T : Type) where
  list : NodeList
  maxCount : ℤ
  /-- The thread that holds `q->mutex`. -/
  lock : Option T
  phase : T → CvPhase
  failure : Option Failure
  /-- The values of all list updates of `queue_add` and of `queue_get`. -/
  added : List ℤ
  taken : List ℤ
  /-- The results of all calls that have returned. -/
  returned : List ℤ

/-- What the code does not decide: the arguments of the calls, the answers of `malloc`, which thread
a signal wakes, and when a thread is woken for no reason. -/
inductive CvChoice (T : Type)
  | call (val : ℤ)
  | malloc (answer : Option ℕ)
  | signal (target : Option T)
  | wakeUp
  | go
  deriving DecidableEq, Repr

namespace CvQueue

variable {T : Type} [DecidableEq T] [Fintype T]

/-- The state after `queue_init`. -/
def init (maxCount : ℤ) : CvQueue T :=
  ⟨NodeList.initial, maxCount, none, fun _ => .outside, none, [], [], []⟩

/-- The thread is at another place. -/
def goTo (s : CvQueue T) (t : T) (phase : CvPhase) : CvQueue T :=
  { s with phase := Function.update s.phase t phase }

/-- `pthread_mutex_lock`, also at the end of `pthread_cond_wait`; `none` while the mutex is held. -/
def lockMutex (s : CvQueue T) (t : T) (phase : CvPhase) : Option (CvQueue T) :=
  if s.lock.isSome then none else some { s.goTo t phase with lock := some t }

/-- `pthread_cond_wait` up to the sleep. -/
def condWait (s : CvQueue T) (t : T) (phase : CvPhase) : CvQueue T :=
  { s.goTo t phase with lock := none }

/-- `pthread_cond_signal` to the threads in `asleep`, of which `target` is woken. -/
def condSignal (s : CvQueue T) (t : T) (asleep : CvPhase → Bool) (target : Option T) :
    Option (CvQueue T) :=
  if maySignal (fun u => asleep (s.phase u)) target then
    some { s with phase := deliver CvPhase.wake (Function.update s.phase t (.unlocking 1)) target }
  else none

/-- `pthread_mutex_unlock` and the return. -/
def unlockMutex (s : CvQueue T) (t : T) (result : ℤ) : CvQueue T :=
  { s.goTo t .outside with lock := none, returned := s.returned ++ [result] }

/-- The next step of `queue_add` in a thread; `none` while the thread is blocked. -/
def queueAdd (s : CvQueue T) (t : T) (choice : CvChoice T) : Option (CvQueue T) :=
  match s.phase t, choice with
  | .outside, .call val => some (s.goTo t (.addLock val))
  | .addLock val, .go => s.lockMutex t (.addTest val)
  | .addTest val, .go =>
    if s.list.count = s.maxCount then some (s.condWait t (.addAsleep val))
    else some (s.goTo t (.addBody val))
  | .addAsleep val, .wakeUp => some (s.goTo t (.addWoken val))
  | .addWoken val, .go => s.lockMutex t (.addTest val)
  | .addBody val, .malloc answer =>
    if ¬ s.list.count ≤ s.maxCount then some { s with failure := some .assertion }
    else if s.list.count = s.maxCount then some (s.goTo t (.unlocking 0))
    else
      match answer with
      | none => some { s with failure := some .outOfMemory }
      | some new => (s.list.allocate new val).map fun list =>
        match list.link new with
        | none => { s with failure := some .badPointer }
        | some list => { s.goTo t .addSignal with list := list, added := s.added ++ [val] }
  | .addSignal, .signal target => s.condSignal t CvPhase.readerAsleep target
  | .unlocking result, .go => some (s.unlockMutex t result)
  | _, _ => none

/-- The next step of `queue_get` in a thread; `none` while the thread is blocked. -/
def queueGet (s : CvQueue T) (t : T) (choice : CvChoice T) : Option (CvQueue T) :=
  match s.phase t, choice with
  | .outside, .call _ => some (s.goTo t .getLock)
  | .getLock, .go => s.lockMutex t .getTest
  | .getTest, .go =>
    if s.list.count = 0 then some (s.condWait t .getAsleep)
    else some (s.goTo t .getBody)
  | .getAsleep, .wakeUp => some (s.goTo t .getWoken)
  | .getWoken, .go => s.lockMutex t .getTest
  | .getBody, .go =>
    if ¬ 0 ≤ s.list.count then some { s with failure := some .assertion }
    else if s.list.count = 0 then some (s.goTo t (.unlocking 0))
    else
      match s.list.takeFirst with
      | none => some { s with failure := some .badPointer }
      | some (val, list) =>
        some { s.goTo t .getSignal with list := list, taken := s.taken ++ [val] }
  | .getSignal, .signal target => s.condSignal t CvPhase.writerAsleep target
  | .unlocking result, .go => some (s.unlockMutex t result)
  | _, _ => none

/-- A thread makes a step, while the program runs. -/
def step (role : T → Role) (s : CvQueue T) (e : T × CvChoice T) : Option (CvQueue T) :=
  if s.failure.isSome then none
  else
    match role e.1 with
    | .producer => s.queueAdd e.1 e.2
    | .consumer => s.queueGet e.1 e.2

end CvQueue

/-! ## The invariant -/

namespace CvPhase

/-- The thread is going to look for an element, or to call somebody who does. -/
def readerPending : CvPhase → Bool
  | .getWoken | .getTest | .getBody | .addSignal => true
  | _ => false

/-- The thread is going to look for a free place, or to call somebody who does. -/
def writerPending : CvPhase → Bool
  | .addWoken _ | .addTest _ | .addBody _ | .getSignal => true
  | _ => false

/-- Going from one place to another puts the thread not to sleep and gives up no intention. -/
def goesOn (old new : CvPhase) : Bool :=
  (!new.readerAsleep || old.readerAsleep) && (!new.writerAsleep || old.writerAsleep) &&
    (!old.readerPending || new.readerPending) && (!old.writerPending || new.writerPending)

/-- Who is going to look for an element without the mutex was woken. -/
lemma readerWoken_of_pending (p : CvPhase) (h : p.readerPending = true) (hfree : p.holds = false) :
    p.readerWoken = true := by
  cases p <;> first | rfl | exact Bool.noConfusion h | exact Bool.noConfusion hfree

/-- Who is going to look for a free place without the mutex was woken. -/
lemma writerWoken_of_pending (p : CvPhase) (h : p.writerPending = true) (hfree : p.holds = false) :
    p.writerWoken = true := by
  cases p <;> first | rfl | exact Bool.noConfusion h | exact Bool.noConfusion hfree

/-- A sleeping reader is nothing else. -/
lemma of_readerAsleep (p : CvPhase) (h : p.readerAsleep = true) : p = .getAsleep := by
  cases p <;> first | rfl | exact Bool.noConfusion h

/-- A sleeping writer is nothing else. -/
lemma of_writerAsleep (p : CvPhase) (h : p.writerAsleep = true) : ∃ val, p = .addAsleep val := by
  cases p <;> first | exact ⟨_, rfl⟩ | exact Bool.noConfusion h

/-- For the writers it makes no difference that a reader is woken. -/
lemma wake_reader_writers (p : CvPhase) (h : p.readerAsleep = true) :
    p.wake.writerAsleep = p.writerAsleep ∧ p.wake.writerPending = p.writerPending := by
  cases p <;> first | exact ⟨rfl, rfl⟩ | cases h

/-- For the readers it makes no difference that a writer is woken. -/
lemma wake_writer_readers (p : CvPhase) (h : p.writerAsleep = true) :
    p.wake.readerAsleep = p.readerAsleep ∧ p.wake.readerPending = p.readerPending := by
  cases p <;> first | exact ⟨rfl, rfl⟩ | cases h

/-- What a wake-up does to a sleeping reader. -/
lemma wake_reader (p : CvPhase) (h : p.readerAsleep = true) :
    p.wake.readerAsleep = false ∧ p.wake.readerPending = true ∧ p.readerPending = false := by
  cases p <;> first | exact ⟨rfl, rfl, rfl⟩ | cases h

/-- What a wake-up does to a sleeping writer. -/
lemma wake_writer (p : CvPhase) (h : p.writerAsleep = true) :
    p.wake.writerAsleep = false ∧ p.wake.writerPending = true ∧ p.writerPending = false := by
  cases p <;> first | exact ⟨rfl, rfl, rfl⟩ | cases h

end CvPhase

namespace CvQueue

variable {T : Type} [DecidableEq T] [Fintype T] {role : T → Role} {maxCount : ℤ}
  {s s' : CvQueue T} {l l' : List (ℕ × ℤ)} {t : T} {p : CvPhase}

/-- No wake-up is lost: while a reader sleeps there are at most as many elements as threads that are
going to look for one or to signal one, and in the same way for the writers and the free places. -/
structure NoLostWakeUp (maxCount : ℤ) (phase : T → CvPhase) (length : ℕ) : Prop where
  readers : WakeUpLaw (census phase CvPhase.readerAsleep) length
    (census phase CvPhase.readerPending)
  writers : WakeUpLaw (census phase CvPhase.writerAsleep) (maxCount - length)
    (census phase CvPhase.writerPending)

/-- What the place of a thread says about the list. -/
def Fits (maxCount : ℤ) (length : ℕ) : CvPhase → Prop
  | .addBody _ => (length : ℤ) ≠ maxCount
  | .getBody => length ≠ 0
  | .unlocking result => result = 1
  | _ => True

/-- The invariant, for the list in memory. -/
structure Invariant (role : T → Role) (maxCount : ℤ) (s : CvQueue T) (l : List (ℕ × ℤ)) :
    Prop where
  represents : s.list.Represents l
  fifo : s.added = s.taken ++ l.map Prod.snd
  bound : (l.length : ℤ) ≤ maxCount
  noLostWakeUp : NoLostWakeUp maxCount s.phase l.length
  guarded : Guarded s.phase CvPhase.holds s.lock
  fits : ∀ t, Fits maxCount l.length (s.phase t)
  role : ∀ t r, (s.phase t).role = some r → role t = r
  capacity : s.maxCount = maxCount
  failure : s.failure = none ∨ s.failure = some .outOfMemory
  returned : ∀ r ∈ s.returned, r = 1

/-! ## Steps -/

namespace NoLostWakeUp

variable {f : T → CvPhase} {n : ℕ}

/-- A step with which nobody goes to sleep. -/
lemma goesOn (h : NoLostWakeUp maxCount f n) (hgo : (f t).goesOn p = true) :
    NoLostWakeUp maxCount (Function.update f t p) n := by
  unfold CvPhase.goesOn at hgo
  constructor
  · refine h.readers.update ?_ ?_ <;> revert hgo <;> cases p.readerAsleep <;>
      cases (f t).readerAsleep <;> cases p.readerPending <;> cases (f t).readerPending <;> simp
  · refine h.writers.update ?_ ?_ <;> revert hgo <;> cases p.writerAsleep <;>
      cases (f t).writerAsleep <;> cases p.writerPending <;> cases (f t).writerPending <;> simp

/-- A writer sleeps when there is no free place. -/
lemma writer_sleeps {val : ℤ} (h : NoLostWakeUp maxCount f n) (hfull : (n : ℤ) = maxCount)
    (ht : f t = .addTest val) : NoLostWakeUp maxCount (Function.update f t (.addAsleep val)) n where
  readers := h.readers.update (by rw [ht]; exact Nat.le_refl 0) (by rw [ht]; exact Int.le_refl _)
  writers := .of_le (by omega)

/-- A reader sleeps when there is no element. -/
lemma reader_sleeps (h : NoLostWakeUp maxCount f n) (hempty : n = 0) (ht : f t = .getTest) :
    NoLostWakeUp maxCount (Function.update f t .getAsleep) n where
  readers := .of_le (by omega)
  writers := h.writers.update (by rw [ht]; exact Nat.le_refl 0) (by rw [ht]; exact Int.le_refl _)

/-- A writer adds an element and is going to signal it. -/
lemma adds {val : ℤ} (h : NoLostWakeUp maxCount f n) (ht : f t = .addBody val) :
    NoLostWakeUp maxCount (Function.update f t .addSignal) (n + 1) := by
  constructor
  · refine h.readers.update (by rw [ht]; exact Nat.le_refl 0) ?_
    rw [ht]
    show ((n + 1 : ℕ) : ℤ) + 0 ≤ n + 1
    omega
  · refine h.writers.update (by rw [ht]; exact Nat.le_refl 0) ?_
    rw [ht]
    show maxCount - ((n + 1 : ℕ) : ℤ) + 1 ≤ maxCount - n + 0
    omega

/-- A reader takes an element and is going to signal the free place. -/
lemma takes (h : NoLostWakeUp maxCount f (n + 1)) (ht : f t = .getBody) :
    NoLostWakeUp maxCount (Function.update f t .getSignal) n := by
  constructor
  · refine h.readers.update (by rw [ht]; exact Nat.le_refl 0) ?_
    rw [ht]
    show (n : ℤ) + 1 ≤ ((n + 1 : ℕ) : ℤ) + 0
    omega
  · refine h.writers.update (by rw [ht]; exact Nat.le_refl 0) ?_
    rw [ht]
    show maxCount - (n : ℤ) + 0 ≤ maxCount - ((n + 1 : ℕ) : ℤ) + 1
    omega

/-- A writer has signalled its element. -/
lemma signals_reader (h : NoLostWakeUp maxCount f n) (ht : f t = .addSignal) {target : Option T}
    (htarget : maySignal (fun u => (f u).readerAsleep) target) :
    NoLostWakeUp maxCount (deliver CvPhase.wake (Function.update f t (.unlocking 1)) target) n where
  readers := h.readers.signal htarget (by rw [ht]; rfl) rfl CvPhase.wake_reader
  writers := by
    refine (h.writers.update (by rw [ht]; exact Nat.le_refl 0)
      (by rw [ht]; exact Int.le_refl _)).bystander ?_
    rintro u rfl
    have hne : u ≠ t := fun heq => Bool.noConfusion ((congrArg _ (heq ▸ ht)).symm.trans htarget)
    rw [Function.update_of_ne hne]
    exact (f u).wake_reader_writers htarget

/-- A reader has signalled its free place. -/
lemma signals_writer (h : NoLostWakeUp maxCount f n) (ht : f t = .getSignal) {target : Option T}
    (htarget : maySignal (fun u => (f u).writerAsleep) target) :
    NoLostWakeUp maxCount (deliver CvPhase.wake (Function.update f t (.unlocking 1)) target) n where
  readers := by
    refine (h.readers.update (by rw [ht]; exact Nat.le_refl 0)
      (by rw [ht]; exact Int.le_refl _)).bystander ?_
    rintro u rfl
    have hne : u ≠ t := fun heq => Bool.noConfusion ((congrArg _ (heq ▸ ht)).symm.trans htarget)
    rw [Function.update_of_ne hne]
    exact (f u).wake_writer_readers htarget
  writers := h.writers.signal htarget (by rw [ht]; rfl) rfl CvPhase.wake_writer

end NoLostWakeUp

/-- What a place says about the list is a matter of the mutex. -/
lemma fits_of_not_holds {n : ℕ} (h : p.holds = false) : Fits maxCount n p := by
  cases p <;> first | exact trivial | cases h

omit [Fintype T] in
/-- Everybody's place fits after a step of a thread whose own place fits, where the list is the same
or the thread holds the mutex. -/
lemma fits_update {n n' : ℕ} (h : ∀ u, Fits maxCount n (s.phase u))
    (hother : n' = n ∨ ∀ u, u ≠ t → (s.phase u).holds = false) (hp : Fits maxCount n' p) :
    ∀ u, Fits maxCount n' (Function.update s.phase t p u) := by
  refine (Function.forall_update_iff s.phase fun _ q => Fits maxCount n' q).mpr
    ⟨hp, fun u hu => ?_⟩
  rcases hother with rfl | hother
  · exact h u
  · exact fits_of_not_holds (hother u hu)

/-- A wake-up changes neither who holds the mutex nor what a place says. -/
lemma wake_same (maxCount : ℤ) (p : CvPhase) : p.wake.holds = p.holds ∧ p.wake.role = p.role ∧
    ∀ n, Fits maxCount n p → Fits maxCount n p.wake := by
  cases p <;> exact ⟨rfl, rfl, fun _ h => h⟩

namespace Invariant

omit [DecidableEq T] in
/-- While a thread holds the mutex, no other does. -/
lemma not_holds (h : Invariant role maxCount s l) (ht : (s.phase t).holds = true) (u : T)
    (hu : u ≠ t) : (s.phase u).holds = false :=
  Bool.eq_false_iff.mpr fun hholds => hu (h.guarded.unique hholds ht)

/-- A step that does not touch the list. -/
lemma goTo (h : Invariant role maxCount s l) (p : CvPhase)
    (hrole : ∀ r, p.role = some r → role t = r)
    (hfits : Fits maxCount l.length p) {lock : Option T} {returned : List ℤ}
    (hguard : Guarded (Function.update s.phase t p) CvPhase.holds lock)
    (hlaw : NoLostWakeUp maxCount (Function.update s.phase t p) l.length)
    (hreturned : ∀ r ∈ returned, r = 1) :
    Invariant role maxCount { s.goTo t p with lock := lock, returned := returned } l :=
  ⟨h.represents, h.fifo, h.bound, hlaw, hguard, fits_update h.fits (Or.inl rfl) hfits,
    role_update h.role hrole, h.capacity, h.failure, hreturned⟩

/-- A step that leaves list and mutex alone. -/
lemma goesOn (h : Invariant role maxCount s l) (p : CvPhase)
    (hrole : ∀ r, p.role = some r → role t = r) (hfits : Fits maxCount l.length p)
    (hholds : p.holds = (s.phase t).holds) (hgo : (s.phase t).goesOn p = true) :
    Invariant role maxCount (s.goTo t p) l :=
  h.goTo p hrole hfits (h.guarded.keep hholds) (h.noLostWakeUp.goesOn hgo) h.returned

/-- A thread takes the mutex. -/
lemma lockMutex (h : Invariant role maxCount s l) (p : CvPhase)
    (hrole : ∀ r, p.role = some r → role t = r) (hfits : Fits maxCount l.length p)
    (hholds : p.holds = true) (hgo : (s.phase t).goesOn p = true)
    (hst : s.lockMutex t p = some s') : Invariant role maxCount s' l := by
  unfold CvQueue.lockMutex at hst
  split_ifs at hst with hlock
  obtain rfl := Option.some.inj hst
  have hfree : s.lock = none := by simpa using hlock
  exact h.goTo p hrole hfits ((hfree ▸ h.guarded).acquire hholds) (h.noLostWakeUp.goesOn hgo)
    h.returned

/-- A thread returns from its function. -/
lemma unlockMutex (h : Invariant role maxCount s l) {result : ℤ}
    (ht : s.phase t = .unlocking result) : Invariant role maxCount (s.unlockMutex t result) l := by
  refine h.goTo .outside (by rintro r ⟨⟩) trivial (h.guarded.release (by rw [ht]; rfl) rfl)
    (h.noLostWakeUp.goesOn (by rw [ht]; rfl)) fun r hr => ?_
  rcases List.mem_append.mp hr with hr | hr
  · exact h.returned r hr
  · have hone : result = 1 := by simpa [ht, Fits] using h.fits t
    exact (List.mem_singleton.mp hr).trans hone

/-- A thread has signalled. -/
lemma condSignal (h : Invariant role maxCount s l) {asleep : CvPhase → Bool} {target : Option T}
    (hholds : (s.phase t).holds = true)
    (hlaw : maySignal (fun u => asleep (s.phase u)) target → NoLostWakeUp maxCount
      (deliver CvPhase.wake (Function.update s.phase t (.unlocking 1)) target) l.length)
    (hst : s.condSignal t asleep target = some s') : Invariant role maxCount s' l := by
  unfold CvQueue.condSignal at hst
  split_ifs at hst with htarget
  obtain rfl := Option.some.inj hst
  have hguard := h.guarded.keep (t := t) (a := CvPhase.unlocking 1) hholds.symm
  cases target with
  | none => exact h.goTo (.unlocking 1) (by rintro r ⟨⟩) rfl hguard (hlaw htarget) h.returned
  | some u =>
    have hsame := wake_same maxCount (Function.update s.phase t (.unlocking 1) u)
    have hfits := fits_update (t := t) (p := .unlocking 1) h.fits (Or.inl rfl) rfl
    have hrole := role_update (t := t) (p := .unlocking 1) h.role (by rintro r ⟨⟩)
    exact ⟨h.represents, h.fifo, h.bound, hlaw htarget, hguard.keep hsame.1,
      fits_update (s := s.goTo t (.unlocking 1)) hfits (Or.inl rfl) (hsame.2.2 _ (hfits u)),
      role_update hrole fun r hr => hrole u r (hsame.2.1 ▸ hr),
      h.capacity, h.failure, h.returned⟩

/-- A writer adds its value. -/
lemma link (h : Invariant role maxCount s l) {val : ℤ} {new : ℕ} {list : NodeList}
    (ht : s.phase t = .addBody val) (hrole : role t = .producer)
    (hal : s.list.allocate new val = some list) :
    ∃ list', list.link new = some list' ∧
      Invariant role maxCount
        { s.goTo t .addSignal with list := list', added := s.added ++ [val] }
        (l ++ [(new, val)]) := by
  obtain ⟨hlist, hfree, hcell⟩ := h.represents.allocate hal
  have hnew : list.nodes.cell new = some ⟨val, none⟩ := by rw [hcell, Function.update_self]
  obtain ⟨list', hlink, hlist', -⟩ := hlist.link hnew (h.represents.path.notMem_of_cell hfree)
  have hlen : (l ++ [(new, val)]).length = l.length + 1 := List.length_append
  have hholds : (s.phase t).holds = true := by rw [ht]; rfl
  refine ⟨list', hlink, hlist', ?_, ?_, ?_, h.guarded.keep hholds.symm,
    fits_update h.fits (Or.inr (h.not_holds hholds)) trivial, role_update h.role ?_, h.capacity,
    h.failure, h.returned⟩
  · show s.added ++ [val] = s.taken ++ (l ++ [(new, val)]).map Prod.snd
    rw [List.map_append, ← List.append_assoc, ← h.fifo]
    rfl
  · have hne : (l.length : ℤ) ≠ maxCount := by simpa [ht, Fits] using h.fits t
    have hle := h.bound
    omega
  · rw [hlen]
    exact h.noLostWakeUp.adds ht
  · rintro r ⟨⟩
    exact hrole

/-- A reader takes the first value. -/
lemma take {x : ℕ × ℤ} (h : Invariant role maxCount s (x :: l)) (ht : s.phase t = .getBody)
    (hrole : role t = .consumer) :
    ∃ list, s.list.takeFirst = some (x.2, list) ∧
      Invariant role maxCount
        { s.goTo t .getSignal with list := list, taken := s.taken ++ [x.2] } l := by
  obtain ⟨list, htake, hlist, -⟩ := h.represents.takeFirst
  have hholds : (s.phase t).holds = true := by rw [ht]; rfl
  refine ⟨list, htake, hlist, ?_, ?_, h.noLostWakeUp.takes ht, h.guarded.keep hholds.symm,
    fits_update h.fits (Or.inr (h.not_holds hholds)) trivial, role_update h.role ?_, h.capacity,
    h.failure, h.returned⟩
  · show s.added = s.taken ++ [x.2] ++ l.map Prod.snd
    rw [h.fifo, List.append_assoc]
    rfl
  · have hle := h.bound
    rw [List.length_cons] at hle
    omega
  · rintro r ⟨⟩
    exact hrole

omit [DecidableEq T] in
/-- A failed `malloc` ends the program. -/
lemma outOfMemory (h : Invariant role maxCount s l) :
    Invariant role maxCount { s with failure := some .outOfMemory } l :=
  ⟨h.represents, h.fifo, h.bound, h.noLostWakeUp, h.guarded, h.fits, h.role, h.capacity,
    Or.inr rfl, h.returned⟩

/-- Every step of `queue_add` keeps the invariant. -/
lemma queueAdd (h : Invariant role maxCount s l) (hrole : role t = .producer) {choice : CvChoice T}
    (hst : s.queueAdd t choice = some s') : ∃ l', Invariant role maxCount s' l' := by
  have hproducer : ∀ r, some Role.producer = some r → role t = r := by
    rintro r ⟨⟩
    exact hrole
  have hcount := h.represents.count
  have hcapacity := h.capacity
  unfold CvQueue.queueAdd at hst
  split at hst
  next val ht =>
    cases hst
    exact ⟨l, h.goesOn (.addLock val) hproducer trivial (by rw [ht]; rfl) (by rw [ht]; rfl)⟩
  next val ht =>
    exact ⟨l, h.lockMutex (.addTest val) hproducer trivial rfl (by rw [ht]; rfl) hst⟩
  next val ht =>
    split_ifs at hst with hfull
    · cases hst
      exact ⟨l, h.goTo (.addAsleep val) hproducer trivial
        (h.guarded.release (by rw [ht]; rfl) rfl)
        (h.noLostWakeUp.writer_sleeps (by omega) ht) h.returned⟩
    · cases hst
      exact ⟨l, h.goesOn (.addBody val) hproducer (by show (l.length : ℤ) ≠ maxCount; omega)
        (by rw [ht]; rfl) (by rw [ht]; rfl)⟩
  next val ht =>
    cases hst
    exact ⟨l, h.goesOn (.addWoken val) hproducer trivial (by rw [ht]; rfl) (by rw [ht]; rfl)⟩
  next val ht =>
    exact ⟨l, h.lockMutex (.addTest val) hproducer trivial rfl (by rw [ht]; rfl) hst⟩
  next val answer ht =>
    -- since the test of the loop nobody has changed the list
    have hne : (l.length : ℤ) ≠ maxCount := by simpa [ht, Fits] using h.fits t
    have hle := h.bound
    rw [if_neg (by omega), if_neg (by omega)] at hst
    cases answer with
    | none =>
      cases hst
      exact ⟨l, h.outOfMemory⟩
    | some new =>
      obtain ⟨list, hal, rfl⟩ := Option.map_eq_some_iff.mp hst
      obtain ⟨list', hlink, hinv⟩ := h.link ht hrole hal
      rw [hlink]
      exact ⟨_, hinv⟩
  next target ht =>
    exact ⟨l, h.condSignal (by rw [ht]; rfl)
      (fun htarget => h.noLostWakeUp.signals_reader ht htarget) hst⟩
  next result ht =>
    cases hst
    exact ⟨l, h.unlockMutex ht⟩
  next => cases hst

/-- Every step of `queue_get` keeps the invariant. -/
lemma queueGet (h : Invariant role maxCount s l) (hrole : role t = .consumer) {choice : CvChoice T}
    (hst : s.queueGet t choice = some s') : ∃ l', Invariant role maxCount s' l' := by
  have hconsumer : ∀ r, some Role.consumer = some r → role t = r := by
    rintro r ⟨⟩
    exact hrole
  have hcount := h.represents.count
  unfold CvQueue.queueGet at hst
  split at hst
  next ht =>
    cases hst
    exact ⟨l, h.goesOn .getLock hconsumer trivial (by rw [ht]; rfl) (by rw [ht]; rfl)⟩
  next ht => exact ⟨l, h.lockMutex .getTest hconsumer trivial rfl (by rw [ht]; rfl) hst⟩
  next ht =>
    split_ifs at hst with hempty
    · cases hst
      exact ⟨l, h.goTo .getAsleep hconsumer trivial (h.guarded.release (by rw [ht]; rfl) rfl)
        (h.noLostWakeUp.reader_sleeps (by omega) ht) h.returned⟩
    · cases hst
      exact ⟨l, h.goesOn .getBody hconsumer (by show l.length ≠ 0; omega) (by rw [ht]; rfl)
        (by rw [ht]; rfl)⟩
  next ht =>
    cases hst
    exact ⟨l, h.goesOn .getWoken hconsumer trivial (by rw [ht]; rfl) (by rw [ht]; rfl)⟩
  next ht => exact ⟨l, h.lockMutex .getTest hconsumer trivial rfl (by rw [ht]; rfl) hst⟩
  next ht =>
    have hne : l.length ≠ 0 := by simpa [ht, Fits] using h.fits t
    rw [if_neg (by omega), if_neg (by omega)] at hst
    obtain ⟨x, l, rfl⟩ := List.exists_cons_of_length_pos (Nat.pos_of_ne_zero hne)
    obtain ⟨list, htake, hinv⟩ := h.take ht hrole
    rw [htake] at hst
    cases hst
    exact ⟨_, hinv⟩
  next target ht =>
    exact ⟨l, h.condSignal (by rw [ht]; rfl)
      (fun htarget => h.noLostWakeUp.signals_writer ht htarget) hst⟩
  next result ht =>
    cases hst
    exact ⟨l, h.unlockMutex ht⟩
  next => cases hst

/-- Every step keeps the invariant. -/
lemma step (h : Invariant role maxCount s l) {e : T × CvChoice T}
    (hst : CvQueue.step role s e = some s') : ∃ l', Invariant role maxCount s' l' := by
  unfold CvQueue.step at hst
  split_ifs at hst with hf
  cases hrole : role e.1 with
  | producer => rw [hrole] at hst; exact h.queueAdd hrole hst
  | consumer => rw [hrole] at hst; exact h.queueGet hrole hst

omit [DecidableEq T] in
/-- The new queue. -/
lemma init (h : 0 ≤ maxCount) : Invariant role maxCount (CvQueue.init maxCount) [] where
  represents := NodeList.represents_initial
  fifo := rfl
  bound := h
  noLostWakeUp := ⟨.of_awake fun _ => rfl, .of_awake fun _ => rfl⟩
  guarded := fun _ => iff_of_false Bool.noConfusion (Option.some_ne_none _).symm
  fits := fun _ => trivial
  role := fun _ _ h => (Option.some_ne_none _ h.symm).elim
  capacity := rfl
  failure := Or.inl rfl
  returned := fun _ h => (List.not_mem_nil h).elim

/-- The invariant holds in every reachable state. -/
lemma of_reachable (hmax : 0 ≤ maxCount)
    (h : Reachable (CvQueue.step role) (CvQueue.init maxCount) s) :
    ∃ l, Invariant role maxCount s l :=
  h.invariant (I := fun s => ∃ l, Invariant role maxCount s l) ⟨[], init hmax⟩
    fun _ _ _ ⟨_, hl⟩ _ hst => hl.step hst

/-- While the mutex is free, whoever is going to look for an element was woken. -/
lemma readers_free (h : Invariant role maxCount s l) (hlock : s.lock = none)
    (ht : (s.phase t).readerAsleep = true) :
    (l.length : ℤ) ≤ census s.phase CvPhase.readerWoken := by
  have hpending : census s.phase CvPhase.readerPending ≤ census s.phase CvPhase.readerWoken :=
    census_le fun u hu =>
      (s.phase u).readerWoken_of_pending hu ((hlock ▸ h.guarded).not_holds u)
  have hlaw := h.noLostWakeUp.readers (census_pos ht)
  omega

/-- While the mutex is free, whoever is going to look for a free place was woken. -/
lemma writers_free (h : Invariant role maxCount s l) (hlock : s.lock = none)
    (ht : (s.phase t).writerAsleep = true) :
    maxCount - (l.length : ℤ) ≤ census s.phase CvPhase.writerWoken := by
  have hpending : census s.phase CvPhase.writerPending ≤ census s.phase CvPhase.writerWoken :=
    census_le fun u hu =>
      (s.phase u).writerWoken_of_pending hu ((hlock ▸ h.guarded).not_holds u)
  have hlaw := h.noLostWakeUp.writers (census_pos ht)
  omega

/-- With a writer and a reader somebody is awake. -/
lemma exists_awake (h : Invariant role maxCount s l) (hmax : 1 ≤ maxCount)
    (hwriter : ∃ t, role t = .producer) (hreader : ∃ t, role t = .consumer) :
    ∃ t, (s.phase t).readerAsleep = false ∧ (s.phase t).writerAsleep = false := by
  by_contra hnone
  have hall : ∀ t, s.phase t = .getAsleep ∨ ∃ val, s.phase t = .addAsleep val := by
    intro t
    by_contra ht
    rw [not_or] at ht
    refine hnone ⟨t, Bool.eq_false_iff.mpr fun hr => ?_, Bool.eq_false_iff.mpr fun hw => ?_⟩
    · exact ht.1 ((s.phase t).of_readerAsleep hr)
    · exact ht.2 ((s.phase t).of_writerAsleep hw)
  -- nobody has the mutex or was woken, so there is neither an element nor a free place
  have hzero : ∀ q : CvPhase → Bool, q .getAsleep = false → (∀ val, q (.addAsleep val) = false) →
      ∀ t, q (s.phase t) = false := by
    intro q hreader hwriter t
    rcases hall t with ht | ⟨val, ht⟩ <;> rw [ht]
    · exact hreader
    · exact hwriter val
  have hlock : s.lock = none := by
    by_contra hlock
    obtain ⟨t, ht⟩ := Option.ne_none_iff_exists'.mp hlock
    have hholds := (h.guarded t).mpr ht
    rw [hzero CvPhase.holds rfl (fun _ => rfl) t] at hholds
    exact Bool.noConfusion hholds
  have hreaders := census_eq_zero (hzero CvPhase.readerWoken rfl fun _ => rfl)
  have hwriters := census_eq_zero (hzero CvPhase.writerWoken rfl fun _ => rfl)
  obtain ⟨r, hr⟩ := hreader
  obtain ⟨w, hw⟩ := hwriter
  have hrasleep : s.phase r = .getAsleep := by
    rcases hall r with ht | ⟨val, ht⟩
    · exact ht
    · have hrole := h.role r .producer (by rw [ht]; rfl)
      rw [hr] at hrole
      cases hrole
  have hwasleep : ∃ val, s.phase w = .addAsleep val := by
    rcases hall w with ht | ht
    · have hrole := h.role w .consumer (by rw [ht]; rfl)
      rw [hw] at hrole
      cases hrole
    · exact ht
  obtain ⟨val, hwasleep⟩ := hwasleep
  have helements := h.readers_free hlock (t := r) (by rw [hrasleep]; rfl)
  have hplaces := h.writers_free hlock (t := w) (by rw [hwasleep]; rfl)
  omega

end Invariant

/-! ## Main result -/

/-- No wake-up is lost: while the mutex is free and a reader sleeps, there are at most as many
elements as readers that were woken and have not taken the mutex again, and so for the writers and
the free places.  Somebody is always awake, every call that returns answers `1`, no assertion fails
and no bad pointer is followed, and the values come out in the order in which they went in. -/
theorem condvarQueue_no_lost_wakeUp {maxCount : ℤ} (hmax : 1 ≤ maxCount) {role : T → Role}
    {s : CvQueue T} (h : Reachable (step role) (init maxCount) s) :
    (s.lock = none →
      ((∃ t, s.phase t = .getAsleep) → s.list.count ≤ census s.phase CvPhase.readerWoken) ∧
      ((∃ t val, s.phase t = .addAsleep val) →
        maxCount - s.list.count ≤ census s.phase CvPhase.writerWoken)) ∧
    ((∃ t, role t = .producer) → (∃ t, role t = .consumer) →
      ∃ t, (s.phase t).readerAsleep = false ∧ (s.phase t).writerAsleep = false) ∧
    (∀ r ∈ s.returned, r = 1) ∧
    (s.failure = none ∨ s.failure = some .outOfMemory) ∧
    s.taken <+: s.added := by
  obtain ⟨l, hl⟩ := Invariant.of_reachable (by omega) h
  have hcount := hl.represents.count
  refine ⟨fun hlock => ⟨?_, ?_⟩, hl.exists_awake hmax, hl.returned, hl.failure, ⟨_, hl.fifo.symm⟩⟩
  · rintro ⟨t, ht⟩
    rw [hcount]
    exact hl.readers_free hlock (t := t) (by rw [ht]; rfl)
  · rintro ⟨t, val, ht⟩
    rw [hcount]
    exact hl.writers_free hlock (t := t) (by rw [ht]; rfl)

/-- One writer and two readers. -/
def oneWriter (t : Fin 3) : Role := if t.val = 0 then .producer else .consumer

/-- Both readers sleep when a value comes; one of them was woken and has not taken the mutex
again. -/
theorem condvarQueue_no_lost_wakeUp_two_readers :
    ∃ s : CvQueue (Fin 3), s.lock = none ∧ s.phase 1 = .getAsleep ∧ s.list.count = 1 ∧
    (s.lock = none →
      ((∃ t, s.phase t = .getAsleep) → s.list.count ≤ census s.phase CvPhase.readerWoken) ∧
      ((∃ t val, s.phase t = .addAsleep val) →
        1 - s.list.count ≤ census s.phase CvPhase.writerWoken)) ∧
    ((∃ t, oneWriter t = .producer) → (∃ t, oneWriter t = .consumer) →
      ∃ t, (s.phase t).readerAsleep = false ∧ (s.phase t).writerAsleep = false) ∧
    (∀ r ∈ s.returned, r = 1) ∧
    (s.failure = none ∨ s.failure = some .outOfMemory) ∧
    s.taken <+: s.added := by
  have hrun := Run.get_execWhere (step oneWriter) anyStep (init 1)
    [(1, .call 0), (1, .go), (1, .go), (2, .call 0), (2, .go), (2, .go), (0, .call 5), (0, .go),
      (0, .go), (0, .malloc (some 0)), (0, .signal (some 2)), (0, .go)] (by decide)
  exact ⟨_, by decide, by decide, by decide, condvarQueue_no_lost_wakeUp (by decide) hrun⟩

end CvQueue

end OsLabs.BoundedQueue
