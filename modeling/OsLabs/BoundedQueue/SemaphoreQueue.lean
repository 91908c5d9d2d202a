import OsLabs.BoundedQueue.NodeList
import OsLabs.Foundation.Census
import OsLabs.Foundation.Mutex
import OsLabs.Foundation.Transition

/-!
# The queue with two semaphores

`queue_semaphore/queue.c` with any number of producers, which call `queue_add` again and again, and
consumers, which call `queue_get`.  Each assertion, `sem_wait`, `malloc`, `pthread_mutex_lock`, list
update, `sem_post` and `pthread_mutex_unlock` is a step of its own.

The two semaphores are lowered before the list changes and raised afterwards, so their values and
the length of the list differ by the threads that are in between: `Balanced` states by how much.

`added` and `taken` are not in the source: they record the values in the order of the list updates.
-/

namespace OsLabs.BoundedQueue

open Transition

/-- Where a thread is in `queue_add` or `queue_get`. -/
inductive SemPhase
  /-- Outside both functions. -/
  | outside
  /-- In `queue_add`, before the assertion. -/
  | addStart (val : ℤ)
  /-- At `sem_wait(&q->empty)`. -/
  | waitEmpty (val : ℤ)
  /-- At `malloc`. -/
  | allocating (val : ℤ)
  /-- At `pthread_mutex_lock`, with the new node. -/
  | addLock (new : ℕ) (val : ℤ)
  /-- The mutex is held, the node is to be linked. -/
  | linking (new : ℕ) (val : ℤ)
  /-- At `sem_post(&q->full)`. -/
  | postFull
  /-- At `pthread_mutex_unlock` of `queue_add`. -/
  | addUnlock
  /-- In `queue_get`, before the assertion. -/
  | getStart
  /-- At `sem_wait(&q->full)`. -/
  | waitFull
  /-- At `pthread_mutex_lock` of `queue_get`. -/
  | getLock
  /-- The mutex is held, the first node is to be taken. -/
  | taking
  /-- At `sem_post(&q->empty)`. -/
  | postEmpty
  /-- At `pthread_mutex_unlock` of `queue_get`. -/
  | getUnlock
  deriving DecidableEq, Repr

/-- The shared state and the positions of all threads. -/
structure SemQueue (T : Type) where
  list : NodeList
  maxCount : ℤ
  /-- The values of the semaphores. -/
  empty : ℕ
  full : ℕ
  /-- The thread that holds `q->lock`. -/
  lock : Option T
  phase : T → SemPhase
  failure : Option Failure
  /-- The values of all list updates of `queue_add` and of `queue_get`. -/
  added : List ℤ
  taken : List ℤ

/-- What the code does not decide: the arguments of the calls and the answers of `malloc`. -/
inductive SemChoice
  | call (val : ℤ)
  | malloc (answer : Option ℕ)
  | go
  deriving DecidableEq, Repr

namespace SemQueue

variable {T : Type} [DecidableEq T]

/-- The state after `queue_init`. -/
def init (maxCount : ℤ) : SemQueue T :=
  ⟨NodeList.initial, maxCount, maxCount.toNat, 0, none, fun _ => .outside, none, [], []⟩

/-- The thread is at another place. -/
def goTo (s : SemQueue T) (t : T) (phase : SemPhase) : SemQueue T :=
  { s with phase := Function.update s.phase t phase }

/-- The next step of `queue_add` in a thread; `none` while the thread is blocked. -/
def queueAdd (s : SemQueue T) (t : T) (choice : SemChoice) : Option (SemQueue T) :=
  match s.phase t, choice with
  | .outside, .call val => some (s.goTo t (.addStart val))
  | .addStart val, .go =>
    if s.list.count ≤ s.maxCount then some (s.goTo t (.waitEmpty val))
    else some { s with failure := some .assertion }
  | .waitEmpty val, .go =>
    if s.empty = 0 then none
    else some { s.goTo t (.allocating val) with empty := s.empty - 1 }
  | .allocating val, .malloc (some new) =>
    (s.list.allocate new val).map fun list => { s.goTo t (.addLock new val) with list := list }
  | .allocating _, .malloc none => some { s with failure := some .outOfMemory }
  | .addLock new val, .go =>
    if s.lock.isSome then none
    else some { s.goTo t (.linking new val) with lock := some t }
  | .linking new val, .go =>
    match s.list.link new with
    | none => some { s with failure := some .badPointer }
    | some list => some { s.goTo t .postFull with list := list, added := s.added ++ [val] }
  | .postFull, .go => some { s.goTo t .addUnlock with full := s.full + 1 }
  | .addUnlock, .go => some { s.goTo t .outside with lock := none }
  | _, _ => none

/-- The next step of `queue_get` in a thread; `none` while the thread is blocked. -/
def queueGet (s : SemQueue T) (t : T) (choice : SemChoice) : Option (SemQueue T) :=
  match s.phase t, choice with
  | .outside, .call _ => some (s.goTo t .getStart)
  | .getStart, .go =>
    if 0 ≤ s.list.count then some (s.goTo t .waitFull)
    else some { s with failure := some .assertion }
  | .waitFull, .go =>
    if s.full = 0 then none
    else some { s.goTo t .getLock with full := s.full - 1 }
  | .getLock, .go =>
    if s.lock.isSome then none
    else some { s.goTo t .taking with lock := some t }
  | .taking, .go =>
    match s.list.takeFirst with
    | none => some { s with failure := some .badPointer }
    | some (val, list) => some { s.goTo t .postEmpty with list := list, taken := s.taken ++ [val] }
  | .postEmpty, .go => some { s.goTo t .getUnlock with empty := s.empty + 1 }
  | .getUnlock, .go => some { s.goTo t .outside with lock := none }
  | _, _ => none

/-- A thread makes a step, while the program runs. -/
def step (role : T → Role) (s : SemQueue T) (e : T × SemChoice) : Option (SemQueue T) :=
  if s.failure.isSome then none
  else
    match role e.1 with
    | .producer => s.queueAdd e.1 e.2
    | .consumer => s.queueGet e.1 e.2

/-- The thread waits for a semaphore or for the mutex. -/
def Blocked (s : SemQueue T) (t : T) : Prop :=
  match s.phase t with
  | .waitEmpty _ => s.empty = 0
  | .waitFull => s.full = 0
  | .addLock _ _ | .getLock => s.lock ≠ none
  | _ => False

end SemQueue

/-! ## The invariant -/

namespace SemPhase

/-- A place was taken from `empty`, and the list has not grown yet. -/
def reserves : SemPhase → Bool
  | .allocating _ | .addLock _ _ | .linking _ _ => true
  | _ => false

/-- The list has grown, and `full` has not been raised yet. -/
def hasLinked : SemPhase → Bool
  | .postFull => true
  | _ => false

/-- An element was taken from `full`, and the list has not shrunk yet. -/
def claims : SemPhase → Bool
  | .getLock | .taking => true
  | _ => false

/-- The list has shrunk, and `empty` has not been raised yet. -/
def hasTaken : SemPhase → Bool
  | .postEmpty => true
  | _ => false

/-- The thread holds the mutex. -/
def holds : SemPhase → Bool
  | .linking _ _ | .postFull | .addUnlock | .taking | .postEmpty | .getUnlock => true
  | _ => false

/-- The node that is allocated and not linked. -/
def node : SemPhase → Option (ℕ × ℤ)
  | .addLock new val | .linking new val => some (new, val)
  | _ => none

/-- The function that the phase belongs to. -/
def role : SemPhase → Option Role
  | .outside => none
  | .addStart _ | .waitEmpty _ | .allocating _ | .addLock _ _ | .linking _ _ | .postFull
  | .addUnlock => some .producer
  | .getStart | .waitFull | .getLock | .taking | .postEmpty | .getUnlock => some .consumer

end SemPhase

namespace SemQueue

variable {T : Type} [DecidableEq T] [Fintype T] {role : T → Role} {maxCount : ℤ}
  {s s' : SemQueue T} {l l' : List (ℕ × ℤ)} {t : T} {p : SemPhase}

/-- What the semaphores count: the values that are missing in them belong to the threads between a
`sem_wait` and the list update, and between the list update and the `sem_post`. -/
structure Balanced (maxCount : ℤ) (s : SemQueue T) (length : ℕ) : Prop where
  empty : ((s.empty + census s.phase SemPhase.reserves + length +
    census s.phase SemPhase.hasTaken : ℕ) : ℤ) = maxCount
  full : s.full + census s.phase SemPhase.hasLinked + census s.phase SemPhase.claims = length

/-- A new node is in memory, outside the list, and belongs to one thread. -/
structure NodesApart (s : SemQueue T) (l : List (ℕ × ℤ)) : Prop where
  cell : ∀ t x, (s.phase t).node = some x → s.list.nodes.cell x.1 = some ⟨x.2, none⟩
  notMem : ∀ t x, (s.phase t).node = some x → x.1 ∉ l.map Prod.fst
  unique : ∀ t u x y, (s.phase t).node = some x → (s.phase u).node = some y → x.1 = y.1 → t = u

/-- The invariant, for the list in memory. -/
structure Invariant (role : T → Role) (maxCount : ℤ) (s : SemQueue T) (l : List (ℕ × ℤ)) :
    Prop where
  represents : s.list.Represents l
  fifo : s.added = s.taken ++ l.map Prod.snd
  balanced : Balanced maxCount s l.length
  guarded : Guarded s.phase SemPhase.holds s.lock
  apart : NodesApart s l
  role : ∀ t r, (s.phase t).role = some r → role t = r
  capacity : s.maxCount = maxCount
  failure : s.failure = none ∨ s.failure = some .outOfMemory

/-! ## Steps -/

/-- A step of one thread keeps the balance when it moves what it adds to one side. -/
lemma Balanced.update {n n' : ℕ} (h : Balanced maxCount s n)
    (hphase : s'.phase = Function.update s.phase t p)
    (hempty : s'.empty + p.reserves.toNat + n' + p.hasTaken.toNat =
      s.empty + (s.phase t).reserves.toNat + n + (s.phase t).hasTaken.toNat)
    (hfull : s'.full + p.hasLinked.toNat + p.claims.toNat + n =
      s.full + (s.phase t).hasLinked.toNat + (s.phase t).claims.toNat + n') :
    Balanced maxCount s' n' := by
  have hreserves := census_update s.phase SemPhase.reserves t p
  have htaken := census_update s.phase SemPhase.hasTaken t p
  have hlinked := census_update s.phase SemPhase.hasLinked t p
  have hclaims := census_update s.phase SemPhase.claims t p
  rw [← hphase] at hreserves htaken hlinked hclaims
  obtain ⟨hempty', hfull'⟩ := h
  constructor
  · rw [← hempty']
    congr 1
    omega
  · omega

omit [Fintype T] in
/-- A step of one thread keeps the new nodes apart when it touches no node of another thread. -/
lemma NodesApart.update (h : NodesApart s l) (hphase : s'.phase = Function.update s.phase t p)
    (hothers : ∀ u x, u ≠ t → (s.phase u).node = some x →
      s'.list.nodes.cell x.1 = s.list.nodes.cell x.1 ∧ x.1 ∉ l'.map Prod.fst)
    (hown : ∀ x, p.node = some x → s'.list.nodes.cell x.1 = some ⟨x.2, none⟩ ∧
      x.1 ∉ l'.map Prod.fst ∧ ∀ u y, u ≠ t → (s.phase u).node = some y → y.1 ≠ x.1) :
    NodesApart s' l' := by
  have hself : s'.phase t = p := by rw [hphase, Function.update_self]
  have hne : ∀ u, u ≠ t → s'.phase u = s.phase u := by
    intro u hu
    rw [hphase, Function.update_of_ne hu]
  refine ⟨fun u x hx => ?_, fun u x hx => ?_, fun u v x y hx hy hxy => ?_⟩
  · rcases eq_or_ne u t with rfl | hu
    · exact (hown x (hself ▸ hx)).1
    · rw [hne u hu] at hx
      rw [(hothers u x hu hx).1, h.cell u x hx]
  · rcases eq_or_ne u t with rfl | hu
    · exact (hown x (hself ▸ hx)).2.1
    · exact (hothers u x hu (hne u hu ▸ hx)).2
  · rcases eq_or_ne u t with rfl | hu
    · rcases eq_or_ne v u with rfl | hv
      · rfl
      · exact absurd hxy.symm ((hown x (hself ▸ hx)).2.2 v y hv (hne v hv ▸ hy))
    · rcases eq_or_ne v t with rfl | hv
      · exact absurd hxy ((hown y (hself ▸ hy)).2.2 u x hu (hne u hu ▸ hx))
      · exact h.unique u v x y (hne u hu ▸ hx) (hne v hv ▸ hy) hxy

namespace Invariant

/-- A step that does not touch the list: what a thread takes from a semaphore or gives to it is
accounted for by its new place. -/
lemma goTo (h : Invariant role maxCount s l) (p : SemPhase)
    (hrole : ∀ r, p.role = some r → role t = r)
    (hnode : p.node = (s.phase t).node) {empty full : ℕ} {lock : Option T}
    (hempty : empty + p.reserves.toNat + p.hasTaken.toNat =
      s.empty + (s.phase t).reserves.toNat + (s.phase t).hasTaken.toNat)
    (hfull : full + p.hasLinked.toNat + p.claims.toNat =
      s.full + (s.phase t).hasLinked.toNat + (s.phase t).claims.toNat)
    (hguard : Guarded (Function.update s.phase t p) SemPhase.holds lock) :
    Invariant role maxCount { s.goTo t p with empty := empty, full := full, lock := lock } l where
  represents := h.represents
  fifo := h.fifo
  balanced := h.balanced.update rfl (by show empty + _ + _ + _ = _; omega)
    (by show full + _ + _ + _ = _; omega)
  guarded := hguard
  apart := by
    refine h.apart.update rfl (fun u x _ hx => ⟨rfl, h.apart.notMem u x hx⟩) fun x hx => ?_
    rw [hnode] at hx
    exact ⟨h.apart.cell t x hx, h.apart.notMem t x hx,
      fun u y hu hy heq => hu (h.apart.unique u t y x hy hx heq)⟩
  role := role_update h.role hrole
  capacity := h.capacity
  failure := h.failure

/-- A new node is allocated. -/
lemma allocate (h : Invariant role maxCount s l) {new : ℕ} {val : ℤ} {list : NodeList}
    (ht : s.phase t = .allocating val) (hal : s.list.allocate new val = some list) :
    Invariant role maxCount { s.goTo t (.addLock new val) with list := list } l := by
  obtain ⟨hlist, hfree, hcell⟩ := h.represents.allocate hal
  refine ⟨hlist, h.fifo, h.balanced.update rfl ?_ ?_, h.guarded.keep ?_,
    h.apart.update rfl ?_ ?_, role_update h.role ?_, h.capacity, h.failure⟩
  · rw [ht]; rfl
  · rw [ht]; rfl
  · rw [ht]; rfl
  · intro u x _ hx
    -- the other nodes are in use, the new one was not
    have hne : x.1 ≠ new := Heap.ne_of_cell (h.apart.cell u x hx) hfree
    exact ⟨by show list.nodes.cell x.1 = _; rw [hcell, Function.update_of_ne hne],
      h.apart.notMem u x hx⟩
  · rintro x ⟨⟩
    refine ⟨by show list.nodes.cell new = _; rw [hcell, Function.update_self],
      h.represents.path.notMem_of_cell hfree, fun u y _ hy => ?_⟩
    exact Heap.ne_of_cell (h.apart.cell u y hy) hfree
  · rintro r ⟨⟩
    exact h.role t .producer (by rw [ht]; rfl)

/-- The new node is linked behind the others. -/
lemma link (h : Invariant role maxCount s l) {new : ℕ} {val : ℤ}
    (ht : s.phase t = .linking new val) :
    ∃ list, s.list.link new = some list ∧
      Invariant role maxCount
        { s.goTo t .postFull with list := list, added := s.added ++ [val] }
        (l ++ [(new, val)]) := by
  have hnode : (s.phase t).node = some (new, val) := by rw [ht]; rfl
  obtain ⟨list, hlink, hlist, hframe⟩ :=
    h.represents.link (h.apart.cell t _ hnode) (h.apart.notMem t _ hnode)
  refine ⟨list, hlink, hlist, ?_, h.balanced.update rfl ?_ ?_, h.guarded.keep ?_,
    h.apart.update rfl ?_ ?_, role_update h.role ?_, h.capacity, h.failure⟩
  · show s.added ++ [val] = s.taken ++ (l ++ [(new, val)]).map Prod.snd
    rw [List.map_append, ← List.append_assoc, ← h.fifo]
    rfl
  · show s.empty + 0 + (l ++ [(new, val)]).length + 0 = _
    rw [ht, List.length_append, List.length_singleton]
    simp only [SemPhase.reserves, SemPhase.hasTaken, Bool.toNat_true, Bool.toNat_false]
    omega
  · show s.full + 1 + 0 + l.length = s.full + _ + _ + (l ++ [(new, val)]).length
    rw [ht, List.length_append, List.length_singleton]
    simp only [SemPhase.hasLinked, SemPhase.claims, Bool.toNat_false]
    omega
  · rw [ht]; rfl
  · intro u x hu hx
    refine ⟨hframe x.1 (h.apart.notMem u x hx), fun hmem => ?_⟩
    rw [List.map_append, List.mem_append] at hmem
    rcases hmem with hmem | hmem
    · exact h.apart.notMem u x hx hmem
    · exact hu (h.apart.unique u t x _ hx hnode (List.mem_singleton.mp hmem))
  · intro x hx
    cases hx
  · rintro r ⟨⟩
    exact h.role t .producer (by rw [ht]; rfl)

/-- The list has an element for every thread that has passed `sem_wait(&q->full)`. -/
lemma ne_nil (h : Invariant role maxCount s l) (ht : s.phase t = .taking) : l ≠ [] := by
  have hpos : 0 < census s.phase SemPhase.claims := census_pos (t := t) (by rw [ht]; rfl)
  have hfull := h.balanced.full
  intro hnil
  rw [hnil, List.length_nil] at hfull
  omega

/-- The first node is taken. -/
lemma take {x : ℕ × ℤ} (h : Invariant role maxCount s (x :: l)) (ht : s.phase t = .taking) :
    ∃ list, s.list.takeFirst = some (x.2, list) ∧
      Invariant role maxCount
        { s.goTo t .postEmpty with list := list, taken := s.taken ++ [x.2] } l := by
  obtain ⟨list, htake, hlist, hcell⟩ := h.represents.takeFirst
  refine ⟨list, htake, hlist, ?_, h.balanced.update rfl ?_ ?_, h.guarded.keep ?_,
    h.apart.update rfl ?_ ?_, role_update h.role ?_, h.capacity, h.failure⟩
  · show s.added = s.taken ++ [x.2] ++ l.map Prod.snd
    rw [h.fifo, List.append_assoc]
    rfl
  · show s.empty + 0 + l.length + 1 = _
    rw [ht, List.length_cons]
    simp only [SemPhase.reserves, SemPhase.hasTaken, Bool.toNat_false]
    omega
  · show s.full + 0 + 0 + (x :: l).length = s.full + _ + _ + l.length
    rw [ht, List.length_cons]
    simp only [SemPhase.hasLinked, SemPhase.claims, Bool.toNat_true, Bool.toNat_false]
    omega
  · rw [ht]; rfl
  · intro u y _ hy
    have hnot := h.apart.notMem u y hy
    rw [List.map_cons, List.mem_cons, not_or] at hnot
    exact ⟨by show list.nodes.cell y.1 = _; rw [hcell, Function.update_of_ne hnot.1], hnot.2⟩
  · intro y hy
    cases hy
  · rintro r ⟨⟩
    exact h.role t .consumer (by rw [ht]; rfl)

omit [DecidableEq T] in
/-- A failed `malloc` ends the program. -/
lemma outOfMemory (h : Invariant role maxCount s l) :
    Invariant role maxCount { s with failure := some .outOfMemory } l :=
  ⟨h.represents, h.fifo, ⟨h.balanced.empty, h.balanced.full⟩, h.guarded,
    ⟨h.apart.cell, h.apart.notMem, h.apart.unique⟩, h.role, h.capacity, Or.inr rfl⟩

omit [DecidableEq T] in
/-- The list is within the capacity. -/
lemma length_le (h : Invariant role maxCount s l) : (l.length : ℤ) ≤ maxCount := by
  rw [← h.balanced.empty]
  omega

/-- Every step of `queue_add` keeps the invariant. -/
lemma queueAdd (h : Invariant role maxCount s l) (hrole : role t = .producer) {choice : SemChoice}
    (hst : s.queueAdd t choice = some s') : ∃ l', Invariant role maxCount s' l' := by
  have hproducer : ∀ r, some Role.producer = some r → role t = r := by
    rintro r ⟨⟩
    exact hrole
  unfold SemQueue.queueAdd at hst
  split at hst
  next val ht =>
    cases hst
    exact ⟨l, h.goTo (.addStart val) hproducer (by rw [ht]; rfl) (by rw [ht]; rfl) (by rw [ht]; rfl)
      (h.guarded.keep (by rw [ht]; rfl))⟩
  next val ht =>
    have hle := h.length_le
    rw [if_pos (by rw [h.represents.count, h.capacity]; exact hle)] at hst
    cases hst
    exact ⟨l, h.goTo (.waitEmpty val) hproducer (by rw [ht]; rfl) (by rw [ht]; rfl)
      (by rw [ht]; rfl) (h.guarded.keep (by rw [ht]; rfl))⟩
  next val ht =>
    split_ifs at hst with hempty
    cases hst
    refine ⟨l, h.goTo (.allocating val) hproducer (by rw [ht]; rfl) ?_ (by rw [ht]; rfl)
      (h.guarded.keep (by rw [ht]; rfl))⟩
    rw [ht]
    show s.empty - 1 + 1 + 0 = s.empty + 0 + 0
    omega
  next val new ht =>
    obtain ⟨list, hal, rfl⟩ := Option.map_eq_some_iff.mp hst
    exact ⟨l, h.allocate ht hal⟩
  next ht =>
    cases hst
    exact ⟨l, h.outOfMemory⟩
  next new val ht =>
    split_ifs at hst with hlock
    cases hst
    have hfree : s.lock = none := by simpa using hlock
    exact ⟨l, h.goTo (.linking new val) hproducer (by rw [ht]; rfl) (by rw [ht]; rfl)
      (by rw [ht]; rfl) ((hfree ▸ h.guarded).acquire rfl)⟩
  next new val ht =>
    obtain ⟨list, hlink, hinv⟩ := h.link ht
    rw [hlink] at hst
    cases hst
    exact ⟨_, hinv⟩
  next ht =>
    cases hst
    exact ⟨l, h.goTo .addUnlock hproducer (by rw [ht]; rfl) (by rw [ht]; rfl) (by rw [ht]; rfl)
      (h.guarded.keep (by rw [ht]; rfl))⟩
  next ht =>
    cases hst
    exact ⟨l, h.goTo .outside (by rintro r ⟨⟩) (by rw [ht]; rfl) (by rw [ht]; rfl) (by rw [ht]; rfl)
      (h.guarded.release (by rw [ht]; rfl) rfl)⟩
  next => cases hst

/-- Every step of `queue_get` keeps the invariant. -/
lemma queueGet (h : Invariant role maxCount s l) (hrole : role t = .consumer) {choice : SemChoice}
    (hst : s.queueGet t choice = some s') : ∃ l', Invariant role maxCount s' l' := by
  have hconsumer : ∀ r, some Role.consumer = some r → role t = r := by
    rintro r ⟨⟩
    exact hrole
  unfold SemQueue.queueGet at hst
  split at hst
  next ht =>
    cases hst
    exact ⟨l, h.goTo .getStart hconsumer (by rw [ht]; rfl) (by rw [ht]; rfl) (by rw [ht]; rfl)
      (h.guarded.keep (by rw [ht]; rfl))⟩
  next ht =>
    rw [if_pos (by rw [h.represents.count]; omega)] at hst
    cases hst
    exact ⟨l, h.goTo .waitFull hconsumer (by rw [ht]; rfl) (by rw [ht]; rfl) (by rw [ht]; rfl)
      (h.guarded.keep (by rw [ht]; rfl))⟩
  next ht =>
    split_ifs at hst with hfull
    cases hst
    refine ⟨l, h.goTo .getLock hconsumer (by rw [ht]; rfl) (by rw [ht]; rfl) ?_
      (h.guarded.keep (by rw [ht]; rfl))⟩
    rw [ht]
    show s.full - 1 + 0 + 1 = s.full + 0 + 0
    omega
  next ht =>
    split_ifs at hst with hlock
    cases hst
    have hfree : s.lock = none := by simpa using hlock
    exact ⟨l, h.goTo .taking hconsumer (by rw [ht]; rfl) (by rw [ht]; rfl) (by rw [ht]; rfl)
      ((hfree ▸ h.guarded).acquire rfl)⟩
  next ht =>
    obtain ⟨x, l, rfl⟩ := List.exists_cons_of_ne_nil (h.ne_nil ht)
    obtain ⟨list, htake, hinv⟩ := h.take ht
    rw [htake] at hst
    cases hst
    exact ⟨_, hinv⟩
  next ht =>
    cases hst
    exact ⟨l, h.goTo .getUnlock hconsumer (by rw [ht]; rfl) (by rw [ht]; rfl) (by rw [ht]; rfl)
      (h.guarded.keep (by rw [ht]; rfl))⟩
  next ht =>
    cases hst
    exact ⟨l, h.goTo .outside (by rintro r ⟨⟩) (by rw [ht]; rfl) (by rw [ht]; rfl) (by rw [ht]; rfl)
      (h.guarded.release (by rw [ht]; rfl) rfl)⟩
  next => cases hst

/-- Every step keeps the invariant. -/
lemma step (h : Invariant role maxCount s l) {e : T × SemChoice}
    (hst : SemQueue.step role s e = some s') : ∃ l', Invariant role maxCount s' l' := by
  unfold SemQueue.step at hst
  split_ifs at hst with hf
  cases hrole : role e.1 with
  | producer => rw [hrole] at hst; exact h.queueAdd hrole hst
  | consumer => rw [hrole] at hst; exact h.queueGet hrole hst

omit [DecidableEq T] in
/-- The new queue. -/
lemma init (h : 0 ≤ maxCount) : Invariant role maxCount (SemQueue.init maxCount) [] where
  represents := NodeList.represents_initial
  fifo := rfl
  balanced := by
    constructor
    · show ((maxCount.toNat + census (fun _ : T => SemPhase.outside) SemPhase.reserves + 0 +
        census (fun _ : T => SemPhase.outside) SemPhase.hasTaken : ℕ) : ℤ) = maxCount
      rw [census_const rfl, census_const rfl]
      exact Int.toNat_of_nonneg h
    · show 0 + census (fun _ : T => SemPhase.outside) SemPhase.hasLinked +
        census (fun _ : T => SemPhase.outside) SemPhase.claims = 0
      rw [census_const rfl, census_const rfl]
  guarded := fun _ => iff_of_false Bool.noConfusion (Option.some_ne_none _).symm
  apart := ⟨fun _ _ h => (Option.some_ne_none _ h.symm).elim,
    fun _ _ h => (Option.some_ne_none _ h.symm).elim,
    fun _ _ _ _ h => (Option.some_ne_none _ h.symm).elim⟩
  role := fun _ _ h => (Option.some_ne_none _ h.symm).elim
  capacity := rfl
  failure := Or.inl rfl

/-- The invariant holds in every reachable state. -/
lemma of_reachable (hmax : 0 ≤ maxCount)
    (h : Reachable (SemQueue.step role) (SemQueue.init maxCount) s) :
    ∃ l, Invariant role maxCount s l :=
  h.invariant (I := fun s => ∃ l, Invariant role maxCount s l) ⟨[], init hmax⟩
    fun _ _ _ ⟨_, hl⟩ _ hst => hl.step hst

/-! ## No deadlock -/

omit [DecidableEq T] in
/-- While all threads are blocked, nobody holds the mutex. -/
lemma lock_eq_none (h : Invariant role maxCount s l) (hall : ∀ t, s.Blocked t) : s.lock = none := by
  cases hlock : s.lock with
  | none => rfl
  | some t =>
    have hholds := (h.guarded t).mpr hlock
    have hblocked := hall t
    unfold SemQueue.Blocked at hblocked
    cases hphase : s.phase t <;> rw [hphase] at hholds hblocked <;>
      first | exact Bool.noConfusion hholds | exact hblocked.elim

omit [DecidableEq T] [Fintype T] in
/-- A thread that is blocked while the mutex is free waits for a semaphore. -/
lemma waits_of_blocked (hlock : s.lock = none) (hblocked : s.Blocked t) :
    (∃ val, s.phase t = .waitEmpty val ∧ s.empty = 0) ∨ (s.phase t = .waitFull ∧ s.full = 0) := by
  unfold SemQueue.Blocked at hblocked
  split at hblocked
  next val ht => exact Or.inl ⟨val, ht, hblocked⟩
  next ht => exact Or.inr ⟨ht, hblocked⟩
  next => exact absurd hlock hblocked
  next => exact absurd hlock hblocked
  next => exact hblocked.elim

omit [DecidableEq T] in
/-- With a producer and a consumer some thread is not blocked. -/
lemma exists_not_blocked (h : Invariant role maxCount s l) (hmax : 1 ≤ maxCount)
    (hproducer : ∃ t, role t = .producer) (hconsumer : ∃ t, role t = .consumer) :
    ∃ t, ¬ s.Blocked t := by
  by_contra hnone
  have hall : ∀ t, s.Blocked t := fun t => by_contra fun ht => hnone ⟨t, ht⟩
  have hlock := h.lock_eq_none hall
  have hwaits := fun t => waits_of_blocked hlock (hall t)
  -- nobody is between a semaphore and the list
  have hzero : ∀ q : SemPhase → Bool, (∀ val, q (.waitEmpty val) = false) → q .waitFull = false →
      census s.phase q = 0 := fun q hempty hfull => census_eq_zero fun t => by
    rcases hwaits t with ⟨val, ht, -⟩ | ⟨ht, -⟩ <;> rw [ht]
    · exact hempty val
    · exact hfull
  have hempty : s.empty = 0 := by
    obtain ⟨t, ht⟩ := hproducer
    rcases hwaits t with ⟨val, -, h0⟩ | ⟨hphase, -⟩
    · exact h0
    · have hr := h.role t .consumer (by rw [hphase]; rfl)
      rw [ht] at hr
      cases hr
  have hfull : s.full = 0 := by
    obtain ⟨t, ht⟩ := hconsumer
    rcases hwaits t with ⟨val, hphase, -⟩ | ⟨-, h0⟩
    · have hr := h.role t .producer (by rw [hphase]; rfl)
      rw [ht] at hr
      cases hr
    · exact h0
  have hbalance := h.balanced.empty
  have hlength := h.balanced.full
  rw [hzero _ (fun _ => rfl) rfl, hzero _ (fun _ => rfl) rfl] at hbalance hlength
  omega

omit [Fintype T] in
/-- `queue_add` goes on unless the thread is blocked. -/
lemma exists_queueAdd (hrole : ∀ r, (s.phase t).role = some r → r = .producer)
    (ht : ¬ s.Blocked t) : ∃ choice s', s.queueAdd t choice = some s' ∧ choice ≠ .malloc none := by
  have hgo : SemChoice.go ≠ .malloc none := by decide
  have hcall : SemChoice.call 0 ≠ .malloc none := by decide
  unfold SemQueue.Blocked at ht
  unfold SemQueue.queueAdd
  cases hphase : s.phase t <;> rw [hphase] at ht hrole
  case outside => exact ⟨.call 0, _, rfl, hcall⟩
  case addStart val => exact ⟨.go, by dsimp only; split_ifs <;> exact ⟨_, rfl, hgo⟩⟩
  case waitEmpty val => exact ⟨.go, _, if_neg ht, hgo⟩
  case allocating val =>
    obtain ⟨new, hnew⟩ := s.list.nodes.exists_free
    obtain ⟨list, hal⟩ := NodeList.exists_allocate val hnew
    refine ⟨.malloc (some new), _, Option.map_eq_some_iff.mpr ⟨list, hal, rfl⟩, ?_⟩
    rintro ⟨⟩
  case addLock new val => exact ⟨.go, _, if_neg (by simpa using ht), hgo⟩
  case linking new val => exact ⟨.go, by dsimp only; split <;> exact ⟨_, rfl, hgo⟩⟩
  case postFull => exact ⟨.go, _, rfl, hgo⟩
  case addUnlock => exact ⟨.go, _, rfl, hgo⟩
  all_goals cases hrole .consumer rfl

omit [Fintype T] in
/-- `queue_get` goes on unless the thread is blocked. -/
lemma exists_queueGet (hrole : ∀ r, (s.phase t).role = some r → r = .consumer)
    (ht : ¬ s.Blocked t) : ∃ choice s', s.queueGet t choice = some s' ∧ choice ≠ .malloc none := by
  have hgo : SemChoice.go ≠ .malloc none := by decide
  have hcall : SemChoice.call 0 ≠ .malloc none := by decide
  unfold SemQueue.Blocked at ht
  unfold SemQueue.queueGet
  cases hphase : s.phase t <;> rw [hphase] at ht hrole
  case outside => exact ⟨.call 0, _, rfl, hcall⟩
  case getStart => exact ⟨.go, by dsimp only; split_ifs <;> exact ⟨_, rfl, hgo⟩⟩
  case waitFull => exact ⟨.go, _, if_neg ht, hgo⟩
  case getLock => exact ⟨.go, _, if_neg (by simpa using ht), hgo⟩
  case taking => exact ⟨.go, by dsimp only; split <;> exact ⟨_, rfl, hgo⟩⟩
  case postEmpty => exact ⟨.go, _, rfl, hgo⟩
  case getUnlock => exact ⟨.go, _, rfl, hgo⟩
  all_goals cases hrole .producer rfl

omit [Fintype T] in
/-- Only the answer NULL of `malloc` means that the memory is used up. -/
lemma outOfMemory_of_step {choice : SemChoice} (hf : s.failure = none)
    (hst : SemQueue.step role s (t, choice) = some s') (hmemory : s'.failure = some .outOfMemory) :
    choice = .malloc none := by
  have hnot : s.failure ≠ some .outOfMemory := by rw [hf]; exact (Option.some_ne_none _).symm
  rw [SemQueue.step, hf] at hst
  cases hrole : role t with
  | producer =>
    replace hst : s.queueAdd t choice = some s' := by rw [hrole] at hst; exact hst
    unfold SemQueue.queueAdd at hst
    split at hst
    case h_5 => rfl
    case h_4 =>
      obtain ⟨list, -, rfl⟩ := Option.map_eq_some_iff.mp hst
      exact absurd hmemory hnot
    all_goals
      (try split at hst) <;>
        first
          | (cases hst; done)
          | (cases hst; exact absurd hmemory hnot)
          | (cases hst; cases hmemory)
  | consumer =>
    replace hst : s.queueGet t choice = some s' := by rw [hrole] at hst; exact hst
    unfold SemQueue.queueGet at hst
    split at hst
    all_goals
      (try split at hst) <;>
        first
          | (cases hst; done)
          | (cases hst; exact absurd hmemory hnot)
          | (cases hst; cases hmemory)

/-- A thread that is not blocked can make a step, with which the program goes on. -/
lemma exists_step (h : Invariant role maxCount s l) (hf : s.failure = none)
    (ht : ¬ s.Blocked t) :
    ∃ choice s', SemQueue.step role s (t, choice) = some s' ∧ s'.failure = none := by
  have hstep : ∃ choice s', SemQueue.step role s (t, choice) = some s' ∧ choice ≠ .malloc none := by
    cases hrole : role t with
    | producer =>
      obtain ⟨choice, s', hst, hne⟩ :=
        exists_queueAdd (fun r hr => (h.role t r hr).symm.trans hrole) ht
      exact ⟨choice, s', by rw [SemQueue.step, hf, hrole]; exact hst, hne⟩
    | consumer =>
      obtain ⟨choice, s', hst, hne⟩ :=
        exists_queueGet (fun r hr => (h.role t r hr).symm.trans hrole) ht
      exact ⟨choice, s', by rw [SemQueue.step, hf, hrole]; exact hst, hne⟩
  obtain ⟨choice, s', hst, hne⟩ := hstep
  obtain ⟨_, hs'⟩ := h.step hst
  exact ⟨choice, s', hst, hs'.failure.resolve_right fun hmemory =>
    hne (outOfMemory_of_step hf hst hmemory)⟩

end Invariant

/-! ## Main result -/

/-- What is known of every reachable state: the list in memory has `count` elements and stays within
its bounds, a `queue_get` that has the mutex finds an element, no assertion fails and no bad pointer
is followed, the values are taken in the order of their additions, and with a producer and a
consumer some thread is not blocked and can go on. -/
theorem semQueue_safe {maxCount : ℤ} (hmax : 1 ≤ maxCount) {role : T → Role} {s : SemQueue T}
    (h : Reachable (step role) (init maxCount) s) :
    (∃ l, s.list.Represents l ∧ s.list.count = l.length) ∧
      0 ≤ s.list.count ∧ s.list.count ≤ maxCount ∧
      (∀ t, s.phase t = .taking → s.list.first ≠ none) ∧
      (s.failure = none ∨ s.failure = some .outOfMemory) ∧
      s.taken <+: s.added ∧
      ((∃ t, role t = .producer) → (∃ t, role t = .consumer) → ∃ t, ¬ s.Blocked t ∧
        (s.failure = none →
          ∃ choice s', step role s (t, choice) = some s' ∧ s'.failure = none)) := by
  obtain ⟨l, hl⟩ := Invariant.of_reachable (by omega) h
  have hcount := hl.represents.count
  have hle := hl.length_le
  refine ⟨⟨l, hl.represents, hcount⟩, by omega, by omega, ?_, hl.failure, ⟨_, hl.fifo.symm⟩, ?_⟩
  · intro t ht hnone
    have hempty := hl.represents.first_isNone
    rw [hnone] at hempty
    exact hl.ne_nil ht (List.isEmpty_iff.mp hempty.symm)
  · intro hproducer hconsumer
    obtain ⟨t, ht⟩ := hl.exists_not_blocked hmax hproducer hconsumer
    exact ⟨t, ht, fun hf => hl.exists_step hf ht⟩

/-- The first of two threads produces. -/
def oneProducer (t : Bool) : Role := if t then .producer else .consumer

/-- A value is added while the consumer waits for it. -/
theorem semQueue_safe_waiting : ∃ s : SemQueue Bool, s.phase false = .waitFull ∧ s.added = [5] ∧
    (∃ l, s.list.Represents l ∧ s.list.count = l.length) ∧
      0 ≤ s.list.count ∧ s.list.count ≤ 1 ∧
      (∀ t, s.phase t = .taking → s.list.first ≠ none) ∧
      (s.failure = none ∨ s.failure = some .outOfMemory) ∧
      s.taken <+: s.added ∧
      ((∃ t, oneProducer t = .producer) → (∃ t, oneProducer t = .consumer) → ∃ t, ¬ s.Blocked t ∧
        (s.failure = none →
          ∃ choice s', step oneProducer s (t, choice) = some s' ∧ s'.failure = none)) := by
  have hrun := Run.get_execWhere (step oneProducer) anyStep (init 1)
    [(false, .call 0), (false, .go), (true, .call 5), (true, .go), (true, .go),
      (true, .malloc (some 0)), (true, .go), (true, .go)] (by decide)
  exact ⟨_, by decide, by decide, semQueue_safe (by decide) hrun⟩

end SemQueue

end OsLabs.BoundedQueue
