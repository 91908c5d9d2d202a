import OsLabs.Proxy.Cache
import OsLabs.Proxy.CompleteDelivery
import Mathlib.Algebra.GroupWithZero.Nat

/-!
# The end of a session

In a session the session thread waits for its workers on `manager->cond`, a worker waits for the
lock of its subscriber and for `manager->lock`, and `unsubscribe` waits for the lock of a subscriber
while it holds `manager->lock`.  `session_ends` says that these waits never block each other, and
that the session comes to its end after a bounded number of steps, whatever `send` accepts or
refuses.  It is for sessions whose calls of `add_chunk` have data, with at most 127 clients and with
allocations that succeed; otherwise `__send_chunks` waits for itself, or the `char` in `flag` does
not count the tasks.

`SessionState` adds to the manager whether `pthread_cond_signal` was called since the session thread
went to sleep.  A wake-up without a signal is an event of its own, so that the rest of a run needs
none of them.
-/

namespace OsLabs.Proxy

open Transition

/-- The number of bytes of the chunk. -/
def Payload.bytes (p : Payload) : ℕ := p.size * p.elementSize

/-- `__add_chunk` does not skip the call. -/
def Payload.hasData (p : Payload) : Bool := decide (p.size ≠ 0) && p.data.isSome

/-- The session thread holds `manager->lock`. -/
def SessionPc.holds : SessionPc → Bool
  | .adding _ | .sendStart | .sendLoop _ | .selfLocked _ | .waitTest | .closing .. => true
  | .idle | .waiting | .crashed | .finishing _ | .unsubscribing .. => false

/-- The session thread is in `pthread_cond_wait`. -/
def SessionPc.sleeps : SessionPc → Bool
  | .waiting => true
  | _ => false

/-- There is one place to sleep. -/
lemma SessionPc.eq_waiting {pc : SessionPc} (h : pc.sleeps = true) : pc = .waiting := by
  cases pc <;> first | rfl | cases h

/-- `finish_pending_chunks` has returned. -/
def SessionPc.ended : SessionPc → Bool
  | .finishing none => true
  | _ => false

/-- The critical section that decrements `flag` and signals. -/
def TaskPc.signals : TaskPc → Bool
  | .finishing _ => true
  | _ => false

/-- A subscription, and whether its condition variable was signalled since the last step of the
session thread. -/
structure SessionState where
  manager : Subscription
  signalled : Bool

/-- A step of some thread. -/
inductive SessionEvent
  /-- A choice of the scheduler that wakes up nobody without a signal. -/
  | choice (e : SubscriptionEvent)
  /-- `pthread_cond_wait` returns without a signal. -/
  | spuriousWakeUp
  deriving DecidableEq

/-- The step is made by the session thread. -/
def SubscriptionEvent.isSession : SubscriptionEvent → Bool
  | .session _ => true
  | _ => false

/-- The event is a spurious wake-up. -/
def SessionEvent.isSpurious : SessionEvent → Bool
  | .spuriousWakeUp => true
  | .choice _ => false

namespace SessionState

/-- The handler that becomes the session main thread has subscribed. -/
def start (calls : List Payload) (fd : ℕ) : SessionState where
  manager := (Subscription.initial calls).link fd
  signalled := false

/-- The session thread has been waiting without a signal. -/
def asleep (s : SessionState) : Bool := s.manager.pc.sleeps && !s.signalled

/-- The condition variable is signalled after each `flag--`. -/
def signalledAfter (s : SessionState) : SubscriptionEvent → Bool
  | .subscribe .. => s.signalled
  | .session _ => false
  | .worker k _ => s.signalled || (s.manager.tasks[k]?).any fun task => task.pc.signals

/-- One step of the session, its workers and its clients. -/
def step (s : SessionState) : SessionEvent → Option SessionState
  | .choice e =>
    if s.asleep && e.isSession then none
    else (s.manager.step e).map fun m => ⟨m, s.signalledAfter e⟩
  | .spuriousWakeUp =>
    if s.asleep then (s.manager.step (.session true)).map fun m => ⟨m, false⟩ else none

/-- The condition on a step: allocations succeed, there are at most so many clients, and `send`
fails or accepts some bytes. -/
def orderly (clients : ℕ) (s : SessionState) : SessionEvent → Bool
  | .choice (.subscribe _ allocated) => allocated && decide (s.manager.subscribers < clients)
  | .choice (.session allocated) => allocated
  | .choice (.worker _ sent) => decide (sent ≠ some 0)
  | .spuriousWakeUp => true

/-- The condition on a step: when a round begins, the number of subscribers fits a signed `char` and
the number of chunks an `int`. -/
def roundFits (s : SessionState) : SessionEvent → Bool
  | .choice e => s.manager.roundFits e
  | .spuriousWakeUp => true

/-- The session thread can make a step without a spurious wake-up, or a worker can, if `send` takes
a byte. -/
def GoesOn (s : SessionState) : Prop :=
  (s.step (.choice (.session true))).isSome = true ∨
    ∃ k, (s.step (.choice (.worker k (some 1)))).isSome = true

end SessionState

/-! ## What is left to do -/

/-- The steps of `send_data_to_fd` and of the loop around it, from the chunk number `k` on. -/
def sendSteps (calls : List Payload) (k : ℕ) : ℕ :=
  ((calls.drop k).map fun p => p.bytes + 2).sum

/-- A bound for the steps of a worker until its task has returned, with those of the session thread
when it is woken up. -/
def TaskPc.stepsLeft (calls : List Payload) : TaskPc → ℕ
  | .queued => sendSteps calls 0 + 7
  | .locked => sendSteps calls 0 + 6
  | .loop current _ _ => sendSteps calls current + 5
  | .sending current _ _ total => sendSteps calls current + 4 - total
  | .finishing _ => 4
  | .unlocking _ => 1
  | .done _ | .fault _ => 0

/-- A bound for the steps of a round of `add_chunk` with its tasks. -/
def roundSteps (calls : List Payload) (clients : ℕ) : ℕ :=
  clients * (sendSteps calls 0 + 8) + 5

/-- A bound for the steps of the session thread with the tasks that it will push, when so many calls
of `add_chunk` are to come and so many subscribers are linked. -/
def SessionPc.stepsLeft (calls : List Payload) (clients rounds linked : ℕ) : SessionPc → ℕ
  | .idle | .waiting => rounds * roundSteps calls clients + (3 * linked + 1)
  | .adding _ =>
    rounds * roundSteps calls clients + (3 * linked + 1) + clients * (sendSteps calls 0 + 8) + 4
  | .sendStart =>
    rounds * roundSteps calls clients + (3 * linked + 1) + clients * (sendSteps calls 0 + 8) + 3
  | .sendLoop rest =>
    rounds * roundSteps calls clients + (3 * linked + 1) +
      rest.length * (sendSteps calls 0 + 8) + 2
  | .waitTest => rounds * roundSteps calls clients + (3 * linked + 1) + 1
  | .finishing (some _) => 3 * linked
  | .unsubscribing .. => 3 * linked - 1
  | .closing .. => 3 * linked + 1
  | .finishing none | .selfLocked _ | .crashed => 0

/-- A bound for the steps of all tasks. -/
def Subscription.taskSteps (calls : List Payload) (s : Subscription) : ℕ :=
  (s.tasks.map fun task => task.pc.stepsLeft calls).sum

/-- A bound for all steps, apart from spurious wake-ups and the steps that each of them leads to. -/
def SessionState.potential (calls : List Payload) (clients : ℕ) (s : SessionState) : ℕ :=
  4 * (clients - s.manager.subscribers) + s.manager.taskSteps calls +
    s.manager.pc.stepsLeft calls clients s.manager.todo.length s.manager.linked.length +
    2 * (s.manager.pc.sleeps && s.signalled).toNat

/-- The chunks from `k` on contain those from a later number on. -/
lemma sendSteps_le (calls : List Payload) (k : ℕ) : sendSteps calls k ≤ sendSteps calls 0 := by
  unfold sendSteps
  rw [List.drop_zero]
  conv_rhs => rw [← List.take_append_drop k calls, List.map_append, List.sum_append]
  exact Nat.le_add_left _ _

/-- The steps for one chunk. -/
lemma sendSteps_eq {calls : List Payload} {k : ℕ} {p : Payload} (h : calls[k]? = some p) :
    sendSteps calls k = p.bytes + 2 + sendSteps calls (k + 1) := by
  obtain ⟨hlt, rfl⟩ := List.getElem?_eq_some_iff.mp h
  unfold sendSteps
  rw [List.drop_eq_getElem_cons hlt, List.map_cons, List.sum_cons]

/-- One entry of a list is replaced. -/
lemma sum_map_set {α : Type*} (f : α → ℕ) {l : List α} {k : ℕ} {a b : α} (h : l[k]? = some a) :
    ((l.set k b).map f).sum + f a = (l.map f).sum + f b := by
  induction l generalizing k with
  | nil => cases h
  | cons c l ih =>
    cases k with
    | zero =>
      obtain rfl : c = a := Option.some.inj h
      simp only [List.set_cons_zero, List.map_cons, List.sum_cons]
      omega
    | succ k =>
      have hrest := ih (k := k) (by simpa using h)
      simp only [List.set_cons_succ, List.map_cons, List.sum_cons]
      omega

/-! ## The chunks of the calls -/

/-- Calls with data become the chunks of the container, one each. -/
lemma bytes_addAll {calls : List Payload} (h : ∀ p ∈ calls, p.hasData = true) :
    (addAll calls).chunks.map Chunk.bytes = calls.map Payload.bytes := by
  induction calls using List.reverseRecOn with
  | nil => rfl
  | append_singleton calls p ih =>
    obtain ⟨hcalls, hp⟩ := List.forall_mem_append.mp h
    obtain ⟨hsize, hdata⟩ := Bool.and_eq_true_iff.mp (hp p List.mem_cons_self)
    obtain ⟨data, hdata⟩ := Option.isSome_iff_exists.mp hdata
    obtain ⟨hlength, hpush⟩ :=
      (addAll calls).addChunk_of_data (of_decide_eq_true hsize) hdata
    rw [addAll_concat, hpush, ChunkContainer.push, List.map_append, ih hcalls, List.map_append]
    rfl

/-- A chunk of the container is the one of its call. -/
lemma exists_call {calls made later : List Payload} (hcalls : calls = made ++ later)
    (h : ∀ p ∈ calls, p.hasData = true) {k : ℕ} {chunk : Chunk}
    (hchunk : (addAll made).chunks[k]? = some chunk) :
    ∃ p, calls[k]? = some p ∧ p.bytes = chunk.bytes := by
  have hmade : ∀ p ∈ made, p.hasData = true := fun p hp =>
    h p (hcalls ▸ List.mem_append_left later hp)
  have hbytes := congrArg (fun l : List ℕ => l[k]?) (bytes_addAll hmade)
  rw [List.getElem?_map, List.getElem?_map, hchunk, Option.map_some] at hbytes
  obtain ⟨p, hp, heq⟩ := Option.map_eq_some_iff.mp hbytes.symm
  refine ⟨p, ?_, heq⟩
  rw [hcalls, List.getElem?_append_left (List.getElem?_eq_some_iff.mp hp).1, hp]

/-- There are as many chunks as calls that were made. -/
lemma count_addAll {calls : List Payload} (h : ∀ p ∈ calls, p.hasData = true) :
    (addAll calls).count = calls.length := by
  have hlength := congrArg List.length (bytes_addAll h)
  rwa [List.length_map, List.length_map] at hlength

/-! ## What holds during a session -/

/-- A worker sends a chunk that exists, and has followed no bad pointer. -/
def TaskPc.Fits (container : ChunkContainer) : TaskPc → Prop
  | .sending current _ _ total =>
    ∃ chunk, container.chunks[current]? = some chunk ∧ total ≤ chunk.bytes
  | .fault _ => False
  | _ => True

namespace Subscription

variable {s t : Subscription} {calls : List Payload} {clients : ℕ} {sub : Subscriber}
  {pc : TaskPc} {sent : Option ℕ} {allocated : Bool} {k : ℕ} {task : Task} {e : SubscriptionEvent}

/-- The subscriber has not got the last chunk, and its former tasks are finished. -/
structure Due (s : Subscription) (j : ℕ) : Prop where
  loaded : (s.subscriber j).chunkLoaded < s.container.count
  finished : ∀ task ∈ s.tasks, task.subscriber = j → task.pc.unfinished = false

/-- What is known at a place of the session thread: `__send_chunks` meets only subscribers that have
not got the last chunk, and `finish_pending_chunks` only linked ones. -/
def Ready (s : Subscription) : SessionPc → Prop
  | .sendStart => ∀ j, (s.subscriber j).chunkLoaded < s.container.count
  | .sendLoop rest => rest.Nodup ∧ ∀ j ∈ rest, s.Due j
  | .selfLocked _ | .crashed => False
  | .finishing cur => ∀ j ∈ cur, j ∈ s.linked
  | .unsubscribing j tmp => j ∈ s.linked ∧ ∀ i ∈ tmp, i ∈ s.linked ∧ i ≠ j
  | .closing _ tmp => ∀ i ∈ tmp, i ∈ s.linked
  | .idle | .adding _ | .waitTest | .waiting => True

/-- The invariants of the other modules. -/
structure Known (calls : List Payload) (s : Subscription) : Prop where
  locks : Locks s
  placed : Guarded Placed s
  barrier : Barrier s
  sharing : Sharing calls s

/-- Only the session thread holds `manager->lock` across steps, nobody waits for itself, and no
connection is closed before the end. -/
structure Ongoing (clients : ℕ) (s : Subscription) : Prop where
  room : s.subscribers ≤ clients
  length : s.linked.length ≤ s.subscribers
  nodup : s.linked.Nodup
  lock : s.locked = s.pc.holds
  ready : s.Ready s.pc
  fits : ∀ task ∈ s.tasks, task.pc.Fits s.container
  opened : s.pc.tearing = false → ∀ j, (s.subscriber j).closed = false

/-- At the beginning there is one subscriber. -/
lemma ongoing_link (calls : List Payload) (fd : ℕ) (h : 1 ≤ clients) :
    Ongoing clients ((initial calls).link fd) where
  room := h
  length := Nat.le_refl 1
  nodup := List.nodup_singleton 0
  lock := rfl
  ready := trivial
  fits := nofun
  opened _ j := by
    rw [subscriber_link]
    split_ifs <;> rfl

/-- The other invariants hold as well. -/
lemma known_link (calls : List Payload) (fd : ℕ) : Known calls ((initial calls).link fd) where
  locks := (locks_initial calls).link fd
  placed := guarded_step (e := .subscribe fd true) (placed_local anyStep) (locks_initial calls)
    (placed_of_run (.refl : Run step anyStep (initial calls) (initial calls))) trivial rfl
  barrier := (barrier_initial calls).subscribe (locks_initial calls) fd true
  sharing := Begins.sharing ⟨rfl, rfl, rfl, List.cons_ne_nil _ _⟩

/-- While some task is unfinished, the session thread is in a round. -/
lemma Known.inRound (h : Known calls s) (hmem : task ∈ s.tasks)
    (hpc : task.pc.unfinished = true) : s.pc.inRound = true := by
  rw [← Bool.not_eq_false]
  intro hround
  exact List.countP_eq_zero.mp (h.barrier.calm hround) task hmem hpc

/-- No chunk is missing in the container. -/
lemma Known.exists_call (h : Known calls s) (hdata : ∀ p ∈ calls, p.hasData = true)
    {chunk : Chunk} (hchunk : s.container.chunks[k]? = some chunk) :
    ∃ p, calls[k]? = some p ∧ p.bytes = chunk.bytes := by
  obtain ⟨-, -, -, made, hcalls, hcontainer⟩ := h.sharing
  exact Proxy.exists_call hcalls hdata (hcontainer ▸ hchunk)

/-- The number of chunks fits an `int`, and the number of clients a `char`. -/
lemma Known.roundFits (h : Known calls s) (ho : Ongoing clients s)
    (hdata : ∀ p ∈ calls, p.hasData = true) (hlength : calls.length < 2 ^ 31)
    (hclients : clients ≤ 127) (e : SubscriptionEvent) : s.roundFits e = true := by
  cases e with
  | subscribe fd allocated => rfl
  | worker k sent => rfl
  | session allocated =>
    cases hpc : s.pc.beforeRound with
    | false => simp only [Subscription.roundFits, hpc, Bool.not_false, Bool.true_or]
    | true =>
      have htearing : s.pc.tearing = false := by
        cases hplace : s.pc <;> rw [hplace] at hpc <;> first | rfl | cases hpc
      have hsubs : s.subscribersCount ≤ 127 := by
        rw [h.barrier.count htearing]
        exact Nat.le_trans ho.length (Nat.le_trans ho.room hclients)
      have hcount : s.container.count < 2 ^ 31 := by
        obtain ⟨-, -, -, made, hcalls, hcontainer⟩ := h.sharing
        rw [hcontainer, count_addAll fun p hp => hdata p (hcalls ▸ List.mem_append_left _ hp)]
        rw [hcalls, List.length_append] at hlength
        exact Nat.lt_of_le_of_lt (Nat.le_add_right _ _) hlength
      simp only [Subscription.roundFits, decide_eq_true hsubs, decide_eq_true hcount,
        Bool.and_self, Bool.or_true]

/-! ### A step of a worker -/

/-- The chunk of a worker exists, and no subscriber was freed. -/
lemma Work.fits {sub' : Subscriber} {pc' : TaskPc} (hw : Work s sub sent pc sub' pc')
    (hplaced : pc.holds = true ∨ pc'.holds = true → Placed s.container sub pc)
    (hclosed : pc.unfinished = true → sub.closed = false) : pc'.Fits s.container := by
  cases hw with
  | freed hfreed =>
    rw [hclosed rfl] at hfreed
    cases hfreed
  | lost hchunk => exact absurd hchunk (hplaced (Or.inl rfl)).chunk_exists
  | @enter current i last hlt =>
    have hstep : Work s sub sent (.loop current i last) sub (.sending current i last 0) :=
      .enter hlt
    have hexists := ((hplaced (Or.inl rfl)).work hstep).chunk_exists
    obtain ⟨chunk, hchunk⟩ := Option.ne_none_iff_exists'.mp hexists
    exact ⟨chunk, hchunk, Nat.zero_le _⟩
  | accept hchunk hlt hsent hle => exact ⟨_, hchunk, hle⟩
  | _ => trivial

/-- A worker of another subscriber leaves it due. -/
lemma Due.worker {j : ℕ} (h : s.Due j) (hk : s.tasks[k]? = some task)
    (hw : Work s (s.subscriber task.subscriber) sent task.pc sub pc) :
    (s.worked k task sub pc).Due j := by
  have hmem : task ∈ s.tasks := List.mem_of_getElem? hk
  constructor
  · rw [subscriber_worked]
    split_ifs with heq
    · have hfinished := h.finished task hmem heq.symm
      rw [hw.frame.2 hfinished, ← heq]
      exact h.loaded
    · exact h.loaded
  · intro task' hmem' heq
    rcases List.mem_or_eq_of_mem_set hmem' with hold | rfl
    · exact h.finished task' hold heq
    · have hfinished := h.finished task hmem heq
      rcases hw.unfinished with ⟨hsame, -⟩ | ⟨htrue, -, -⟩
      · exact hsame.trans hfinished
      · rw [hfinished] at htrue
        cases htrue

/-- The workers do not disturb the session thread. -/
lemma Ready.worker (h : Known calls s) (hready : s.Ready s.pc) (hk : s.tasks[k]? = some task)
    (hw : Work s (s.subscriber task.subscriber) sent task.pc sub pc) :
    (s.worked k task sub pc).Ready s.pc := by
  cases hpc : s.pc with
  | sendStart =>
    rw [hpc] at hready
    intro j
    have hfinished : task.pc.unfinished = false := by
      rw [← Bool.not_eq_true]
      intro hun
      have hround := h.inRound (List.mem_of_getElem? hk) hun
      rw [hpc] at hround
      cases hround
    rw [subscriber_worked]
    split_ifs with heq
    · rw [hw.frame.2 hfinished]
      exact hready _
    · exact hready j
  | sendLoop rest =>
    rw [hpc] at hready
    exact ⟨hready.1, fun j hj => (hready.2 j hj).worker hk hw⟩
  | _ =>
    rw [hpc] at hready
    exact hready

/-- A step of a worker. -/
lemma Ongoing.worker (h : Known calls s) (ho : Ongoing clients s) (hk : s.tasks[k]? = some task)
    (hw : Work s (s.subscriber task.subscriber) sent task.pc sub pc) :
    Ongoing clients (s.worked k task sub pc) := by
  obtain ⟨hroom, hlen, hnodup, hlock, hready, hfits, hopened⟩ := ho
  have hmem : task ∈ s.tasks := List.mem_of_getElem? hk
  have hplaced := h.placed.before (placed_local anyStep) hk hw
  refine ⟨hroom, hlen, hnodup, hlock, hready.worker h hk hw, fun task' hmem' => ?_,
    fun htearing j => ?_⟩
  · rcases List.mem_or_eq_of_mem_set hmem' with hold | rfl
    · exact hfits task' hold
    · refine hw.fits hplaced fun hun => hopened ?_ _
      have hround := h.inRound hmem hun
      cases hpc : s.pc <;> rw [hpc] at hround <;> first | rfl | cases hround
  · rw [subscriber_worked]
    split_ifs
    · rw [hw.frame.1]
      exact hopened htearing _
    · exact hopened htearing j

/-! ### A step of the session thread -/

/-- In a loop over subscribers that are due, `__send_chunks` does not wait for itself. -/
lemma not_selfLocked_of_step {rest : List ℕ} (hready : s.Ready s.pc)
    (hst : s.sessionStep true = some t) : t.pc ≠ .selfLocked rest := by
  intro hpc'
  cases sessionMove_of_step hst with
  | @selfLock rest hpc =>
    rw [hpc] at hready
    cases rest with
    | nil =>
      rw [sessionStep, hpc] at hst
      cases hst
    | cons j rest =>
      have hne := Nat.ne_of_lt (hready.2 j List.mem_cons_self).loaded
      rw [sessionStep, hpc] at hst
      dsimp only at hst
      rw [if_neg hne, if_pos rfl] at hst
      cases hst
  | _ => cases hpc'

/-- A chunk is appended, which nobody has got. -/
lemma Known.loaded_lt_add (h : Known calls s) (hdata : ∀ p ∈ calls, p.hasData = true)
    {p : Payload} (hpc : s.pc = .adding p) (j : ℕ) :
    (s.subscriber j).chunkLoaded < (s.container.addChunk p true).count := by
  have hp : p.hasData = true := by
    obtain ⟨-, -, -, made, hcalls, -⟩ := h.sharing
    apply hdata
    rw [hcalls, hpc]
    exact List.mem_append_right _ List.mem_cons_self
  obtain ⟨hsize, hp⟩ := Bool.and_eq_true_iff.mp hp
  obtain ⟨data, hp⟩ := Option.isSome_iff_exists.mp hp
  obtain ⟨hlength, hpush⟩ := s.container.addChunk_of_data (of_decide_eq_true hsize) hp
  obtain ⟨pc, hplaced⟩ := h.placed.exists h.locks j
  rw [hpush]
  show _ < (s.container.chunks ++ [_]).length
  rw [List.length_append]
  exact Nat.lt_succ_of_le hplaced.loaded

/-- The next subscriber is linked, and it is another one. -/
lemma next_mem {i j : ℕ} (hnodup : s.linked.Nodup) (hnext : i ∈ s.next j) :
    i ∈ s.linked ∧ i ≠ j := by
  have hnext : s.linked[s.linked.idxOf j + 1]? = some i := hnext
  refine ⟨List.mem_of_getElem? hnext, ?_⟩
  rintro rfl
  obtain ⟨hlt, heq⟩ := List.getElem?_eq_some_iff.mp hnext
  have hidx := hnodup.idxOf_getElem _ hlt
  rw [heq] at hidx
  omega

/-- A step of the session thread. -/
lemma Ongoing.session (h : Known calls s) (ho : Ongoing clients s)
    (hdata : ∀ p ∈ calls, p.hasData = true) (hst : s.sessionStep true = some t) :
    Ongoing clients t := by
  have hself : t.pc ≠ .selfLocked s.pc.unpushed := not_selfLocked_of_step ho.ready hst
  have hsharing := h.sharing
  obtain ⟨hroom, hlen, hnodup, hlock, hready, hfits, hopened⟩ := ho
  cases sessionMove_of_step hst with
  | finish hpc htodo =>
    rw [hpc] at hlock
    exact ⟨hroom, hlen, hnodup, hlock, fun j hj => List.mem_of_head? hj, hfits, nofun⟩
  | crash hpc htodo hnone => exact absurd hnone (hsharing.linked (by rw [hpc]; rfl))
  | lock hpc htodo hlinked hfree =>
    rw [hpc] at hopened
    exact ⟨hroom, hlen, hnodup, rfl, trivial, hfits, hopened⟩
  | @add p hpc =>
    rw [hpc] at hlock hopened
    refine ⟨hroom, hlen, hnodup, hlock, h.loaded_lt_add hdata hpc, fun task hmem => ?_, hopened⟩
    have hold := hfits task hmem
    cases htask : task.pc with
    | sending current i last total =>
      rw [htask] at hold
      obtain ⟨chunk, hchunk, hle⟩ := hold
      exact ⟨chunk, ChunkContainer.getElem?_addChunk hchunk, hle⟩
    | fault holding => rw [htask] at hold; exact hold
    | _ => trivial
  | start hpc =>
    rw [hpc] at hlock hready hopened
    refine ⟨hroom, hlen, hnodup, hlock, ⟨hnodup, fun j _ => ⟨hready j, fun task hmem _ => ?_⟩⟩,
      hfits, hopened⟩
    rw [← Bool.not_eq_true]
    intro hun
    have hround := h.inRound hmem hun
    rw [hpc] at hround
    cases hround
  | pushed hpc =>
    rw [hpc] at hlock hopened
    exact ⟨hroom, hlen, hnodup, hlock, trivial, hfits, hopened⟩
  | @selfLock rest hpc =>
    rw [hpc] at hself
    exact absurd rfl hself
  | @push j rest hpc hload =>
    rw [hpc] at hlock hready hopened
    obtain ⟨hrest, hdue⟩ := hready
    obtain ⟨hj, hrest⟩ := List.nodup_cons.mp hrest
    refine ⟨hroom, hlen, hnodup, hlock, ⟨hrest, fun i hi => ?_⟩, fun task hmem => ?_, hopened⟩
    · obtain ⟨hloaded, hfinished⟩ := hdue i (List.mem_cons_of_mem j hi)
      refine ⟨hloaded, fun task hmem heq => ?_⟩
      rcases List.mem_append.mp hmem with hold | hnew
      · exact hfinished task hold heq
      · rw [List.mem_singleton.mp hnew] at heq
        obtain rfl : j = i := heq
        exact absurd hi hj
    · rcases List.mem_append.mp hmem with hold | hnew
      · exact hfits task hold
      · rw [List.mem_singleton.mp hnew]
        trivial
  | wait hpc hflag =>
    rw [hpc] at hopened
    exact ⟨hroom, hlen, hnodup, rfl, trivial, hfits, hopened⟩
  | return_ hpc hflag =>
    rw [hpc] at hopened
    exact ⟨hroom, hlen, hnodup, rfl, trivial, hfits, hopened⟩
  | wake hpc hfree =>
    rw [hpc] at hopened
    exact ⟨hroom, hlen, hnodup, rfl, trivial, hfits, hopened⟩
  | @visit j hpc =>
    rw [hpc] at hlock hready
    exact ⟨hroom, hlen, hnodup, hlock, ⟨hready j rfl, fun i hi => next_mem hnodup hi⟩, hfits,
      nofun⟩
  | @unlink j tmp hpc hfree =>
    rw [hpc] at hready
    refine ⟨hroom, Nat.le_trans List.length_erase_le hlen, hnodup.erase j, rfl, fun i hi => ?_,
      hfits, nofun⟩
    obtain ⟨hmem, hne⟩ := hready.2 i hi
    exact (List.mem_erase_of_ne hne).mpr hmem
  | @close j tmp hpc hfree =>
    rw [hpc] at hready
    exact ⟨hroom, hlen, hnodup, rfl, hready, hfits, nofun⟩

/-! ### A new client -/

/-- A new client is linked behind the others. -/
lemma Ongoing.subscribe (h : Known calls s) (ho : Ongoing clients s) (hfree : s.locked = false)
    (hroom' : s.subscribers < clients) (fd : ℕ) : Ongoing clients (s.link fd) := by
  obtain ⟨hroom, hlen, hnodup, hlock, hready, hfits, hopened⟩ := ho
  rw [hfree] at hlock
  have hlinked : ∀ j ∈ s.linked, j ∈ (s.link fd).linked := fun j hj =>
    List.mem_append_left _ hj
  refine ⟨hroom', ?_, ?_, hfree.trans hlock, ?_, hfits, fun htearing j => ?_⟩
  · show (s.linked ++ [s.subscribers]).length ≤ s.subscribers + 1
    rw [List.length_append]
    exact Nat.succ_le_succ hlen
  · refine hnodup.append (List.nodup_singleton _) ?_
    rw [List.disjoint_singleton]
    exact fun hmem => Nat.lt_irrefl _ (h.locks.listed _ hmem)
  · show (s.link fd).Ready s.pc
    cases hpc : s.pc with
    | finishing cur =>
      rw [hpc] at hready
      exact fun j hj => hlinked j (hready j hj)
    | unsubscribing j tmp =>
      rw [hpc] at hready
      exact ⟨hlinked j hready.1, fun i hi => ⟨hlinked i (hready.2 i hi).1, (hready.2 i hi).2⟩⟩
    | crashed => exact absurd hpc h.sharing.alive
    | idle | waiting => trivial
    | adding | sendStart | sendLoop | selfLocked | waitTest | closing =>
      rw [hpc] at hlock
      cases hlock
  · rw [subscriber_link]
    split_ifs
    · rfl
    · exact hopened htearing j

/-! ## Each step leaves less to do -/

/-- A step of a worker, with those that a signal leads to. -/
lemma Work.stepsLeft {sub' : Subscriber} {pc' : TaskPc} (hw : Work s sub sent pc sub' pc')
    (hfits : pc.Fits s.container) (hfits' : pc'.Fits s.container) (hsent : sent ≠ some 0)
    (hcalls : ∀ (k : ℕ) (chunk : Chunk), s.container.chunks[k]? = some chunk →
      ∃ p : Payload, calls[k]? = some p ∧ p.bytes = chunk.bytes) :
    pc'.stepsLeft calls + 1 + 2 * pc.signals.toNat ≤ pc.stepsLeft calls := by
  have hchunk : ∀ {k : ℕ} {chunk : Chunk}, s.container.chunks[k]? = some chunk →
      sendSteps calls k = chunk.bytes + 2 + sendSteps calls (k + 1) := by
    intro k chunk hchunk
    obtain ⟨p, hp, hbytes⟩ := hcalls k chunk hchunk
    rw [sendSteps_eq hp, hbytes]
  cases hw with
  | freed | lost => exact hfits'.elim
  | @begin current hget =>
    have hle := sendSteps_le calls current
    simp only [TaskPc.stepsLeft, TaskPc.signals, Bool.toNat_false]
    omega
  | @fail current i last total chunk hget hlt hnone =>
    have hsteps := hchunk hget
    simp only [TaskPc.stepsLeft, TaskPc.signals, Bool.toNat_false]
    omega
  | @accept current i last total n chunk hget hlt hsome hle =>
    have hsteps := hchunk hget
    have hpos : n ≠ 0 := fun hzero => hsent (hzero ▸ hsome)
    simp only [TaskPc.stepsLeft, TaskPc.signals, Bool.toNat_false]
    omega
  | @load current i last total chunk hget hge =>
    have hsteps := hchunk hget
    obtain ⟨chunk', hget', hle⟩ := hfits
    obtain rfl := Option.some.inj (hget.symm.trans hget')
    simp only [TaskPc.stepsLeft, TaskPc.signals, Bool.toNat_false]
    omega
  | acquire | nothing | enter | exit | decrement | release =>
    simp only [TaskPc.stepsLeft, TaskPc.signals, Bool.toNat_false, Bool.toNat_true]
    omega

/-- The same for all tasks. -/
lemma taskSteps_worked (h : Known calls s) (ho : Ongoing clients s)
    (hdata : ∀ p ∈ calls, p.hasData = true) (hk : s.tasks[k]? = some task)
    (hw : Work s (s.subscriber task.subscriber) sent task.pc sub pc) (hsent : sent ≠ some 0) :
    (s.worked k task sub pc).taskSteps calls + 1 + 2 * task.pc.signals.toNat ≤
      s.taskSteps calls := by
  have hmem' : { task with pc := pc } ∈ (s.worked k task sub pc).tasks := by
    apply List.mem_of_getElem? (i := k)
    rw [tasks_worked hk, if_pos rfl]
  have hfits' : pc.Fits s.container := (ho.worker h hk hw).fits _ hmem'
  have hsteps := hw.stepsLeft (ho.fits task (List.mem_of_getElem? hk)) hfits' hsent
    fun _ _ => h.exists_call hdata
  have hsum := sum_map_set (fun task : Task => task.pc.stepsLeft calls)
    (b := { task with pc := pc }) hk
  dsimp only at hsum
  show ((s.tasks.set k { task with pc := pc }).map fun task => task.pc.stepsLeft calls).sum + 1 +
    2 * task.pc.signals.toNat ≤ (s.tasks.map fun task => task.pc.stepsLeft calls).sum
  omega

/-- A step of the session thread, which pushes tasks and may go to sleep again after a wake-up. -/
lemma stepsLeft_session (ho : Ongoing clients s) (ho' : Ongoing clients t)
    (hst : s.sessionStep true = some t) :
    t.taskSteps calls + t.pc.stepsLeft calls clients t.todo.length t.linked.length + 1 ≤
      s.taskSteps calls + s.pc.stepsLeft calls clients s.todo.length s.linked.length +
        2 * s.pc.sleeps.toNat := by
  have hready' := ho'.ready
  cases sessionMove_of_step hst with
  | crash | selfLock => exact hready'.elim
  | finish hpc htodo =>
    rw [hpc]
    show s.taskSteps calls + _ + 1 ≤ _
    cases s.linked.head? <;>
      simp only [goto, SessionPc.stepsLeft, SessionPc.sleeps, Bool.toNat_false] <;> omega
  | lock hpc htodo hlinked hfree =>
    rw [hpc, htodo, List.length_cons]
    show s.taskSteps calls + _ + 1 ≤ _
    simp only [goto, setLocked, SessionPc.stepsLeft, SessionPc.sleeps, Bool.toNat_false,
      roundSteps, Nat.succ_mul]
    omega
  | start hpc =>
    have hlen := Nat.mul_le_mul_right (sendSteps calls 0 + 8) (Nat.le_trans ho.length ho.room)
    rw [hpc]
    show s.taskSteps calls + _ + 1 ≤ _
    simp only [goto, startRound, SessionPc.stepsLeft, SessionPc.sleeps, Bool.toNat_false]
    omega
  | @push j rest hpc hload =>
    have hnew : ((s.pushTask j).goto (.sendLoop rest)).taskSteps calls =
        s.taskSteps calls + (sendSteps calls 0 + 7) := by
      show ((s.tasks ++ [_]).map _).sum = _
      rw [List.map_append, List.sum_append]
      rfl
    rw [hpc, hnew]
    simp only [goto, pushTask, SessionPc.stepsLeft, SessionPc.sleeps, Bool.toNat_false,
      List.length_cons, Nat.succ_mul]
    omega
  | @visit j hpc =>
    have hready := ho.ready
    rw [hpc] at hready
    have hpos := List.length_pos_of_mem (hready j rfl)
    rw [hpc]
    show s.taskSteps calls + _ + 1 ≤ _
    simp only [goto, SessionPc.stepsLeft, SessionPc.sleeps, Bool.toNat_false]
    omega
  | @unlink j tmp hpc hfree =>
    have hready := ho.ready
    rw [hpc] at hready
    have hlen := List.length_erase_of_mem hready.1
    have hpos := List.length_pos_of_mem hready.1
    rw [hpc]
    show s.taskSteps calls + _ + 1 ≤ _
    simp only [goto, setLocked, unlink, SessionPc.stepsLeft, SessionPc.sleeps, Bool.toNat_false,
      hlen]
    omega
  | @close j tmp hpc hfree =>
    rw [hpc]
    show s.taskSteps calls + _ + 1 ≤ _
    cases tmp <;>
      simp only [goto, setLocked, close, SessionPc.stepsLeft, SessionPc.sleeps,
        Bool.toNat_false] <;> omega
  | add hpc | pushed hpc | wait hpc | return_ hpc | wake hpc =>
    rw [hpc]
    show s.taskSteps calls + _ + 1 ≤ _
    simp only [goto, setLocked, SessionPc.stepsLeft, SessionPc.sleeps, Bool.toNat_false,
      Bool.toNat_true, List.length_nil]
    omega

/-! ## Somebody can go on -/

/-- A worker that holds the lock of its subscriber can make its next step, when it need not wait for
`manager->lock`. -/
lemma exists_step_of_holds (ho : Ongoing clients s) (hk : s.tasks[k]? = some task)
    (hholds : task.pc.holds = true) (hfree : task.pc.unfinished = true → s.locked = false) :
    ∃ k, (s.workerStep k (some 1)).isSome = true := by
  suffices hwork : ∃ next, s.work (s.subscriber task.subscriber) (some 1) task.pc = some next by
    obtain ⟨⟨sub, pc⟩, hnext⟩ := hwork
    refine ⟨k, ?_⟩
    rw [workerStep, hk]
    dsimp only
    rw [hnext]
    rfl
  have hfits := ho.fits task (List.mem_of_getElem? hk)
  cases hpc : task.pc with
  | queued | done => rw [hpc] at hholds; cases hholds
  | fault holding => rw [hpc] at hfits; exact hfits.elim
  | locked =>
    rw [work]
    cases s.container.getChunk (toSize (toInt (s.subscriber task.subscriber).chunkLoaded)) with
    | none => exact ⟨_, rfl⟩
    | some current => exact ⟨_, rfl⟩
  | loop current i last =>
    rw [work]
    split_ifs
    · exact ⟨_, rfl⟩
    · exact ⟨_, rfl⟩
  | sending current i last total =>
    rw [hpc] at hfits
    obtain ⟨chunk, hchunk, -⟩ := hfits
    rw [work, hchunk]
    dsimp only
    by_cases hlt : total < chunk.bytes
    · rw [if_pos hlt, if_pos (Nat.succ_le_of_lt hlt)]
      exact ⟨_, rfl⟩
    · rw [if_neg hlt]
      exact ⟨_, rfl⟩
  | finishing failed =>
    rw [work, hfree (by rw [hpc]; rfl)]
    exact ⟨_, rfl⟩
  | unlocking failed => exact ⟨_, rfl⟩

/-- While a task is unfinished and `manager->lock` is free, some worker can make a step: the one of
the task, or the one that holds the lock that it waits for. -/
lemma exists_step_of_unfinished (h : Known calls s) (ho : Ongoing clients s)
    (hfree : s.locked = false) (hk : s.tasks[k]? = some task)
    (hun : task.pc.unfinished = true) : ∃ k, (s.workerStep k (some 1)).isSome = true := by
  have hmem : task ∈ s.tasks := List.mem_of_getElem? hk
  cases hpc : task.pc with
  | queued =>
    have hclosed : (s.subscriber task.subscriber).closed = false := by
      apply ho.opened
      have hround := h.inRound hmem hun
      cases hplace : s.pc <;> rw [hplace] at hround <;> first | rfl | cases hround
    cases hlocked : (s.subscriber task.subscriber).locked with
    | true =>
      obtain ⟨k', task', hk', hholds, -⟩ := h.locks.holder _ hlocked
      exact exists_step_of_holds ho hk' hholds fun _ => hfree
    | false =>
      refine ⟨k, ?_⟩
      rw [workerStep, hk]
      dsimp only
      rw [hpc, work, hclosed, hlocked]
      rfl
  | done | unlocking => rw [hpc] at hun; cases hun
  | fault holding =>
    have hfits := ho.fits task hmem
    rw [hpc] at hfits
    exact hfits.elim
  | locked | loop | sending | finishing =>
    exact exists_step_of_holds ho hk (by rw [hpc]; rfl) fun _ => hfree

/-- When the session thread cannot make a step, and need not be woken up, a worker can. -/
lemma exists_step_of_blocked (h : Known calls s) (ho : Ongoing clients s)
    (hend : s.pc.ended = false) (hblocked : s.sessionStep true = none) :
    ∃ k, (s.workerStep k (some 1)).isSome = true := by
  have hlock := ho.lock
  have hready := ho.ready
  cases hpc : s.pc with
  | idle =>
    rw [hpc] at hlock
    have hlinked := h.sharing.linked (by rw [hpc]; rfl)
    rw [sessionStep, hpc] at hblocked
    cases htodo : s.todo with
    | nil =>
      rw [htodo] at hblocked
      cases hblocked
    | cons p todo =>
      rw [htodo] at hblocked
      dsimp only at hblocked
      rw [if_neg hlinked, hlock] at hblocked
      cases hblocked
  | closing j tmp =>
    -- no task is unfinished any more, so the lock is about to be released
    rw [sessionStep, hpc] at hblocked
    have hlocked : (s.subscriber j).locked = true := by
      by_contra hne
      dsimp only at hblocked
      rw [if_neg hne] at hblocked
      cases hblocked
    obtain ⟨k, task, hk, hholds, -⟩ := h.locks.holder j hlocked
    refine exists_step_of_holds ho hk hholds fun hun => ?_
    have hround := h.inRound (List.mem_of_getElem? hk) hun
    rw [hpc] at hround
    cases hround
  | sendLoop rest =>
    rw [hpc] at hready
    cases rest with
    | nil =>
      rw [sessionStep, hpc] at hblocked
      cases hblocked
    | cons j rest =>
      have hne := Nat.ne_of_lt (hready.2 j List.mem_cons_self).loaded
      rw [sessionStep, hpc] at hblocked
      dsimp only at hblocked
      rw [if_neg hne, if_pos rfl] at hblocked
      cases hblocked
  | finishing cur =>
    cases cur with
    | none =>
      rw [hpc] at hend
      cases hend
    | some j =>
      rw [sessionStep, hpc] at hblocked
      cases hblocked
  | waiting | unsubscribing =>
    rw [hpc] at hlock
    rw [sessionStep, hpc] at hblocked
    dsimp only at hblocked
    rw [hlock] at hblocked
    cases hblocked
  | selfLocked | crashed =>
    rw [hpc] at hready
    exact hready.elim
  | adding | sendStart | waitTest =>
    rw [sessionStep, hpc] at hblocked
    cases hblocked

end Subscription

/-! ## The session -/

namespace SessionState

variable {s t : SessionState} {calls : List Payload} {clients : ℕ} {e : SessionEvent}

/-- What holds during a session; when the flag has come down to zero, the session thread was
told. -/
structure Sound (calls : List Payload) (clients : ℕ) (s : SessionState) : Prop where
  known : s.manager.Known calls
  ongoing : s.manager.Ongoing clients
  told : s.manager.pc.sleeps = true → s.manager.flag ≤ 0 → s.signalled = true

/-- At the beginning there is one client. -/
lemma sound_start (calls : List Payload) (fd : ℕ) (h : 1 ≤ clients) :
    Sound calls clients (start calls fd) where
  known := Subscription.known_link calls fd
  ongoing := Subscription.ongoing_link calls fd h
  told := nofun

/-- What a step is. -/
lemma step_cases (hst : s.step e = some t) :
    (∃ e' : SubscriptionEvent, e = .choice e' ∧ (s.asleep = true → e'.isSession = false) ∧
      s.manager.step e' = some t.manager ∧ t.signalled = s.signalledAfter e') ∨
    (e = .spuriousWakeUp ∧ s.asleep = true ∧
      s.manager.step (.session true) = some t.manager ∧ t.signalled = false) := by
  cases e with
  | choice e =>
    rw [step] at hst
    split_ifs at hst with hsleep
    obtain ⟨m, hm, rfl⟩ := Option.map_eq_some_iff.mp hst
    refine Or.inl ⟨e, rfl, fun hasleep => ?_, hm, rfl⟩
    rwa [hasleep, Bool.true_and, Bool.not_eq_true] at hsleep
  | spuriousWakeUp =>
    rw [step] at hst
    split_ifs at hst with hsleep
    obtain ⟨m, hm, rfl⟩ := Option.map_eq_some_iff.mp hst
    exact Or.inr ⟨rfl, hsleep, hm, rfl⟩

/-- The session thread goes to sleep when the flag is positive, and it brings no new client. -/
lemma sessionMove_frame {m m' : Subscription} {allocated : Bool}
    (hm : m.SessionMove allocated m') :
    (m'.pc.sleeps = true → 0 < m'.flag) ∧ m'.subscribers = m.subscribers := by
  cases hm with
  | wait hpc hflag => exact ⟨fun _ => hflag, rfl⟩
  | _ => exact ⟨nofun, rfl⟩

/-- No round begins while the session thread sleeps. -/
lemma roundFits_of_asleep (h : s.asleep = true) : s.manager.roundFits (.session true) = true := by
  obtain ⟨hsleeps, -⟩ := Bool.and_eq_true_iff.mp h
  rw [Subscription.roundFits, SessionPc.eq_waiting hsleeps]
  rfl

/-- A new client makes at most three steps more. -/
lemma stepsLeft_succ (calls : List Payload) (clients rounds linked : ℕ) (pc : SessionPc) :
    pc.stepsLeft calls clients rounds (linked + 1) ≤
      pc.stepsLeft calls clients rounds linked + 3 := by
  cases pc with
  | finishing cur =>
    cases cur <;> simp only [SessionPc.stepsLeft] <;> omega
  | _ =>
    simp only [SessionPc.stepsLeft]
    omega

section Steps

variable (hdata : ∀ p ∈ calls, p.hasData = true)

include hdata

/-- A step of the manager keeps its invariants. -/
lemma Sound.manager_step (h : Sound calls clients s) {e : SubscriptionEvent} {m : Subscription}
    (hok : s.orderly clients (.choice e) = true) (hfits : s.manager.roundFits e = true)
    (hst : s.manager.step e = some m) : m.Known calls ∧ m.Ongoing clients := by
  have hknown := h.known
  have hongoing := h.ongoing
  obtain ⟨hlocks, hplaced, hbarrier, hsharing⟩ := h.known
  have hlocks' := Subscription.locks_step hlocks hst
  have hplaced' := Subscription.guarded_step (Subscription.placed_local anyStep) hlocks hplaced
    trivial hst
  have hbarrier' := Subscription.barrier_step hlocks hplaced hbarrier hfits hst
  cases e with
  | subscribe fd allocated =>
    obtain ⟨rfl, hroom⟩ := Bool.and_eq_true_iff.mp hok
    have hsharing' := hsharing.step rfl hst
    rw [Subscription.step] at hst
    split_ifs at hst with hlocked
    obtain rfl : s.manager.subscribe fd true = m := Option.some.inj hst
    exact ⟨⟨hlocks', hplaced', hbarrier', hsharing'⟩,
      hongoing.subscribe hknown (Bool.eq_false_iff.mpr hlocked) (of_decide_eq_true hroom) fd⟩
  | session allocated =>
    obtain rfl : allocated = true := hok
    exact ⟨⟨hlocks', hplaced', hbarrier', hsharing.step rfl hst⟩,
      hongoing.session hknown hdata hst⟩
  | worker k sent =>
    obtain ⟨task, sub, pc, hk, hw, rfl⟩ := Subscription.workerStep_eq_some hst
    exact ⟨⟨hlocks', hplaced', hbarrier', hsharing.linked, hsharing.alive, hsharing.ended,
      hsharing.made⟩,
      hongoing.worker hknown hk hw⟩

/-- A step keeps the session sound. -/
lemma Sound.step (h : Sound calls clients s) (hok : s.orderly clients e = true)
    (hfits : s.roundFits e = true) (hst : s.step e = some t) : Sound calls clients t := by
  rcases step_cases hst with ⟨e, rfl, -, hm, hsignalled⟩ | ⟨rfl, hasleep, hm, -⟩
  · obtain ⟨hknown, hongoing⟩ := h.manager_step hdata hok hfits hm
    refine ⟨hknown, hongoing, fun hsleeps hflag => ?_⟩
    cases e with
    | subscribe fd allocated =>
      obtain ⟨rfl, -⟩ := Bool.and_eq_true_iff.mp hok
      rw [Subscription.step] at hm
      split_ifs at hm
      obtain heq : s.manager.subscribe fd true = t.manager := Option.some.inj hm
      rw [← heq] at hsleeps hflag
      rw [hsignalled]
      exact h.told hsleeps hflag
    | session allocated =>
      have hpos := (sessionMove_frame (Subscription.sessionMove_of_step hm)).1 hsleeps
      exact absurd hflag (Int.not_le.mpr hpos)
    | worker k sent =>
      obtain ⟨task, sub, pc, hk, hw, heq⟩ := Subscription.workerStep_eq_some hm
      rw [heq] at hsleeps hflag
      rw [hsignalled, signalledAfter, hk, Option.any_some]
      cases hsignals : task.pc.signals with
      | true => exact Bool.or_true _
      | false =>
        rw [Bool.or_false]
        have hsame : (s.manager.worked k task sub pc).flag = s.manager.flag := by
          show s.manager.flagAfter task.pc = _
          cases hpc : task.pc <;> rw [hpc] at hsignals <;> first | rfl | cases hsignals
        exact h.told hsleeps (hsame ▸ hflag)
  · obtain ⟨hknown, hongoing⟩ := h.manager_step hdata (e := .session true) rfl
      (roundFits_of_asleep hasleep) hm
    refine ⟨hknown, hongoing, fun hsleeps hflag => ?_⟩
    have hpos := (sessionMove_frame (Subscription.sessionMove_of_step hm)).1 hsleeps
    exact absurd hflag (Int.not_le.mpr hpos)

/-- A step of the session thread lowers the potential, apart from what a wake-up costs. -/
lemma Sound.session_potential (h : Sound calls clients s)
    (hfits : s.manager.roundFits (.session true) = true)
    (hm : s.manager.step (.session true) = some t.manager) (hsignalled : t.signalled = false) :
    t.potential calls clients + 1 + 2 * (s.manager.pc.sleeps && s.signalled).toNat ≤
      s.potential calls clients + 2 * s.manager.pc.sleeps.toNat := by
  obtain ⟨hknown, hongoing⟩ := h.manager_step hdata (e := .session true) rfl hfits hm
  have hsteps : t.manager.taskSteps calls +
      t.manager.pc.stepsLeft calls clients t.manager.todo.length t.manager.linked.length + 1 ≤ _ :=
    Subscription.stepsLeft_session h.ongoing hongoing hm
  have hsame := (sessionMove_frame (Subscription.sessionMove_of_step hm)).2
  unfold potential
  rw [hsame, hsignalled, Bool.and_false, Bool.toNat_false]
  omega

/-- Each step lowers the potential, apart from spurious wake-ups. -/
lemma Sound.potential_step (h : Sound calls clients s) (hok : s.orderly clients e = true)
    (hfits : s.roundFits e = true) (hst : s.step e = some t) :
    t.potential calls clients + 1 ≤ s.potential calls clients + 2 * e.isSpurious.toNat := by
  rcases step_cases hst with ⟨e, rfl, hasleep, hm, hsignalled⟩ | ⟨rfl, hasleep, hm, hsignalled⟩
  · cases e with
    | subscribe fd allocated =>
      obtain ⟨rfl, hroom⟩ := Bool.and_eq_true_iff.mp hok
      have hroom := of_decide_eq_true hroom
      rw [Subscription.step] at hm
      split_ifs at hm
      obtain heq : s.manager.subscribe fd true = t.manager := Option.some.inj hm
      have hsteps := stepsLeft_succ calls clients s.manager.todo.length s.manager.linked.length
        s.manager.pc
      have hlinked : (s.manager.linked ++ [s.manager.subscribers]).length =
          s.manager.linked.length + 1 := List.length_append
      unfold potential
      rw [hsignalled, ← heq]
      show 4 * (clients - (s.manager.subscribers + 1)) + s.manager.taskSteps calls +
        s.manager.pc.stepsLeft calls clients s.manager.todo.length
          (s.manager.linked ++ [s.manager.subscribers]).length + 2 * _ + 1 ≤ _
      rw [hlinked]
      show _ + 2 * (s.manager.pc.sleeps && s.signalled).toNat + 1 ≤ _
      omega
    | session allocated =>
      obtain rfl : allocated = true := hok
      have hsteps := h.session_potential hdata hfits hm hsignalled
      -- who sleeps was signalled
      cases hsleeps : s.manager.pc.sleeps with
      | false =>
        rw [hsleeps, Bool.false_and] at hsteps
        exact Nat.le_trans (Nat.le_add_right _ _) hsteps
      | true =>
        have hawake : s.signalled = true := by
          by_contra hnot
          have hfalse : SubscriptionEvent.isSession (.session true) = false := hasleep (by
            rw [asleep, hsleeps, Bool.eq_false_iff.mpr hnot]
            rfl)
          cases hfalse
        rw [hsleeps, hawake, Bool.true_and] at hsteps
        exact Nat.le_of_add_le_add_right hsteps
    | worker k sent =>
      obtain ⟨task, sub, pc, hk, hw, heq⟩ := Subscription.workerStep_eq_some hm
      have hsteps := Subscription.taskSteps_worked h.known h.ongoing hdata hk hw
        (of_decide_eq_true hok)
      have hafter : t.signalled = (s.signalled || task.pc.signals) := by
        rw [hsignalled, signalledAfter, hk, Option.any_some]
      unfold potential
      rw [hafter, heq]
      show 4 * (clients - s.manager.subscribers) +
        (s.manager.worked k task sub pc).taskSteps calls +
        s.manager.pc.stepsLeft calls clients s.manager.todo.length s.manager.linked.length +
        2 * (s.manager.pc.sleeps && (s.signalled || task.pc.signals)).toNat + 1 ≤ _
      have hbool : (s.manager.pc.sleeps && (s.signalled || task.pc.signals)).toNat ≤
          (s.manager.pc.sleeps && s.signalled).toNat + task.pc.signals.toNat := by
        cases s.manager.pc.sleeps <;> cases s.signalled <;> cases task.pc.signals <;> decide
      omega
  · have hsteps := h.session_potential hdata (roundFits_of_asleep hasleep) hm hsignalled
    obtain ⟨hsleeps, hnot⟩ := Bool.and_eq_true_iff.mp hasleep
    rw [hsleeps] at hsteps
    exact Nat.le_trans (Nat.le_add_right _ _) hsteps

/-- In a run whose rounds fit the invariants hold, and the number of its steps is bounded, apart
from two for each spurious wake-up. -/
lemma sound_of_run (fd : ℕ) (hpos : 1 ≤ clients) {ok : SessionState → SessionEvent → Prop}
    [∀ s e, Decidable (ok s e)]
    (hok : ∀ s e, Sound calls clients s → ok s e →
      s.orderly clients e = true ∧ s.roundFits e = true)
    {es : List SessionEvent} (h : execWhere step ok (start calls fd) es = some s) :
    Sound calls clients s ∧
      es.length ≤
        calls.length * (clients * ((calls.map fun p => p.bytes + 2).sum + 8) + 5) + 4 * clients +
          2 * es.countP SessionEvent.isSpurious := by
  have hstart : Sound calls clients (start calls fd) := sound_start calls fd hpos
  refine ⟨?_, ?_⟩
  · exact (Run.of_execWhere h).invariant hstart fun s e _ hs hstep hst =>
      hs.step hdata (hok s e hs hstep).1 (hok s e hs hstep).2 hst
  · have hbound : es.length + s.potential calls clients ≤ _ +
        granted step (fun _ e => 2 * e.isSpurious.toNat) (start calls fd) es :=
      length_le_of_potential hstart (fun s e _ hs hstep hst =>
        ⟨hs.step hdata (hok s e hs hstep).1 (hok s e hs hstep).2 hst,
          hs.potential_step hdata (hok s e hs hstep).1 (hok s e hs hstep).2 hst⟩) h
    have hgranted : granted step (fun _ e => 2 * e.isSpurious.toNat) (start calls fd) es ≤
        2 * es.countP SessionEvent.isSpurious :=
      granted_le (fun _ _ => Nat.le_refl _) (start calls fd) es
    have hpotential : (start calls fd).potential calls clients =
        4 * (clients - 1) + 0 + (calls.length * roundSteps calls clients + (3 * 1 + 1)) + 0 := rfl
    have hround : roundSteps calls clients =
        clients * ((calls.map fun p => p.bytes + 2).sum + 8) + 5 := rfl
    rw [← hround]
    omega

end Steps

/-! ## The result -/

/-- A worker makes its step whether or not the session thread sleeps. -/
lemma goesOn_of_worker {k : ℕ} (h : (s.manager.workerStep k (some 1)).isSome = true) :
    s.GoesOn := by
  refine Or.inr ⟨k, ?_⟩
  show (if s.asleep && false then none else _).isSome = true
  rw [Bool.and_false, if_neg Bool.false_ne_true, Option.isSome_map]
  exact h

/-- Until the session has ended, the session thread or a worker can go on. -/
lemma Sound.goesOn (h : Sound calls clients s) (hend : s.manager.pc.ended = false) :
    s.GoesOn := by
  cases hasleep : s.asleep with
  | true =>
    obtain ⟨hsleeps, hnot⟩ := Bool.and_eq_true_iff.mp hasleep
    have hpc : s.manager.pc = .waiting := SessionPc.eq_waiting hsleeps
    have hflag := h.known.barrier.flag
    have hpending : 0 < s.manager.pending := by
      by_contra hzero
      rw [hpc] at hflag
      have htold := h.told hsleeps (by
        rw [hflag, Nat.eq_zero_of_not_pos hzero]
        exact Int.le_refl 0)
      rw [htold] at hnot
      cases hnot
    obtain ⟨task, hmem, hun⟩ := List.countP_pos_iff.mp hpending
    obtain ⟨k, hk⟩ := List.getElem?_of_mem hmem
    have hfree : s.manager.locked = false := by
      rw [h.ongoing.lock, hpc]
      rfl
    obtain ⟨k', hstep⟩ :=
      Subscription.exists_step_of_unfinished h.known h.ongoing hfree hk hun
    exact goesOn_of_worker hstep
  | false =>
    cases hstep : s.manager.sessionStep true with
    | none =>
      obtain ⟨k, hstep⟩ := Subscription.exists_step_of_blocked h.known h.ongoing hend hstep
      exact goesOn_of_worker hstep
    | some m =>
      refine Or.inl ?_
      rw [SessionState.step, hasleep, Bool.false_and, if_neg Bool.false_ne_true,
        Option.isSome_map]
      exact Option.isSome_of_eq_some hstep

/-- Nobody waits for a lock that it holds, or has followed a bad pointer. -/
def Healthy (s : SessionState) : Prop :=
  s.manager.pc ≠ .crashed ∧ (∀ rest, s.manager.pc ≠ .selfLocked rest) ∧
    ∀ task ∈ s.manager.tasks, ∀ holding, task.pc ≠ .fault holding

/-- With at most 127 clients every round fits. -/
lemma Sound.roundFits (h : Sound calls clients s) (hdata : ∀ p ∈ calls, p.hasData = true)
    (hlength : calls.length < 2 ^ 31) (hclients : clients ≤ 127) (e : SessionEvent) :
    s.roundFits e = true := by
  cases e with
  | choice e => exact h.known.roundFits h.ongoing hdata hlength hclients e
  | spuriousWakeUp => rfl

/-- The invariants say so. -/
lemma Sound.healthy (h : Sound calls clients s) : s.Healthy := by
  refine ⟨h.known.sharing.alive, fun rest hpc => ?_, fun task hmem holding hpc => ?_⟩
  · have hready := h.ongoing.ready
    rw [hpc] at hready
    exact hready
  · have hfits := h.ongoing.fits task hmem
    rw [hpc] at hfits
    exact hfits

/-- A session whose calls of `add_chunk` have data, with 1 to 127 clients who may join at any time,
in every interleaving and for every result of `send`: nobody waits for itself; until the session has
ended, the session thread or a worker can go on without a spurious wake-up; it ends with
`manager->lock` free and no task that still needs the manager; and the number of its steps is
bounded, apart from two for each spurious wake-up. -/
theorem session_ends (fd : ℕ) (hdata : ∀ p ∈ calls, p.hasData = true)
    (hlength : calls.length < 2 ^ 31) (hpos : 1 ≤ clients) (hclients : clients ≤ 127)
    {es : List SessionEvent}
    (h : execWhere step (orderly clients · · = true) (start calls fd) es = some s) :
    s.Healthy ∧ (s.manager.pc.ended = false → s.GoesOn) ∧
      (s.manager.pc.ended = true → s.manager.locked = false ∧ s.manager.pending = 0) ∧
      es.length ≤
        calls.length * (clients * ((calls.map fun p => p.bytes + 2).sum + 8) + 5) + 4 * clients +
          2 * es.countP SessionEvent.isSpurious := by
  obtain ⟨hsound, hbound⟩ := sound_of_run hdata fd hpos (fun _ e hs hok =>
    ⟨hok, hs.roundFits hdata hlength hclients e⟩) h
  refine ⟨hsound.healthy, hsound.goesOn, fun hend => ?_, hbound⟩
  have hpc : s.manager.pc = .finishing none := by
    cases hpc : s.manager.pc with
    | finishing cur =>
      rw [hpc] at hend
      cases cur with
      | none => rfl
      | some j => cases hend
    | _ => rw [hpc] at hend; cases hend
  refine ⟨?_, hsound.known.barrier.calm (by rw [hpc]; rfl)⟩
  rw [hsound.ongoing.lock, hpc]
  rfl

/-- A second client joins while the session thread waits, which is then woken up once too often. -/
def lateClient : List SessionEvent :=
  List.replicate 6 (.choice (.session true)) ++
    .choice (.subscribe 6 true) :: .spuriousWakeUp :: .choice (.session true) ::
    List.replicate 9 (.choice (.worker 0 (some 1))) ++
    List.replicate 9 (.choice (.session true))

/-- This session ends. -/
theorem session_ends_two :
    ∃ s, execWhere step (orderly 2 · · = true) (start [Payload.ofBytes [97, 98]] 5) lateClient =
        some s ∧ s.manager.pc.ended = true ∧ s.Healthy ∧
      (s.manager.locked = false ∧ s.manager.pending = 0) ∧
      lateClient.length ≤
        1 * (2 * (4 + 8) + 5) + 4 * 2 + 2 * lateClient.countP SessionEvent.isSpurious := by
  have hrun := (Option.some_get (x := execWhere step (orderly 2 · · = true)
    (start [Payload.ofBytes [97, 98]] 5) lateClient) (by decide +kernel)).symm
  have hends := session_ends 5 (by decide) (by decide) (by decide) (by decide) hrun
  have hend := hends.2.2.1 (by decide +kernel)
  exact ⟨_, hrun, by decide +kernel, hends.1, hend, hends.2.2.2⟩

end SessionState

end OsLabs.Proxy
