import OsLabs.Foundation.LockProgram
import OsLabs.Proxy.SubscriberMemory

/-!
# The locks of the subscription API

The functions of `lab3/src/chunk/subscription.c` in the `PARALLEL` build as a program with mutexes:
any number of threads call `subscribe`, `unsubscribe`, `add_chunk`, `finish_pending_chunks` and
`destroy_subscription_manager` on one manager, or work for the upload pool. A step is an operation
on a mutex or a piece of code between two of them; what an allocation or a `send` answers is part of
the choice of the step. A thread that follows a bad pointer stops where it is.

Three branches leave the discipline: `subscribe` returns from a failed allocation without an unlock,
`__send_chunks` locks `manager->lock`, which `add_chunk` holds, for a subscriber that is to be
skipped, and `destroy_subscription_manager` holds it when it calls `unsubscribe`.
-/

namespace OsLabs.Proxy.LockDiscipline

open LockProgram Transition

/-- The mutexes of a manager, of its subscribers and of the upload pool. -/
inductive Mutex
  | manager
  | subscriber (address : ℕ)
  | pool
  deriving DecidableEq

/-- A call that a thread makes. -/
inductive Call
  | subscribe (fd : ℕ)
  | unsubscribe (subscriber : ℕ)
  | addChunk (p : Payload)
  | finishPendingChunks
  | destroySubscriptionManager
  /-- A worker of the upload pool waits for a task and executes it. -/
  | work

/-- Who has called `unsubscribe`; a loop goes on with the value of its `tmp`. -/
inductive Caller
  | user
  | finishPendingChunks (tmp : Option ℕ)
  | destroySubscriptionManager (tmp : Option ℕ)

/-- Where a thread is, named by what it does next. -/
inductive Position
  /-- In no call. -/
  | returned
  /-- `subscribe`: the lock, the allocation with the links, and the unlock. -/
  | subscribing (fd : ℕ)
  | allocating (fd : ℕ)
  | subscribed
  /-- `unsubscribe`: the lock, the links, the lock of the subscriber, its unlock, and the end. -/
  | unsubscribing (subscriber : ℕ) (caller : Caller)
  | unlinking (subscriber : ℕ) (caller : Caller)
  | closing (subscriber : ℕ) (caller : Caller)
  | closed (subscriber : ℕ) (caller : Caller)
  | discarding (subscriber : ℕ) (caller : Caller)
  /-- `finish_pending_chunks`: its first line and the test of its loop. -/
  | finishing
  | finishLoop (subscriber : Option ℕ)
  /-- `destroy_subscription_manager`: the lock, `free_chunk_container`, the test of the loop, and
  `free(*manager)`. -/
  | destroying
  | emptying
  | destroyLoop (subscriber : Option ℕ)
  | freeing
  /-- `add_chunk`: the first line, the lock, and `__add_chunk`. -/
  | logging (p : Payload)
  | adding (p : Payload)
  | storing (p : Payload)
  /-- `__send_chunks`: the first lines, the test of the loop, a subscriber that is skipped, and
  `current_subscriber->next`. -/
  | sending
  | sendLoop (subscriber : Option ℕ)
  | skipping (subscriber : ℕ)
  | skipped (subscriber : ℕ)
  | sendNext (subscriber : ℕ)
  /-- `threadpool_push_task`: the lock, and the rest. -/
  | pushing (subscriber : ℕ)
  | queueing (subscriber : ℕ)
  /-- The end of `add_chunk`: the test of the loop, `pthread_cond_wait`, and the last line. -/
  | testing
  | waiting
  | leaving
  /-- A worker: the lock of the pool, and taking the last task. -/
  | taking
  | popping
  /-- `__send_chunks_to_subscriber`: the lock of the subscriber, the reading of `chunk_loaded` and
  `count`, the test of the loop, the lock of the manager, `flag--`, and the last unlock. -/
  | uploading (subscriber : ℕ)
  | reading (subscriber : ℕ)
  | uploadLoop (subscriber current : ℕ) (i last : ℤ)
  | uploaded (subscriber : ℕ)
  | signalling (subscriber : ℕ)
  | unlocking (subscriber : ℕ)
  /-- A bad pointer was followed. -/
  | crashed (position : Position)

/-- What the threads share: the manager, whether it was freed, and the tasks of the upload pool, the
last one at the end. -/
structure Shared where
  manager : ManagerMemory
  freed : Bool
  tasks : List ℕ

/-- The choice of a step: the call that is made, or the answers of `malloc` in `subscribe` and of
whatever else may fail. -/
inductive Choice
  | call (call : Call)
  | go (address : Option ℕ) (succeeds : Bool)

namespace Shared

/-- The manager of the calls, with all of its subscribers unlinked. -/
def create : Shared := ⟨ManagerMemory.create, false, []⟩

/-- The manager, if it was not freed. -/
def live (s : Shared) : Option ManagerMemory := if s.freed then none else some s.manager

/-- A change of the manager. -/
def set (s : Shared) (m : ManagerMemory) : Shared := { s with manager := m }

/-- `malloc` does not answer the address of a subscriber. -/
def mayAnswer (s : Shared) (address : Option ℕ) : Bool :=
  (s.manager.subscribers.load address).isNone

end Shared

/-- The first position of a call. -/
def Call.enter : Call → Position
  | .subscribe fd => .subscribing fd
  | .unsubscribe subscriber => .unsubscribing subscriber .user
  | .addChunk p => .logging p
  | .finishPendingChunks => .finishing
  | .destroySubscriptionManager => .destroying
  | .work => .taking

/-- Where `unsubscribe` returns to. -/
def Caller.position : Caller → Position
  | .user => .returned
  | .finishPendingChunks tmp => .finishLoop tmp
  | .destroySubscriptionManager tmp => .destroyLoop tmp

/-- What a step does to the mutexes and to the memory, and where it leads. -/
abbrev Move : Type := Effect Mutex × Shared × Position

/-- What a thread does at a position; `none` means that it follows a bad pointer. -/
def advance (s : Shared) (address : Option ℕ) (succeeds : Bool) : Position → Option Move
  | .subscribing fd => s.live.map fun _ => (.lock .manager, s, .allocating fd)
  | .allocating fd =>
    match address with
    | none => some (.nothing, s, .returned)
    | some a =>
      (s.live.bind fun m => m.link fd a).map fun m => (.init (.subscriber a), s.set m, .subscribed)
  | .subscribed => s.live.map fun _ => (.unlock .manager, s, .returned)
  | .unsubscribing a caller => s.live.map fun _ => (.lock .manager, s, .unlinking a caller)
  | .unlinking a caller =>
    (s.live.bind fun m => m.unlink (some a)).map fun m => (.nothing, s.set m, .closing a caller)
  | .closing a caller =>
    (s.manager.subscribers.cell a).map fun _ => (.lock (.subscriber a), s, .closed a caller)
  | .closed a caller =>
    (s.manager.subscribers.cell a).map fun _ => (.unlock (.subscriber a), s, .discarding a caller)
  | .discarding a caller =>
    (s.live.bind fun m => m.discard (some a)).map fun m =>
      (.unlock .manager, s.set m, caller.position)
  | .finishing => s.live.map fun m => (.nothing, s, .finishLoop m.firstSubscriber)
  | .finishLoop none => some (.nothing, s, .returned)
  | .finishLoop (some a) =>
    (s.manager.subscribers.cell a).map fun node =>
      (.nothing, s, .unsubscribing a (.finishPendingChunks node.next))
  | .destroying => s.live.map fun _ => (.lock .manager, s, .emptying)
  | .emptying =>
    (s.live.bind ManagerMemory.freeContainer).map fun m =>
      (.nothing, s.set m, .destroyLoop m.firstSubscriber)
  | .destroyLoop none => s.live.map fun _ => (.unlock .manager, s, .freeing)
  | .destroyLoop (some a) =>
    (s.live.bind fun m => m.subscribers.cell a).map fun node =>
      (.nothing, s, .unsubscribing a (.destroySubscriptionManager node.next))
  | .freeing => s.live.map fun _ => (.nothing, { s with freed := true }, .returned)
  | .logging p => (s.live.bind ManagerMemory.firstFd).map fun _ => (.nothing, s, .adding p)
  | .adding p => s.live.map fun _ => (.lock .manager, s, .storing p)
  | .storing p =>
    (s.live.bind fun m => m.firstFd.map fun _ => m.addChunk p succeeds).map fun m =>
      (.nothing, s.set m, .sending)
  | .sending => s.live.map fun m => (.nothing, s.set m.startRound, .sendLoop m.firstSubscriber)
  | .sendLoop none => some (.nothing, s, .testing)
  | .sendLoop (some a) =>
    s.live.bind fun m => (m.subscribers.cell a).bind fun node => m.container.map fun container =>
      (.nothing, s,
        if node.chunkLoaded = container.count || !succeeds then .skipping a else .pushing a)
  | .skipping a => s.live.map fun _ => (.lock .manager, s, .skipped a)
  | .skipped a => s.live.map fun m => (.unlock .manager, s.set m.decrement, .sendNext a)
  | .sendNext a =>
    (s.manager.subscribers.cell a).map fun node => (.nothing, s, .sendLoop node.next)
  | .pushing a => some (.lock .pool, s, .queueing a)
  | .queueing a =>
    if succeeds then some (.unlock .pool, { s with tasks := s.tasks ++ [a] }, .sendNext a)
    else none
  | .testing =>
    s.live.bind fun m =>
      if 0 < m.flag then some (.unlock .manager, s, .waiting)
      else m.firstFd.map fun _ => (.unlock .manager, s, .leaving)
  | .waiting => s.live.map fun _ => (.lock .manager, s, .testing)
  | .leaving => (s.live.bind ManagerMemory.firstFd).map fun _ => (.nothing, s, .returned)
  | .taking => some (.lock .pool, s, .popping)
  | .popping =>
    match s.tasks.getLast? with
    | none => some (.unlock .pool, s, .taking)
    | some a => some (.unlock .pool, { s with tasks := s.tasks.dropLast }, .uploading a)
  | .uploading a =>
    (s.manager.subscribers.cell a).map fun _ => (.lock (.subscriber a), s, .reading a)
  | .reading a =>
    (s.manager.subscribers.cell a).bind fun node => s.live.bind fun m =>
      m.container.map fun container => (.nothing, s,
        match container.getChunk (toSize (toInt node.chunkLoaded)) with
        | none => .uploaded a
        | some current => .uploadLoop a current (toInt node.chunkLoaded) (toInt container.count))
  | .uploadLoop a current i last =>
    if i < last then
      (s.manager.container.bind fun container => container.chunks[current]?).bind fun _ =>
        if succeeds then (s.manager.loadChunk a).map fun m =>
          (.nothing, s.set m, .uploadLoop a (current + 1) (i + 1) last)
        else some (.nothing, s, .uploaded a)
    else some (.nothing, s, .uploaded a)
  | .uploaded a => s.live.map fun _ => (.lock .manager, s, .signalling a)
  | .signalling a => s.live.map fun m => (.unlock .manager, s.set m.decrement, .unlocking a)
  | .unlocking a =>
    (s.manager.subscribers.cell a).map fun _ => (.unlock (.subscriber a), s, .returned)
  | .returned | .crashed _ => none

/-- The program of every thread. -/
def program (s : Shared) (p : Position) (choice : Choice) : Option Move :=
  match p, choice with
  | .returned, .call call => some (.nothing, s, call.enter)
  | .returned, .go .. | .crashed _, _ | _, .call _ => none
  | p, .go address succeeds =>
    if s.mayAnswer address then
      some ((advance s address succeeds p).getD (.nothing, s, .crashed p))
    else none

/-- The condition on a step: `malloc` succeeds in `subscribe`, `destroy_subscription_manager` finds
no subscriber, and `__send_chunks` has something to send to its subscriber and gets the memory for
it. -/
def inOrder (s : Shared) : Position → Choice → Bool
  | .allocating _, .go address _ => address.isSome
  | .destroyLoop subscriber, _ => s.live.isNone || (s.manager.subscribers.load subscriber).isNone
  | .sendLoop subscriber, .go _ succeeds =>
    s.live.isNone || match s.manager.subscribers.load subscriber, s.manager.container with
      | some node, some container => decide (node.chunkLoaded ≠ container.count) && succeeds
      | _, _ => true
  | _, _ => true

/-- The mutexes that `unsubscribe` holds for its caller. -/
def Caller.holds : Caller → List Mutex
  | .user | .finishPendingChunks _ => []
  | .destroySubscriptionManager _ => [.manager]

/-- The mutexes that a thread holds at a position, the last one that it has locked first. -/
def Position.holds : Position → List Mutex
  | .returned | .subscribing _ | .finishing | .finishLoop _ | .destroying | .freeing | .logging _
  | .adding _ | .waiting | .leaving | .taking | .uploading _ => []
  | .allocating _ | .subscribed | .emptying | .destroyLoop _ | .storing _ | .sending | .sendLoop _
  | .skipping _ | .sendNext _ | .pushing _ | .testing => [.manager]
  | .skipped _ => [.manager, .manager]
  | .unsubscribing _ caller => caller.holds
  | .unlinking _ caller | .closing _ caller | .discarding _ caller => .manager :: caller.holds
  | .closed a caller => .subscriber a :: .manager :: caller.holds
  | .queueing _ => [.pool, .manager]
  | .popping => [.pool]
  | .reading a | .uploadLoop a .. | .uploaded a | .unlocking a => [.subscriber a]
  | .signalling a => [.manager, .subscriber a]
  | .crashed p => p.holds

/-- The mutex is initialised only once. -/
def Mutex.firm : Mutex → Bool
  | .manager | .pool => true
  | .subscriber _ => false

/-- `unsubscribe` was not called with the lock of the manager held. -/
def Caller.clean : Caller → Bool
  | .user | .finishPendingChunks _ => true
  | .destroySubscriptionManager _ => false

/-- The position is not behind one of the three branches. -/
def Position.clean : Position → Bool
  | .unsubscribing _ caller | .unlinking _ caller | .closing _ caller | .closed _ caller
  | .discarding _ caller => caller.clean
  | .skipping _ | .skipped _ => false
  | _ => true

/-- A clean caller holds nothing. -/
lemma Caller.holds_eq_nil {caller : Caller} (h : caller.clean = true) : caller.holds = [] := by
  cases caller with
  | user | finishPendingChunks => rfl
  | destroySubscriptionManager => cases h

/-- Where a clean caller goes on, nothing is held. -/
lemma Caller.position_clean {caller : Caller} (h : caller.clean = true) :
    caller.position.clean = true ∧ caller.position.holds = [] := by
  cases caller with
  | user | finishPendingChunks => exact ⟨rfl, rfl⟩
  | destroySubscriptionManager => cases h

variable {s : Shared} {p p' : Position} {choice : Choice} {move : Move} {address : Option ℕ}
  {succeeds : Bool}

/-- The manager that was not freed. -/
lemma Shared.eq_of_live {m : ManagerMemory} (h : s.live = some m) : s.manager = m := by
  rw [Shared.live] at h
  split_ifs at h
  exact Option.some.inj h

/-- With the manager and the subscriber there, `__send_chunks` goes on in order only if there is
something to send and memory for it. -/
lemma sendLoop_inOrder {m : ManagerMemory} {a : ℕ} {node : SubscriberNode}
    {container : ChunkContainer} (hlive : s.live = some m)
    (hnode : m.subscribers.cell a = some node) (hcontainer : m.container = some container) :
    inOrder s (.sendLoop (some a)) (.go address succeeds) =
      !(node.chunkLoaded = container.count || !succeeds) := by
  obtain rfl := Shared.eq_of_live hlive
  simp [inOrder, hlive, hnode, hcontainer]

/-- With the manager and the subscriber there, `destroy_subscription_manager` does not go on in
order. -/
lemma destroyLoop_inOrder {m : ManagerMemory} {a : ℕ} {node : SubscriberNode}
    (hlive : s.live = some m) (hnode : m.subscribers.cell a = some node) :
    inOrder s (.destroyLoop (some a)) choice = false := by
  obtain rfl := Shared.eq_of_live hlive
  simp [inOrder, hlive, hnode]

/-- A step leads to a clean position and respects the lists of mutexes. -/
def Respects (p : Position) (move : Move) : Prop :=
  move.2.2.clean = true ∧ Balanced Position.holds (fun m => m.firm = true) p move.2.2 move.1

/-- The steps at the end of `unsubscribe`. -/
lemma discarding_respects {a : ℕ} {caller : Caller} (hclean : caller.clean = true)
    (h : advance s address succeeds (.discarding a caller) = some move) :
    Respects (.discarding a caller) move := by
  obtain ⟨_, -, rfl⟩ := Option.map_eq_some_iff.mp h
  obtain ⟨hposition, hholds⟩ := Caller.position_clean hclean
  refine ⟨hposition, ?_, ?_⟩
  · rw [hholds]
    exact List.not_mem_nil
  · rw [hholds, Position.holds, Caller.holds_eq_nil hclean]

/-- The loop of `finish_pending_chunks`. -/
lemma finishLoop_respects {subscriber : Option ℕ}
    (h : advance s address succeeds (.finishLoop subscriber) = some move) :
    Respects (.finishLoop subscriber) move := by
  cases subscriber with
  | none =>
    obtain rfl := Option.some.inj h
    exact ⟨rfl, rfl⟩
  | some =>
    obtain ⟨_, -, rfl⟩ := Option.map_eq_some_iff.mp h
    exact ⟨rfl, rfl⟩

/-- The loop of `destroy_subscription_manager`. -/
lemma destroyLoop_respects {subscriber : Option ℕ}
    (horder : inOrder s (.destroyLoop subscriber) (.go address succeeds) = true)
    (h : advance s address succeeds (.destroyLoop subscriber) = some move) :
    Respects (.destroyLoop subscriber) move := by
  cases subscriber with
  | none =>
    obtain ⟨_, -, rfl⟩ := Option.map_eq_some_iff.mp h
    exact ⟨rfl, List.not_mem_nil, rfl⟩
  | some =>
    obtain ⟨_, hnode, -⟩ := Option.map_eq_some_iff.mp h
    obtain ⟨_, hlive, hnode⟩ := Option.bind_eq_some_iff.mp hnode
    rw [destroyLoop_inOrder hlive hnode] at horder
    exact absurd horder Bool.false_ne_true

/-- The loop of `__send_chunks`. -/
lemma sendLoop_respects {subscriber : Option ℕ}
    (horder : inOrder s (.sendLoop subscriber) (.go address succeeds) = true)
    (h : advance s address succeeds (.sendLoop subscriber) = some move) :
    Respects (.sendLoop subscriber) move := by
  cases subscriber with
  | none =>
    obtain rfl := Option.some.inj h
    exact ⟨rfl, rfl⟩
  | some =>
    obtain ⟨_, hlive, hrest⟩ := Option.bind_eq_some_iff.mp h
    obtain ⟨_, hnode, hrest⟩ := Option.bind_eq_some_iff.mp hrest
    obtain ⟨_, hcontainer, rfl⟩ := Option.map_eq_some_iff.mp hrest
    rw [sendLoop_inOrder hlive hnode hcontainer, Bool.not_eq_true'] at horder
    simp only [horder]
    exact ⟨rfl, rfl⟩

/-- The end of `add_chunk`. -/
lemma testing_respects (h : advance s address succeeds .testing = some move) :
    Respects .testing move := by
  obtain ⟨_, -, hrest⟩ := Option.bind_eq_some_iff.mp h
  split_ifs at hrest
  · obtain rfl := Option.some.inj hrest
    exact ⟨rfl, List.not_mem_nil, rfl⟩
  · obtain ⟨_, -, rfl⟩ := Option.map_eq_some_iff.mp hrest
    exact ⟨rfl, List.not_mem_nil, rfl⟩

/-- The loop of `__send_chunks_to_subscriber`. -/
lemma uploadLoop_respects {a current : ℕ} {i last : ℤ}
    (h : advance s address succeeds (.uploadLoop a current i last) = some move) :
    Respects (.uploadLoop a current i last) move := by
  rw [advance] at h
  split_ifs at h
  · obtain ⟨_, -, hrest⟩ := Option.bind_eq_some_iff.mp h
    obtain ⟨_, -, rfl⟩ := Option.map_eq_some_iff.mp hrest
    exact ⟨rfl, rfl⟩
  · obtain ⟨_, -, hrest⟩ := Option.bind_eq_some_iff.mp h
    obtain rfl := Option.some.inj hrest
    exact ⟨rfl, rfl⟩
  · obtain rfl := Option.some.inj h
    exact ⟨rfl, rfl⟩

/-- A step of a clean position that is in order respects the lists of mutexes. -/
lemma advance_respects (hclean : p.clean = true)
    (horder : inOrder s p (.go address succeeds) = true)
    (h : advance s address succeeds p = some move) : Respects p move := by
  cases p with
  | returned | crashed => cases h
  | skipping | skipped => exact absurd hclean Bool.false_ne_true
  | subscribing | destroying | adding | waiting | uploading =>
    obtain ⟨_, -, rfl⟩ := Option.map_eq_some_iff.mp h
    exact ⟨rfl, List.not_mem_nil, rfl⟩
  | taking =>
    obtain rfl := Option.some.inj h
    exact ⟨rfl, List.not_mem_nil, rfl⟩
  | finishing | emptying | freeing | logging | storing | sending | sendNext | leaving =>
    obtain ⟨_, -, rfl⟩ := Option.map_eq_some_iff.mp h
    exact ⟨rfl, rfl⟩
  | subscribed | unlocking =>
    obtain ⟨_, -, rfl⟩ := Option.map_eq_some_iff.mp h
    exact ⟨rfl, List.not_mem_nil, rfl⟩
  | uploaded | signalling =>
    obtain ⟨_, -, rfl⟩ := Option.map_eq_some_iff.mp h
    exact ⟨rfl, by simp [Position.holds], rfl⟩
  | pushing =>
    obtain rfl := Option.some.inj h
    exact ⟨rfl, by simp [Position.holds], rfl⟩
  | queueing =>
    rw [advance] at h
    split_ifs at h
    obtain rfl := Option.some.inj h
    exact ⟨rfl, by simp [Position.holds], rfl⟩
  | unsubscribing | closing | closed =>
    obtain ⟨_, -, rfl⟩ := Option.map_eq_some_iff.mp h
    exact ⟨hclean, by simp [Position.holds, Caller.holds_eq_nil hclean], rfl⟩
  | unlinking =>
    obtain ⟨_, -, rfl⟩ := Option.map_eq_some_iff.mp h
    exact ⟨hclean, rfl⟩
  | discarding => exact discarding_respects hclean h
  | allocating =>
    obtain ⟨a, rfl⟩ := Option.isSome_iff_exists.mp horder
    obtain ⟨_, -, rfl⟩ := Option.map_eq_some_iff.mp h
    exact ⟨rfl, Bool.false_ne_true, rfl⟩
  | finishLoop => exact finishLoop_respects h
  | destroyLoop => exact destroyLoop_respects horder h
  | sendLoop => exact sendLoop_respects horder h
  | testing => exact testing_respects h
  | popping =>
    rw [advance] at h
    split at h <;> obtain rfl := Option.some.inj h <;> exact ⟨rfl, List.not_mem_nil, rfl⟩
  | reading =>
    obtain ⟨_, -, hrest⟩ := Option.bind_eq_some_iff.mp h
    obtain ⟨_, -, hrest⟩ := Option.bind_eq_some_iff.mp hrest
    obtain ⟨_, -, rfl⟩ := Option.map_eq_some_iff.mp hrest
    unfold Respects
    dsimp only
    split <;> exact ⟨rfl, rfl⟩
  | uploadLoop => exact uploadLoop_respects h

/-- A step that locks a mutex is in order. -/
lemma inOrder_of_lock {m : Mutex} {r : Shared × Position}
    (h : advance s address succeeds p = some (.lock m, r)) :
    inOrder s p (.go address succeeds) = true := by
  cases p with
  | allocating =>
    cases address with
    | none => cases h
    | some => rfl
  | destroyLoop subscriber =>
    cases subscriber with
    | none => simp [inOrder, Heap.load]
    | some =>
      obtain ⟨_, -, heq⟩ := Option.map_eq_some_iff.mp h
      cases heq
  | sendLoop subscriber =>
    cases subscriber with
    | none => simp [inOrder, Heap.load]
    | some =>
      obtain ⟨_, -, hrest⟩ := Option.bind_eq_some_iff.mp h
      obtain ⟨_, -, hrest⟩ := Option.bind_eq_some_iff.mp hrest
      obtain ⟨_, -, heq⟩ := Option.map_eq_some_iff.mp hrest
      cases heq
  | _ => rfl

/-- A step enters a call, or is what the position says, or follows a bad pointer. -/
lemma program_cases (h : program s p choice = some move) :
    (∃ call, choice = .call call ∧ p = .returned ∧ move = (.nothing, s, call.enter)) ∨
      ∃ address succeeds, choice = .go address succeeds ∧
        (advance s address succeeds p = some move ∨
          advance s address succeeds p = none ∧ move = (.nothing, s, .crashed p)) := by
  unfold program at h
  split at h
  · exact Or.inl ⟨_, rfl, rfl, (Option.some.inj h).symm⟩
  · cases h
  · cases h
  · cases h
  · split_ifs at h
    refine Or.inr ⟨_, _, rfl, ?_⟩
    rcases Option.eq_none_or_eq_some (advance s _ _ p) with hnone | ⟨move', hsome⟩
    · rw [hnone] at h
      exact Or.inr ⟨hnone, (Option.some.inj h).symm⟩
    · rw [hsome] at h
      exact Or.inl (hsome.trans h)

/-- The lists of mutexes fit the program. -/
def annotation : Annotation program fun s p choice => inOrder s p choice = true where
  holds := Position.holds
  firm m := m.firm = true
  clean p := p.clean = true
  balanced hclean horder h := by
    obtain ⟨call, rfl, rfl, heq⟩ | ⟨address, succeeds, rfl, hadvance | ⟨-, heq⟩⟩ :=
      program_cases h
    · cases heq
      cases call <;> exact ⟨rfl, rfl⟩
    · exact advance_respects hclean horder hadvance
    · cases heq
      exact ⟨rfl, rfl⟩
  free hclean h := by
    obtain ⟨call, rfl, rfl, heq⟩ | ⟨address, succeeds, rfl, hadvance | ⟨-, heq⟩⟩ :=
      program_cases h
    · cases heq
    · exact (advance_respects hclean (inOrder_of_lock hadvance) hadvance).2.1
    · cases heq

/-- `unsubscribe` begins with the lock of the manager, and so does what `__send_chunks` does for a
subscriber that is skipped. -/
lemma program_lock {m : ManagerMemory} (hlive : s.live = some m) (a : ℕ) :
    (∀ caller, program s (.unsubscribing a caller) (.go none true) =
      some (.lock .manager, s, .unlinking a caller)) ∧
    program s (.skipping a) (.go none true) = some (.lock .manager, s, .skipped a) := by
  simp [program, advance, hlive, Shared.mayAnswer, Heap.load]

/-- `destroy_subscription_manager` with a subscriber that it finds. -/
lemma advance_destroyLoop {subscriber : Option ℕ}
    (horder : inOrder s (.destroyLoop subscriber) choice = false) :
    ∃ m a caller, s.live = some m ∧ advance s address succeeds (.destroyLoop subscriber) =
      some (.nothing, s, .unsubscribing a caller) := by
  rcases Option.eq_none_or_eq_some s.live with hnone | ⟨m, hlive⟩
  · simp [inOrder, hnone] at horder
  · rcases Option.eq_none_or_eq_some (s.manager.subscribers.load subscriber) with
      hnone | ⟨node, hnode⟩
    · simp [inOrder, hnone] at horder
    · cases subscriber with
      | none => cases hnode
      | some a =>
        obtain rfl := Shared.eq_of_live hlive
        refine ⟨s.manager, a, .destroySubscriptionManager node.next, hlive, ?_⟩
        rw [Heap.load_some] at hnode
        rw [advance, hlive, Option.bind_some, hnode, Option.map_some]

/-- `__send_chunks` with a subscriber that it skips. -/
lemma advance_sendLoop {subscriber : Option ℕ}
    (horder : inOrder s (.sendLoop subscriber) (.go address succeeds) = false) :
    ∃ m a, s.live = some m ∧ advance s address succeeds (.sendLoop subscriber) =
      some (.nothing, s, .skipping a) := by
  rcases Option.eq_none_or_eq_some s.live with hnone | ⟨m, hlive⟩
  · simp [inOrder, hnone] at horder
  · cases subscriber with
    | none => simp [inOrder, Heap.load] at horder
    | some a =>
      obtain rfl := Shared.eq_of_live hlive
      rcases Option.eq_none_or_eq_some (s.manager.subscribers.cell a) with hnone | ⟨node, hnode⟩
      · simp [inOrder, hnone] at horder
      · rcases Option.eq_none_or_eq_some s.manager.container with hnone | ⟨container, hcontainer⟩
        · simp [inOrder, hnone] at horder
        · rw [sendLoop_inOrder hlive hnode hcontainer, Bool.not_eq_false'] at horder
          refine ⟨s.manager, a, hlive, ?_⟩
          rw [advance, hlive, Option.bind_some, hnode, Option.bind_some, hcontainer,
            Option.map_some, if_pos horder]

/-- The branches that are not in order keep the lock of the manager, and return or lock it again. -/
lemma advance_of_not_inOrder (horder : inOrder s p (.go address succeeds) = false) :
    .manager ∈ p.holds ∧ ∃ q, advance s address succeeds p = some (.nothing, s, q) ∧
      (q = .returned ∨ ∃ q', program s q (.go none true) = some (.lock .manager, s, q')) := by
  cases p with
  | allocating =>
    cases address with
    | none => exact ⟨List.mem_cons_self, .returned, rfl, Or.inl rfl⟩
    | some => cases horder
  | destroyLoop =>
    obtain ⟨m, a, caller, hlive, hadvance⟩ := advance_destroyLoop horder
    exact ⟨List.mem_cons_self, _, hadvance, Or.inr ⟨_, (program_lock hlive a).1 caller⟩⟩
  | sendLoop =>
    obtain ⟨m, a, hlive, hadvance⟩ := advance_sendLoop horder
    exact ⟨List.mem_cons_self, _, hadvance, Or.inr ⟨_, (program_lock hlive a).2⟩⟩
  | _ => cases horder

/-! ## Runs -/

section Runs

variable {T : Type*} {threads threads' : Threads T Mutex Position Shared} {e : T × Choice}

/-- The threads before their first call. -/
def initialThreads (T : Type*) : Threads T Mutex Position Shared where
  memory := Shared.create
  owner := fun _ => none
  position := fun _ => .returned

/-- At first nobody holds a mutex. -/
lemma kept_initialThreads : annotation.Kept (initialThreads T) :=
  ⟨fun _ => rfl, fun _ _ h => by cases h⟩

/-- The lock of the manager is held by the thread whose position says so. -/
lemma exact_initialThreads : annotation.Exact .manager (initialThreads T) :=
  fun _ => iff_of_false Bool.false_ne_true fun h => by cases h

variable [DecidableEq T]

/-- A step that is not in order breaks the discipline. -/
lemma not_disciplined_of_not_inOrder (hexact : annotation.Exact .manager threads)
    (horder : inOrder threads.memory (threads.position e.1) e.2 = false)
    (hstep : step program threads e = some threads') :
    ¬ Disciplined program (· = .returned) threads' := by
  intro h
  obtain ⟨effect, p, hprogram, howner, hposition⟩ := exists_of_step hstep
  obtain ⟨call, hchoice, hp, -⟩ | ⟨address, succeeds, hchoice, hrest⟩ := program_cases hprogram
  · rw [hchoice, hp] at horder
    cases horder
  · rw [hchoice] at horder
    obtain ⟨hmem, q, hadvance, hq⟩ := advance_of_not_inOrder horder
    have hmove : (effect, threads'.memory, p) = (.nothing, threads.memory, q) := by
      rcases hrest with hsome | ⟨hnone, -⟩
      · exact Option.some.inj (hsome.symm.trans hadvance)
      · rw [hnone] at hadvance
        cases hadvance
    obtain ⟨rfl, hpair⟩ := Prod.mk.inj hmove
    obtain ⟨hmemory, rfl⟩ := Prod.mk.inj hpair
    have hheld : threads'.owner .manager = some e.1 :=
      (Option.some.inj howner) ▸ (hexact e.1).mp (decide_eq_true hmem)
    obtain ⟨hreturned, hlock⟩ := h .manager e.1 hheld
    rw [hposition, Function.update_self] at hreturned hlock
    rcases hq with hq | ⟨q', hq⟩
    · exact hreturned hq
    · exact hlock _ _ _ (hmemory ▸ hq)

/-- In every run in which each step is in order no thread locks a mutex that it holds and a thread
that is in no call holds none, and the next step keeps that up if and only if it is in order. -/
theorem disciplined_iff_inOrder
    (hrun : Run (step program) (Allowed fun s p choice => inOrder s p choice = true)
      (initialThreads T) threads) :
    Disciplined program (· = .returned) threads ∧
      ∀ e threads', step program threads e = some threads' →
        (Disciplined program (· = .returned) threads' ↔
          inOrder threads.memory (threads.position e.1) e.2 = true) := by
  have hkept := annotation.kept_of_run hrun kept_initialThreads
  have hexact : annotation.Exact .manager threads :=
    annotation.exact_of_run hrun kept_initialThreads rfl exact_initialThreads
  have hrest : ∀ p : Position, p = .returned → annotation.holds p = [] := by
    rintro p rfl
    rfl
  refine ⟨hkept.disciplined hrest, fun e threads' hstep => ⟨fun h => ?_, fun horder => ?_⟩⟩
  · by_contra horder
    exact not_disciplined_of_not_inOrder hexact (Bool.not_eq_true _ ▸ horder) hstep h
  · exact (hkept.step horder hstep).disciplined hrest

/-- The steps of one thread in a call; the answers are `none` and success unless they are given. -/
def callSteps (t : T) (call : Call) (answers : List (Option ℕ × Bool)) : List (T × Choice) :=
  (t, .call call) :: answers.map fun answer => (t, .go answer.1 answer.2)

/-- As many steps with nothing but success. -/
def successes (n : ℕ) : List (Option ℕ × Bool) := List.replicate n (none, true)

/-- A subscription, a chunk that a worker uploads, and the end of the session. -/
def sampleSteps : List (Bool × Choice) :=
  callSteps false (.subscribe 7) [(none, true), (some 0, true), (none, true)] ++
  callSteps true (.addChunk (.ofBytes [97])) (successes 10) ++
  callSteps false .work (successes 9) ++
  [(true, .go none true), (true, .go none true), (true, .go none true)] ++
  callSteps true .finishPendingChunks (successes 8) ++
  callSteps true .destroySubscriptionManager (successes 4)

/-- A run through all calls in order. -/
theorem disciplined_sample : ∃ threads,
    execWhere (step program) (Allowed fun s p choice => inOrder s p choice = true)
      (initialThreads Bool) sampleSteps = some threads ∧ threads.memory.freed = true ∧
    Disciplined program (· = .returned) threads ∧
      ∀ e threads', step program threads e = some threads' →
        (Disciplined program (· = .returned) threads' ↔
          inOrder threads.memory (threads.position e.1) e.2 = true) := by
  have hfreed : ((execWhere (step program) (Allowed fun s p choice => inOrder s p choice = true)
      (initialThreads Bool) sampleSteps).map fun threads => threads.memory.freed) = some true := by
    decide +kernel
  obtain ⟨threads, hexec, hfreed⟩ := Option.map_eq_some_iff.mp hfreed
  exact ⟨threads, hexec, hfreed, disciplined_iff_inOrder (Run.of_execWhere hexec)⟩

/-- A subscription whose `malloc` fails. -/
def leakSteps : List (Unit × Choice) := callSteps () (.subscribe 7) (successes 2)

/-- A subscription that succeeds. -/
def subscribeSteps : List (Unit × Choice) :=
  callSteps () (.subscribe 7) [(none, true), (some 0, true), (none, true)]

/-- The manager is destroyed while its subscriber is linked. -/
def destroySteps : List (Unit × Choice) :=
  subscribeSteps ++ callSteps () .destroySubscriptionManager (successes 3)

/-- `__send_chunks` gets no memory for the task of its subscriber. -/
def skipSteps : List (Unit × Choice) :=
  subscribeSteps ++ callSteps () (.addChunk (.ofBytes [97])) (successes 4 ++ [(none, false)])

/-- After the steps the thread holds the lock of the manager, and has returned or locks it again. -/
def Breaks (steps : List (Unit × Choice)) : Prop :=
  ∃ threads, execWhere (step program) anyStep (initialThreads Unit) steps = some threads ∧
    threads.owner .manager = some () ∧ ¬ Disciplined program (· = .returned) threads

/-- Each of the three branches leaves the discipline. -/
theorem not_disciplined : Breaks leakSteps ∧ Breaks destroySteps ∧ Breaks skipSteps := by
  have hlock : ∀ {threads : Threads Unit Mutex Position Shared} {p},
      threads.owner .manager = some () → program threads.memory (threads.position ())
        (.go none true) = some (.lock .manager, threads.memory, p) →
      ¬ Disciplined program (· = .returned) threads := by
    intro threads p howner hprogram h
    exact (h .manager () howner).2 _ _ _ hprogram
  refine ⟨⟨_, rfl, rfl, fun h => (h .manager () rfl).1 rfl⟩, ⟨_, rfl, rfl, ?_⟩, ⟨_, rfl, rfl, ?_⟩⟩
  · exact hlock rfl ((program_lock rfl 0).1 _)
  · exact hlock rfl (program_lock rfl 0).2

end Runs

end OsLabs.Proxy.LockDiscipline
