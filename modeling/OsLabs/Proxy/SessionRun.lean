import OsLabs.Proxy.SubscriberMemory

/-!
# The calls of one handler on its manager

`subscribe`, `add_chunk`, `finish_pending_chunks` and `destroy_subscription_manager` of
`lab3/src/chunk/subscription.c`, called by one thread while no other handler is active. A worker of
the upload pool executes its task while `add_chunk` waits for it. `none` means that the call does
not return: a bad pointer is followed, or the thread waits for a lock that it holds.

The loops carry a bound on their rounds, the number of cells in memory, and answer `none` beyond it.
`Serves` describes a manager with one subscriber, and the lemmas say what each call does to it.
-/

namespace OsLabs.Proxy

/-- What the allocators and the worker answer for one subscriber in a round of `add_chunk`. -/
structure UploadAnswer where
  /-- `malloc(sizeof(subscription_info_t))` succeeds. -/
  info : Bool
  /-- `malloc(sizeof(task_t))` succeeds. -/
  task : Bool
  /-- How many chunks are sent before a `send` fails. -/
  sent : ℕ

/-- The arguments of a call of `add_chunk`, and what is answered to it. -/
structure AddAnswer where
  payload : Payload
  /-- The allocations of `__add_chunk` succeed. -/
  stored : Bool
  upload : ℕ → UploadAnswer

/-- A manager, and whether its lock is held by a call that has returned or does not return. -/
structure LockedManager where
  memory : ManagerMemory
  locked : Bool

namespace ManagerMemory

/-- The loop of `__send_chunks`: the subscribers for which a task is pushed. For a subscriber that
is to be skipped the thread waits for the lock that it holds. -/
def sendLoop (m : ManagerMemory) (upload : ℕ → UploadAnswer) : ℕ → Option ℕ → Option (List ℕ)
  | _, none => some []
  | 0, some _ => none
  | rounds + 1, some a =>
    (m.subscribers.cell a).bind fun node => m.container.bind fun container =>
      if node.chunkLoaded = container.count || !(upload a).info then none
      else if (upload a).task then (sendLoop m upload rounds node.next).map (a :: ·)
      else none

/-- `__send_chunks_to_subscriber`, which sends a number of chunks, if there are so many. -/
def sendChunksToSubscriber (m : ManagerMemory) (sent a : ℕ) : Option ManagerMemory :=
  m.container.bind fun container =>
    (m.subscribers.modify (some a) fun s =>
      { s with chunkLoaded := min (s.chunkLoaded + sent) container.count }).map fun subscribers =>
        { m with subscribers := subscribers }.decrement

end ManagerMemory

namespace LockedManager

/-- `subscribe`. -/
def subscribe (manager : LockedManager) (fd : ℕ) (address : Option ℕ) : Option LockedManager :=
  if manager.locked then none
  else match address with
    | none => some { manager with locked := true }
    | some a => (manager.memory.link fd a).map fun m => ⟨m, false⟩

/-- `add_chunk`. -/
def addChunk (manager : LockedManager) (answer : AddAnswer) : Option LockedManager :=
  manager.memory.firstFd.bind fun _ =>
    if manager.locked then none
    else
      let m := (manager.memory.addChunk answer.payload answer.stored).startRound
      (m.sendLoop answer.upload m.subscribers.cells.length m.firstSubscriber).bind fun tasks =>
        (tasks.foldlM (fun (m : ManagerMemory) a =>
          m.sendChunksToSubscriber (answer.upload a).sent a) m).bind fun m =>
            if 0 < m.flag then none else m.firstFd.map fun _ => ⟨m, false⟩

/-- `unsubscribe`, with the file descriptor that it closes. -/
def unsubscribe (manager : LockedManager) (a : ℕ) : Option (LockedManager × ℕ) :=
  if manager.locked then none
  else (manager.memory.subscribers.cell a).bind fun node =>
    (manager.memory.unlink (some a)).bind fun m =>
      (m.discard (some a)).map fun m => (⟨m, false⟩, node.fd)

/-- The loop of `finish_pending_chunks` and `destroy_subscription_manager`, with the file
descriptors that are closed. -/
def unsubscribeLoop : ℕ → Option ℕ → LockedManager → Option (LockedManager × List ℕ)
  | _, none, manager => some (manager, [])
  | 0, some _, _ => none
  | rounds + 1, some a, manager =>
    (manager.memory.subscribers.cell a).bind fun node =>
      (manager.unsubscribe a).bind fun (manager, fd) =>
        (unsubscribeLoop rounds node.next manager).map fun (manager, fds) => (manager, fd :: fds)

/-- `finish_pending_chunks`. -/
def finishPendingChunks (manager : LockedManager) : Option (LockedManager × List ℕ) :=
  unsubscribeLoop manager.memory.subscribers.cells.length manager.memory.firstSubscriber manager

/-- `destroy_subscription_manager`, with the file descriptors that are closed. -/
def destroySubscriptionManager (manager : LockedManager) : Option (List ℕ) :=
  if manager.locked then none
  else manager.memory.freeContainer.bind fun m =>
    (unsubscribeLoop m.subscribers.cells.length m.firstSubscriber ⟨m, true⟩).map Prod.snd

end LockedManager

/-! ## A manager with one subscriber -/

namespace ManagerMemory

/-- The manager has one subscriber. -/
structure Serves (m : ManagerMemory) (a fd loaded : ℕ) (container : ChunkContainer) : Prop where
  first : m.firstSubscriber = some a
  node : m.subscribers.cell a = some ⟨fd, loaded, none, none⟩
  count : m.subscribersCount = 1
  container : m.container = some container

/-- The manager has no subscriber. -/
structure Idle (m : ManagerMemory) : Prop where
  first : m.firstSubscriber = none
  container : m.container.isSome = true

variable {m : ManagerMemory} {a fd loaded rounds : ℕ} {container : ChunkContainer}

/-- A subscription to a new manager. -/
lemma link_create (fd a : ℕ) :
    ∃ m, create.link fd a = some m ∧ m.isBusy = false ∧ m.Serves a fd 0 ChunkContainer.create := by
  have hfree : create.subscribers.cell a = none := rfl
  refine ⟨_, by rw [link, Heap.alloc_of_free hfree]; rfl, rfl, rfl, ?_, rfl, rfl⟩
  rw [Heap.cell_set_self]
  rfl

/-- The first line of `add_chunk` finds the subscriber. -/
lemma Serves.firstFd (h : m.Serves a fd loaded container) : m.firstFd = some fd := by
  rw [ManagerMemory.firstFd, h.first, Heap.load_some, h.node, Option.map_some]

/-- Its memory has room for a round of a loop. -/
lemma Serves.exists_rounds (h : m.Serves a fd loaded container) :
    ∃ rounds, m.subscribers.cells.length = rounds + 1 :=
  Nat.exists_eq_add_one_of_ne_zero (Nat.ne_zero_of_lt (Heap.lt_length_of_cell h.node))

/-- The loop of `__send_chunks` pushes one task, or does not return. -/
lemma Serves.sendLoop (h : m.Serves a fd loaded container) (upload : ℕ → UploadAnswer)
    (rounds : ℕ) :
    m.sendLoop upload (rounds + 1) m.firstSubscriber =
      if loaded ≠ container.count ∧ (upload a).info = true ∧ (upload a).task = true then some [a]
      else none := by
  have hend : m.sendLoop upload rounds none = some [] := by
    cases rounds <;> rfl
  rw [h.first, ManagerMemory.sendLoop, h.node, Option.bind_some, h.container, Option.bind_some]
  by_cases hloaded : loaded = container.count
  · rw [if_pos (by simp [hloaded]), if_neg fun hall => hall.1 hloaded]
  · rcases Bool.eq_false_or_eq_true (upload a).info with hinfo | hinfo
    · rw [if_neg (by simp [hloaded, hinfo]), hend]
      simp [hloaded, hinfo]
    · rw [if_pos (by simp [hinfo]), if_neg (by simp [hinfo])]

/-- The chunk of a call is added, and the round is started. -/
lemma Serves.startRound (h : m.Serves a fd loaded container) (p : Payload) (stored : Bool) :
    (m.addChunk p stored).startRound.Serves a fd loaded (container.addChunk p stored) ∧
      (m.addChunk p stored).startRound.flag = 1 := by
  refine ⟨⟨h.first, h.node, h.count, ?_⟩, ?_⟩
  · rw [ManagerMemory.startRound, ManagerMemory.addChunk, h.container, Option.map_some]
  · have hcount : (m.addChunk p stored).subscribersCount = 1 := h.count
    rw [ManagerMemory.startRound, hcount]
    exact toChar_of_lt (by decide) (by decide)

/-- A worker loads some chunks, and ends the round. -/
lemma Serves.sendChunksToSubscriber (h : m.Serves a fd loaded container) (hflag : m.flag = 1)
    (sent : ℕ) :
    ∃ m', m.sendChunksToSubscriber sent a = some m' ∧ m'.flag = 0 ∧
      m'.Serves a fd (min (loaded + sent) container.count) container := by
  let subscribers :=
    m.subscribers.set a (some ⟨fd, min (loaded + sent) container.count, none, none⟩)
  refine ⟨{ m with subscribers := subscribers }.decrement, ?_, ?_, h.first, ?_, h.count,
    h.container⟩
  · rw [ManagerMemory.sendChunksToSubscriber, h.container, Option.bind_some,
      Heap.modify_of_cell h.node, Option.map_some]
  · simp only [decrement, hflag]
    exact toChar_of_lt (by decide) (by decide)
  · simp only [decrement, subscribers, Heap.cell_set_self]

/-- `unsubscribe` of the only subscriber. -/
lemma Serves.unlink (h : m.Serves a fd loaded container) :
    ∃ m' m'', m.unlink (some a) = some m' ∧ m'.discard (some a) = some m'' ∧ m''.Idle := by
  let m' : ManagerMemory := { m with firstSubscriber := none, lastSubscriber := none }
  have hnode : m'.subscribers.cell a = some ⟨fd, loaded, none, none⟩ := h.node
  refine ⟨m', { m' with
    subscribersCount := m'.subscribersCount - 1
    subscribers := m'.subscribers.set a none }, ?_, ?_, rfl, ?_⟩
  · rw [ManagerMemory.unlink, Heap.load_some, h.node, Option.bind_some, if_pos ⟨rfl, rfl⟩]
  · rw [discard, Heap.free_of_cell hnode, Option.map_some]
  · exact Option.isSome_iff_exists.mpr ⟨container, h.container⟩

end ManagerMemory

namespace LockedManager

variable {m : ManagerMemory} {a fd loaded : ℕ} {container : ChunkContainer}

/-- A subscription links the subscriber. -/
lemma subscribe_some {m' : ManagerMemory} (h : m.link fd a = some m') :
    subscribe ⟨m, false⟩ fd (some a) = some ⟨m', false⟩ :=
  congrArg (Option.map fun m => LockedManager.mk m false) h

/-- Without memory for the subscriber the lock stays held. -/
lemma subscribe_none (m : ManagerMemory) (fd : ℕ) :
    subscribe ⟨m, false⟩ fd none = some ⟨m, true⟩ := rfl

/-- The round of `add_chunk` comes to its end. -/
def Returns (answer : AddAnswer) (a loaded : ℕ) (container : ChunkContainer) : Prop :=
  loaded ≠ (container.addChunk answer.payload answer.stored).count ∧
    (answer.upload a).info = true ∧ (answer.upload a).task = true

instance (answer : AddAnswer) (a loaded : ℕ) (container : ChunkContainer) :
    Decidable (Returns answer a loaded container) :=
  inferInstanceAs (Decidable (_ ∧ _))

/-- The loop of the round, with all its rounds. -/
lemma sendLoop_startRound (h : m.Serves a fd loaded container) (answer : AddAnswer) :
    (m.addChunk answer.payload answer.stored).startRound.sendLoop answer.upload
        (m.addChunk answer.payload answer.stored).startRound.subscribers.cells.length
        (m.addChunk answer.payload answer.stored).startRound.firstSubscriber =
      if Returns answer a loaded container then some [a] else none := by
  have hserves := (h.startRound answer.payload answer.stored).1
  obtain ⟨rounds, hrounds⟩ := hserves.exists_rounds
  rw [hrounds, hserves.sendLoop]
  rfl

/-- Where `add_chunk` returns, the manager still serves its subscriber. -/
lemma addChunk_of_returns (h : m.Serves a fd loaded container) {answer : AddAnswer}
    (hreturns : Returns answer a loaded container) :
    ∃ m', addChunk ⟨m, false⟩ answer = some ⟨m', false⟩ ∧
      m'.Serves a fd (min (loaded + (answer.upload a).sent)
        (container.addChunk answer.payload answer.stored).count)
        (container.addChunk answer.payload answer.stored) := by
  obtain ⟨hserves, hflag⟩ := h.startRound answer.payload answer.stored
  obtain ⟨m', hsend, hzero, hserves'⟩ :=
    hserves.sendChunksToSubscriber hflag (answer.upload a).sent
  have hloop := sendLoop_startRound h answer
  rw [if_pos hreturns] at hloop
  have htasks : [a].foldlM (fun (m : ManagerMemory) a =>
      m.sendChunksToSubscriber (answer.upload a).sent a)
      (m.addChunk answer.payload answer.stored).startRound = some m' := by
    rw [List.foldlM_cons, hsend]
    rfl
  have hnot : ¬ 0 < m'.flag := by
    rw [hzero]
    exact Int.lt_irrefl 0
  refine ⟨m', ?_, hserves'⟩
  simp only [addChunk, h.firstFd, Option.bind_some, Bool.false_eq_true, if_false, hloop, htasks,
    if_neg hnot, hserves'.firstFd, Option.map_some]

/-- Otherwise it does not return. -/
lemma addChunk_of_not_returns (h : m.Serves a fd loaded container) {answer : AddAnswer}
    (hreturns : ¬ Returns answer a loaded container) : addChunk ⟨m, false⟩ answer = none := by
  have hloop := sendLoop_startRound h answer
  rw [if_neg hreturns] at hloop
  simp only [addChunk, h.firstFd, Option.bind_some, Bool.false_eq_true, if_false, hloop,
    Option.bind_none]

/-- The calls of `add_chunk` come to their ends, one after the other. -/
def AllReturn (a : ℕ) : ℕ → ChunkContainer → List AddAnswer → Prop
  | _, _, [] => True
  | loaded, container, answer :: answers =>
    Returns answer a loaded container ∧
      AllReturn a (min (loaded + (answer.upload a).sent)
        (container.addChunk answer.payload answer.stored).count)
        (container.addChunk answer.payload answer.stored) answers

/-- The calls of `add_chunk` in a session. -/
def addChunks (manager : LockedManager) (answers : List AddAnswer) : Option LockedManager :=
  answers.foldlM addChunk manager

/-- Where all calls return, the manager still serves its subscriber. -/
lemma addChunks_of_allReturn {answers : List AddAnswer} (h : m.Serves a fd loaded container)
    (hreturn : AllReturn a loaded container answers) :
    ∃ m' loaded' container', addChunks ⟨m, false⟩ answers = some ⟨m', false⟩ ∧
      m'.Serves a fd loaded' container' := by
  induction answers generalizing m loaded container with
  | nil => exact ⟨m, loaded, container, rfl, h⟩
  | cons answer answers ih =>
    obtain ⟨m', hadd, h'⟩ := addChunk_of_returns h hreturn.1
    rw [addChunks, List.foldlM_cons, hadd]
    exact ih h' hreturn.2

/-- Otherwise the session does not come to an end. -/
lemma addChunks_of_not_allReturn {answers : List AddAnswer} (h : m.Serves a fd loaded container)
    (hreturn : ¬ AllReturn a loaded container answers) : addChunks ⟨m, false⟩ answers = none := by
  induction answers generalizing m loaded container with
  | nil => exact absurd trivial hreturn
  | cons answer answers ih =>
    rw [addChunks, List.foldlM_cons]
    by_cases hreturns : Returns answer a loaded container
    · obtain ⟨m', hadd, h'⟩ := addChunk_of_returns h hreturns
      rw [hadd]
      exact ih h' fun hall => hreturn ⟨hreturns, hall⟩
    · rw [addChunk_of_not_returns h hreturns]
      rfl

/-- The subscriber is unsubscribed. -/
lemma unsubscribe_of_serves (h : m.Serves a fd loaded container) :
    ∃ m', unsubscribe ⟨m, false⟩ a = some (⟨m', false⟩, fd) ∧ m'.Idle := by
  obtain ⟨m₁, m₂, hunlink, hdiscard, hidle⟩ := h.unlink
  refine ⟨m₂, ?_, hidle⟩
  rw [unsubscribe, if_neg Bool.false_ne_true, h.node, Option.bind_some, hunlink, Option.bind_some,
    hdiscard, Option.map_some]

/-- Without subscribers nothing is left to do. -/
lemma unsubscribeLoop_none (rounds : ℕ) (manager : LockedManager) :
    unsubscribeLoop rounds none manager = some (manager, []) := by
  cases rounds <;> rfl

/-- Without subscribers `finish_pending_chunks` does nothing. -/
lemma finishPendingChunks_of_first (manager : LockedManager)
    (h : manager.memory.firstSubscriber = none) :
    finishPendingChunks manager = some (manager, []) := by
  rw [finishPendingChunks, h, unsubscribeLoop_none]

/-- `finish_pending_chunks` closes the descriptor of the subscriber. -/
lemma finishPendingChunks_of_serves (h : m.Serves a fd loaded container) :
    ∃ m', finishPendingChunks ⟨m, false⟩ = some (⟨m', false⟩, [fd]) ∧ m'.Idle := by
  obtain ⟨rounds, hrounds⟩ := h.exists_rounds
  obtain ⟨m', hunsubscribe, hidle⟩ := unsubscribe_of_serves h
  refine ⟨m', ?_, hidle⟩
  rw [finishPendingChunks, hrounds, h.first, unsubscribeLoop, h.node, Option.bind_some,
    hunsubscribe, Option.bind_some]
  simp only [unsubscribeLoop_none, Option.map_some]

/-- Without subscribers the manager is destroyed. -/
lemma destroySubscriptionManager_of_idle (h : m.Idle) :
    destroySubscriptionManager ⟨m, false⟩ = some [] := by
  obtain ⟨container, hcontainer⟩ := Option.isSome_iff_exists.mp h.container
  rw [destroySubscriptionManager, if_neg Bool.false_ne_true, ManagerMemory.freeContainer,
    hcontainer, Option.map_some, Option.bind_some, h.first, unsubscribeLoop_none, Option.map_some]

/-- With a subscriber `destroy_subscription_manager` waits for the lock that it holds. -/
lemma destroySubscriptionManager_of_serves (h : m.Serves a fd loaded container) :
    destroySubscriptionManager ⟨m, false⟩ = none := by
  obtain ⟨rounds, hrounds⟩ := h.exists_rounds
  rw [destroySubscriptionManager, if_neg Bool.false_ne_true, ManagerMemory.freeContainer,
    h.container, Option.map_some, Option.bind_some, hrounds, h.first, unsubscribeLoop, h.node,
    Option.bind_some, unsubscribe, if_pos rfl, Option.bind_none, Option.map_none]

/-- It waits too if the lock was left held. -/
lemma destroySubscriptionManager_of_locked (m : ManagerMemory) :
    destroySubscriptionManager ⟨m, true⟩ = none := if_pos rfl

/-- So does `add_chunk`, unless it finds no subscriber to name in the log. -/
lemma addChunk_of_locked (m : ManagerMemory) (answer : AddAnswer) :
    addChunk ⟨m, true⟩ answer = none := by
  rw [addChunk, if_pos rfl]
  cases m.firstFd <;> rfl

end LockedManager

end OsLabs.Proxy
