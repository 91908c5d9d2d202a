import OsLabs.Foundation.Heap
import OsLabs.Proxy.Subscription

/-!
# A manager and its subscribers in memory

`subscription_manager_t` of `lab3/src/chunk/subscription.c` with its subscribers, which are linked
in both directions. The functions here are the parts of `subscribe`, `unsubscribe`, `add_chunk`,
`__send_chunks` and `destroy_subscription_manager` between two operations on a lock; `none` means
that a bad pointer was followed. The locks are not part of this memory.

`subscribers_count` is a natural number, since no memory holds `2 ^ 64` subscribers.
-/

namespace OsLabs.Proxy

/-- `subscriber_t`, without its lock. -/
structure SubscriberNode where
  fd : ℕ
  chunkLoaded : ℕ
  next : Option ℕ
  prev : Option ℕ

/-- `subscription_manager_t`, without its lock, with the memory of the subscribers. -/
structure ManagerMemory where
  isBusy : Bool
  /-- The value of the `char` in `flag`. -/
  flag : ℤ
  subscribersCount : ℕ
  firstSubscriber : Option ℕ
  lastSubscriber : Option ℕ
  /-- `none` once it was freed. -/
  container : Option ChunkContainer
  subscribers : Heap SubscriberNode

namespace ManagerMemory

/-- `create_subscription_manager`, when both allocations succeed. -/
def create : ManagerMemory where
  isBusy := false
  flag := 0
  subscribersCount := 0
  firstSubscriber := none
  lastSubscriber := none
  container := some ChunkContainer.create
  subscribers := Heap.empty

/-- The body of `subscribe`, with the address that `malloc` has answered. -/
def link (m : ManagerMemory) (fd address : ℕ) : Option ManagerMemory :=
  (m.subscribers.alloc address ⟨fd, 0, none, m.lastSubscriber⟩).bind fun subscribers =>
    match m.firstSubscriber with
    | none =>
      some { m with
        firstSubscriber := some address
        lastSubscriber := some address
        subscribersCount := m.subscribersCount + 1
        subscribers := subscribers }
    | some _ =>
      (subscribers.modify m.lastSubscriber fun s => { s with next := some address }).map
        fun subscribers => { m with
          lastSubscriber := some address
          subscribersCount := m.subscribersCount + 1
          subscribers := subscribers }

/-- `unsubscribe` with `next` and `prev` of its subscriber: `if (!next) … else …`. -/
def unlinkNext (m : ManagerMemory) (next prev : Option ℕ) : Option ManagerMemory :=
  match next with
  | none =>
    (m.subscribers.modify prev fun s => { s with next := none }).map fun subscribers =>
      { m with lastSubscriber := prev, subscribers := subscribers }
  | some _ =>
    (m.subscribers.modify next fun s => { s with prev := prev }).map fun subscribers =>
      { m with subscribers := subscribers }

/-- `unsubscribe` with `next` and `prev` of its subscriber: `if (!prev) … else …`. -/
def unlinkPrev (m : ManagerMemory) (next prev : Option ℕ) : Option ManagerMemory :=
  match prev with
  | none =>
    (m.subscribers.modify next fun s => { s with prev := none }).map fun subscribers =>
      { m with firstSubscriber := next, subscribers := subscribers }
  | some _ =>
    (m.subscribers.modify prev fun s => { s with next := next }).map fun subscribers =>
      { m with subscribers := subscribers }

/-- `unsubscribe` up to its label `end`. -/
def unlink (m : ManagerMemory) (subscriber : Option ℕ) : Option ManagerMemory :=
  (m.subscribers.load subscriber).bind fun s =>
    if s.next = none ∧ s.prev = none then
      some { m with firstSubscriber := none, lastSubscriber := none }
    else (m.unlinkNext s.next s.prev).bind fun m => m.unlinkPrev s.next s.prev

/-- `free(*subscriber)` and `subscribers_count--` at the end of `unsubscribe`. -/
def discard (m : ManagerMemory) (subscriber : Option ℕ) : Option ManagerMemory :=
  (m.subscribers.free subscriber).map fun subscribers =>
    { m with subscribersCount := m.subscribersCount - 1, subscribers := subscribers }

/-- `manager->first_subscriber->fd`, as the arguments of the log read it. -/
def firstFd (m : ManagerMemory) : Option ℕ :=
  (m.subscribers.load m.firstSubscriber).map SubscriberNode.fd

/-- `__add_chunk(manager->container, …)`, whose allocations succeed or not. -/
def addChunk (m : ManagerMemory) (p : Payload) (allocated : Bool) : ManagerMemory :=
  { m with container := m.container.map fun container => container.addChunk p allocated }

/-- `flag = subscribers_count`. -/
def startRound (m : ManagerMemory) : ManagerMemory := { m with flag := toChar m.subscribersCount }

/-- `flag--`. -/
def decrement (m : ManagerMemory) : ManagerMemory := { m with flag := toChar (m.flag - 1) }

/-- `chunk_loaded++`. -/
def loadChunk (m : ManagerMemory) (subscriber : ℕ) : Option ManagerMemory :=
  (m.subscribers.modify (some subscriber) fun s => { s with chunkLoaded := s.chunkLoaded + 1 }).map
    fun subscribers => { m with subscribers := subscribers }

/-- `free_chunk_container(&manager->container)`. -/
def freeContainer (m : ManagerMemory) : Option ManagerMemory :=
  m.container.map fun _ => { m with container := none }

end ManagerMemory

end OsLabs.Proxy
