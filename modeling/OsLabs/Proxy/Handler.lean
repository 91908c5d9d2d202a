import OsLabs.Proxy.Hashmap
import OsLabs.Proxy.Request

/-!
# The client handlers of the proxy

`__handle_client` of `lab3/src/handler/handler.c` as a step function over any number of handlers
that share the map of managers.  Every call of `get`, `create_subscription_manager`, `insert`,
`subscribe`, `cas`, `__create_session_data`, `finish_pending_chunks`,
`destroy_subscription_manager` and `delete` is one step; what a fallible call answers is part of
the choice of the step.  Two ways in which a call never returns are kept, because they decide who
can still reach a manager: `subscribe` leaves the manager's lock held when its allocation fails,
and `destroy_subscription_manager` takes the lock again for each subscriber that is still linked.

A manager is named by the number of its allocation, so a destroyed one is never mistaken for a
later one.  The fields `destroyed`, `key`, `everSubscribed` and `sessions` are not in the source;
they record what has happened to the manager.
-/

namespace OsLabs.Proxy

/-- `subscription_manager_t`, as far as the handlers see it. -/
structure Manager (n : ℕ) where
  /-- `is_busy`. -/
  isBusy : Bool
  /-- `lock` is held by a call that will not release it. -/
  lockStuck : Bool
  /-- The subscriber list: the handlers whose `fd` is linked. -/
  linked : List (Fin n)
  /-- The manager was freed. -/
  destroyed : Bool
  /-- The path it was created for. -/
  key : CharArray 512
  /-- The handlers that ever subscribed their `fd` to it. -/
  everSubscribed : List (Fin n)
  /-- The handlers whose `cas` on it succeeded. -/
  sessions : List (Fin n)

/-- Where a handler is in `__handle_client`, named by the call it makes next. -/
inductive Pc
  /-- `__recv`, `parse_http_request` and `__validate_request`. -/
  | start
  /-- `get(map, path)`. -/
  | lookup
  /-- `create_subscription_manager()`. -/
  | create
  /-- `insert(map, path, manager)`. -/
  | insert (m : ℕ)
  /-- `subscribe(manager, fd)`. -/
  | subscribe (m : ℕ)
  /-- `cas(&manager->is_busy, 0, 1)`. -/
  | cas (m : ℕ)
  /-- `__create_session_data(manager, request, context)`. -/
  | createSession (m : ℕ)
  /-- `__download_and_send(session)` or `__share_cache(session)`. -/
  | serve (m : ℕ)
  /-- `finish_pending_chunks(manager)`. -/
  | finish (m : ℕ)
  /-- `destroy_subscription_manager(&manager)`. -/
  | destroy (m : ℕ)
  /-- `delete(map, path)`, with the manager destroyed just before. -/
  | delete (m : ℕ)
  /-- `__handle_client` has returned. -/
  | ended
  /-- The handler waits for a lock that it holds itself. -/
  | hung (m : ℕ)
  deriving DecidableEq, Repr

/-- The state shared by `n` handlers. -/
structure ProxyState (n : ℕ) where
  /-- `context->map`. -/
  map : Hashmap ℕ
  /-- How many managers were allocated. -/
  managers : ℕ
  /-- The managers by allocation number. -/
  manager : ℕ → Manager n
  /-- The position of each handler. -/
  pc : Fin n → Pc

/-- Which handler makes its next call, and what a fallible call answers. -/
structure HandlerEvent (n : ℕ) where
  /-- The handler. -/
  handler : Fin n
  /-- The answer: the request was received and parsed, an allocation succeeded, the session had a
  chunk to add, or the `compare_exchange` on memory that is no longer a manager succeeded. -/
  outcome : Bool

namespace ProxyState

variable {n : ℕ}

/-- Handler `h` goes on to `pc`. -/
def goto (s : ProxyState n) (h : Fin n) (pc : Pc) : ProxyState n :=
  { s with pc := Function.update s.pc h pc }

/-- Overwrites one manager. -/
def setManager (s : ProxyState n) (m : ℕ) (mgr : Manager n) : ProxyState n :=
  { s with manager := Function.update s.manager m mgr }

/-- `insert(map, path, m)`. -/
def insert (s : ProxyState n) (path : CharArray 512) (m : ℕ) : ProxyState n :=
  { s with map := s.map.insert path.toCString m }

/-- `delete(map, path)`. -/
def delete (s : ProxyState n) (path : CharArray 512) : ProxyState n :=
  { s with map := s.map.delete path.toCString }

/-- The managers stored under a path, newest first. -/
def entries (s : ProxyState n) (path : CharArray 512) : List ℕ := s.map.stack path.toCString

end ProxyState

section Model

variable {n : ℕ}

/-- A manager as `create_subscription_manager` fills it; `key` records the path it is for. -/
def newManager (key : CharArray 512) : Manager n where
  isBusy := false
  lockStuck := false
  linked := []
  destroyed := false
  key := key
  everSubscribed := []
  sessions := []

/-- `create_subscription_manager`, called for a request with path `key`: the manager number
`s.managers`. -/
def createSubscriptionManager (s : ProxyState n) (key : CharArray 512) : ProxyState n :=
  { s.setManager s.managers (newManager key) with managers := s.managers + 1 }

/-- `subscribe` by handler `h`, whose allocation succeeds or not. -/
def Manager.subscribe (mgr : Manager n) (h : Fin n) (allocated : Bool) : Manager n :=
  if allocated then
    { mgr with linked := mgr.linked ++ [h], everSubscribed := h :: mgr.everSubscribed }
  else { mgr with lockStuck := true }

/-- The result of `cas(&manager->is_busy, 0, 1)`.  On a destroyed manager the compared memory can
hold anything, and `garbage` is the answer. -/
def Manager.casSucceeds (mgr : Manager n) (garbage : Bool) : Bool :=
  if mgr.destroyed then garbage else !mgr.isBusy

/-- The effect of a successful `cas` by handler `h`. -/
def Manager.claim (mgr : Manager n) (h : Fin n) : Manager n :=
  { mgr with isBusy := true, sessions := h :: mgr.sessions }

/-- The handlers before any of them has started. -/
def initialProxy (n : ℕ) : ProxyState n where
  map := Hashmap.createTable
  managers := 0
  manager := fun _ => newManager ⟨CString.empty, Nat.zero_lt_succ _⟩
  pc := fun _ => .start

/-- The next call of one handler, for the requests `req` of all of them. -/
def handlerStep (req : Fin n → HttpRequest) (s : ProxyState n) (e : HandlerEvent n) :
    Option (ProxyState n) :=
  let h := e.handler
  let path := (req h).path
  match s.pc h with
  | .start =>
    if e.outcome && validateRequest (req h) then some (s.goto h .lookup)
    else some (s.goto h .ended)
  | .lookup =>
    match s.map.get path.toCString with
    | some m => some (s.goto h (.subscribe m))
    | none => some (s.goto h .create)
  | .create =>
    if e.outcome then
      some ((createSubscriptionManager s path).goto h (.insert s.managers))
    else some (s.goto h .ended)
  | .insert m =>
    if e.outcome then some ((s.insert path m).goto h (.subscribe m))
    else some (s.goto h (.subscribe m))
  | .subscribe m =>
    if (s.manager m).lockStuck then none
    else some ((s.setManager m ((s.manager m).subscribe h e.outcome)).goto h (.cas m))
  | .cas m =>
    if (s.manager m).casSucceeds e.outcome then
      some ((s.setManager m ((s.manager m).claim h)).goto h (.createSession m))
    else some (s.goto h .ended)
  | .createSession m => some (s.goto h (if e.outcome then .serve m else .destroy m))
  | .serve m =>
    if (s.manager m).lockStuck && e.outcome then none else some (s.goto h (.finish m))
  | .finish m =>
    if (s.manager m).lockStuck && !(s.manager m).linked.isEmpty then none
    else some ((s.setManager m { s.manager m with linked := [] }).goto h (.destroy m))
  | .destroy m =>
    if (s.manager m).lockStuck then none
    else if (s.manager m).linked = [] then
      some ((s.setManager m { s.manager m with destroyed := true }).goto h (.delete m))
    else some ((s.setManager m { s.manager m with lockStuck := true }).goto h (.hung m))
  | .delete _ => some ((s.delete path).goto h .ended)
  | .ended | .hung _ => none

end Model

end OsLabs.Proxy
