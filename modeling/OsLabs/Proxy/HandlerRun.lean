import OsLabs.Proxy.Hashmap
import OsLabs.Proxy.Request
import OsLabs.Proxy.SessionRun

/-!
# A run of one handler

`__handle_client` of `lab3/src/handler/handler.c` while no other handler is active, from the receipt
of the request to `free(request)`. What a fallible step answers is given; the session is the list of
its calls of `add_chunk`, from the callback of the download or from the loop that reads the cache.
`none` means that the handler does not come to its end.

The record `client_data` and the session data have no other use than to be passed on and are left
out.
-/

namespace OsLabs.Proxy

/-- What the fallible steps of a handler answer. -/
structure HandlerAnswers where
  /-- `recv` does not fail. -/
  received : Bool
  /-- The result of `parse_http_request`. -/
  parsed : Option (ℕ × HttpRequest)
  /-- The two allocations of `create_subscription_manager`. -/
  manager : Option ℕ
  container : Bool
  /-- The allocation of `insert`. -/
  inserted : Bool
  /-- The allocation of `subscribe`. -/
  subscriber : Option ℕ
  /-- The allocation of `__create_session_data`. -/
  session : Bool
  /-- `__check_cache(request) == 0`. -/
  cached : Bool
  /-- `curl_easy_init` does not fail. -/
  curl : Bool
  /-- The allocation of `create_request_context`. -/
  requestContext : Bool
  /-- The calls of `add_chunk`. -/
  calls : List AddAnswer

/-- What the handlers change: the map of the managers, the managers and the requests in memory, and
the file descriptors that were closed, the last one first. -/
structure ProxyMemory where
  map : Hashmap ℕ
  managers : Heap LockedManager
  requests : Heap HttpRequest
  closed : List ℕ

/-- `__share_cache` or `__download_and_send`. -/
def LockedManager.serve (manager : LockedManager) (answers : HandlerAnswers) :
    Option LockedManager :=
  if answers.cached then manager.addChunks answers.calls
  else if answers.curl then
    if answers.requestContext then manager.addChunks answers.calls else none
  else some manager

namespace ProxyMemory

/-- `close(fd)`. -/
def close (w : ProxyMemory) (fd : ℕ) : ProxyMemory := { w with closed := fd :: w.closed }

/-- `create_subscription_manager`, with its result. -/
def createSubscriptionManager (w : ProxyMemory) (answers : HandlerAnswers) :
    Option (ProxyMemory × Option ℕ) :=
  match answers.manager with
  | none => some (w, none)
  | some m =>
    if answers.container then
      (w.managers.alloc m ⟨ManagerMemory.create, false⟩).map fun managers =>
        ({ w with managers := managers }, some m)
    else some (w, none)

/-- `insert(map, path, manager)`. -/
def insert (w : ProxyMemory) (answers : HandlerAnswers) (path : CString) (m : ℕ) : ProxyMemory :=
  if answers.inserted then { w with map := w.map.insert path m } else w

/-- `destroy_subscription_manager(&manager)` with `delete(map, path)`, after descriptors were
closed. -/
def destroy (w : ProxyMemory) (path : CString) (m : ℕ) (manager : LockedManager) (fds : List ℕ) :
    Option ProxyMemory :=
  manager.destroySubscriptionManager.bind fun fds' =>
    (w.managers.free (some m)).map fun managers =>
      { w with
        map := w.map.delete path
        managers := managers
        closed := (fds ++ fds').reverse ++ w.closed }

/-- The branch of the session main thread, behind the successful `cas`. -/
def runSession (w : ProxyMemory) (answers : HandlerAnswers) (path : CString) (m : ℕ)
    (manager : LockedManager) : Option ProxyMemory :=
  if answers.session then
    (manager.serve answers).bind fun manager =>
      manager.finishPendingChunks.bind fun (manager, fds) => w.destroy path m manager fds
  else w.destroy path m manager []

/-- `subscribe(manager, fd)` and what follows it, up to the label `end`. -/
def subscribe (w : ProxyMemory) (fd : ℕ) (answers : HandlerAnswers) (path : CString) (m : ℕ) :
    Option ProxyMemory :=
  (w.managers.cell m).bind fun manager =>
    (manager.subscribe fd answers.subscriber).bind fun manager =>
      if manager.memory.isBusy then some { w with managers := w.managers.set m (some manager) }
      else w.runSession answers path m
        { manager with memory := { manager.memory with isBusy := true } }

/-- `__handle_client` from the validation to the label `end`. -/
def handleRequest (w : ProxyMemory) (fd : ℕ) (answers : HandlerAnswers) (request : HttpRequest) :
    Option ProxyMemory :=
  let path := request.path.toCString
  if validateRequest request then
    match w.map.get path with
    | some m => w.subscribe fd answers path m
    | none =>
      (w.createSubscriptionManager answers).bind fun (w, manager) =>
        match manager with
        | none => some (w.close fd)
        | some m => (w.insert answers path m).subscribe fd answers path m
  else some (w.close fd)

/-- `__handle_client`. -/
def handleClient (w : ProxyMemory) (fd : ℕ) (answers : HandlerAnswers) : Option ProxyMemory :=
  match answers.received, answers.parsed with
  | true, some (r, request) =>
    (w.requests.alloc r request).bind fun requests =>
      (({ w with requests := requests } : ProxyMemory).handleRequest fd answers request).bind
        fun w => (w.requests.free (some r)).map fun requests => { w with requests := requests }
  | _, _ => some (w.close fd)

/-- The handler has closed its descriptor once, and has left the map, the managers and the requests
in memory as they were. -/
structure CleanedUp (fd : ℕ) (w w' : ProxyMemory) : Prop where
  closed : w'.closed = fd :: w.closed
  map : w'.map = w.map
  managers : w'.managers.cell = w.managers.cell
  requests : w'.requests.cell = w.requests.cell

end ProxyMemory

namespace HandlerAnswers

/-- The session comes to its end. -/
def ServeReturns (answers : HandlerAnswers) (a : ℕ) : Prop :=
  (answers.cached = false → answers.curl = true → answers.requestContext = true) ∧
    (answers.cached = true ∨ answers.curl = true →
      LockedManager.AllReturn a 0 ChunkContainer.create answers.calls)

/-- If the handler gets as far as to `subscribe`, the subscriber and the session are allocated, and
the session comes to its end. -/
def Survive (answers : HandlerAnswers) : Prop :=
  ∀ r request m, answers.received = true → answers.parsed = some (r, request) →
    validateRequest request = true → answers.manager = some m → answers.container = true →
      ∃ a, answers.subscriber = some a ∧ answers.session = true ∧ answers.ServeReturns a

end HandlerAnswers

namespace ProxyMemory

variable {w w' : ProxyMemory} {fd m a r : ℕ} {answers : HandlerAnswers} {path : CString}
  {request : HttpRequest}

/-- What the handler does up to the label `end` leaves all but its descriptor as it was. -/
structure Restored (fd : ℕ) (w w' : ProxyMemory) : Prop where
  closed : w'.closed = fd :: w.closed
  map : w'.map = w.map
  managers : w'.managers.cell = w.managers.cell
  requests : w'.requests = w.requests

/-- An early exit closes the descriptor and changes nothing else. -/
lemma restored_close (w : ProxyMemory) (fd : ℕ) : Restored fd w (w.close fd) :=
  ⟨rfl, rfl, rfl, rfl⟩

/-- The entry for a path is gone after the end of the session, whether it could be inserted or
not. -/
lemma delete_insert (habsent : w.map.get path = none) :
    (w.insert answers path m).map.delete path = w.map := by
  rw [insert]
  split_ifs
  · exact Hashmap.delete_insert w.map path m
  · exact Hashmap.delete_of_get habsent

/-- `insert` changes the map only. -/
lemma insert_frame (w : ProxyMemory) (answers : HandlerAnswers) (path : CString) (m : ℕ) :
    (w.insert answers path m).managers = w.managers ∧
      (w.insert answers path m).requests = w.requests ∧
      (w.insert answers path m).closed = w.closed := by
  rw [insert]
  split_ifs <;> exact ⟨rfl, rfl, rfl⟩

/-- The calls of the session come to their end as far as `ServeReturns` says. -/
lemma serve_of_returns {memory : ManagerMemory}
    (h : memory.Serves a fd 0 ChunkContainer.create) (hreturns : answers.ServeReturns a) :
    ∃ memory' loaded container', LockedManager.serve ⟨memory, false⟩ answers =
      some ⟨memory', false⟩ ∧ memory'.Serves a fd loaded container' := by
  rw [LockedManager.serve]
  split_ifs with hcached hcurl hcontext
  · exact LockedManager.addChunks_of_allReturn h (hreturns.2 (Or.inl hcached))
  · exact LockedManager.addChunks_of_allReturn h (hreturns.2 (Or.inr hcurl))
  · exact absurd (hreturns.1 (Bool.eq_false_iff.mpr hcached) hcurl) hcontext
  · exact ⟨memory, 0, _, rfl, h⟩

/-- Otherwise they do not. -/
lemma serve_of_not_returns {memory : ManagerMemory}
    (h : memory.Serves a fd 0 ChunkContainer.create) (hreturns : ¬ answers.ServeReturns a) :
    LockedManager.serve ⟨memory, false⟩ answers = none := by
  rw [LockedManager.serve]
  split_ifs with hcached hcurl hcontext
  · refine LockedManager.addChunks_of_not_allReturn h fun hall => hreturns ⟨?_, fun _ => hall⟩
    exact fun hnot => absurd hcached (Bool.eq_false_iff.mp hnot)
  · exact LockedManager.addChunks_of_not_allReturn h fun hall =>
      hreturns ⟨fun _ _ => hcontext, fun _ => hall⟩
  · rfl
  · exact absurd ⟨fun _ h => absurd h hcurl, fun h => absurd h (not_or_intro hcached hcurl)⟩
      hreturns

/-- A session whose subscriber could not be allocated does not come to its end. -/
lemma runSession_of_locked (memory : ManagerMemory) (hfirst : memory.firstSubscriber = none) :
    w.runSession answers path m ⟨memory, true⟩ = none := by
  have hdestroy : ∀ fds, w.destroy path m ⟨memory, true⟩ fds = none := by
    intro fds
    rw [destroy, LockedManager.destroySubscriptionManager_of_locked, Option.bind_none]
  have hadd : ∀ calls, (LockedManager.addChunks ⟨memory, true⟩ calls).bind (fun manager =>
      manager.finishPendingChunks.bind fun (manager, fds) => w.destroy path m manager fds) =
        none := by
    intro calls
    cases calls with
    | nil =>
      rw [LockedManager.addChunks, List.foldlM_nil, Option.pure_def, Option.bind_some,
        LockedManager.finishPendingChunks_of_first ⟨memory, true⟩ hfirst, Option.bind_some]
      exact hdestroy []
    | cons answer calls =>
      rw [LockedManager.addChunks, List.foldlM_cons, LockedManager.addChunk_of_locked]
      rfl
  rw [runSession, LockedManager.serve]
  split_ifs
  · exact hadd answers.calls
  · exact hadd answers.calls
  · rfl
  · exact hadd []
  · exact hdestroy []

/-- A session whose subscriber was allocated comes to its end as `Survive` says. -/
lemma runSession_of_returns {memory : ManagerMemory}
    (h : memory.Serves a fd 0 ChunkContainer.create) (hsession : answers.session = true)
    (hreturns : answers.ServeReturns a) :
    w.runSession answers path m ⟨memory, false⟩ =
      (w.managers.free (some m)).map fun managers =>
        { w with map := w.map.delete path, managers := managers, closed := fd :: w.closed } := by
  obtain ⟨memory', loaded, container, hserve, h'⟩ := serve_of_returns h hreturns
  obtain ⟨memory'', hfinish, hidle⟩ := LockedManager.finishPendingChunks_of_serves h'
  rw [runSession, if_pos hsession, hserve, Option.bind_some, hfinish, Option.bind_some]
  simp only [destroy, LockedManager.destroySubscriptionManager_of_idle hidle, Option.bind_some]
  rfl

/-- Otherwise it does not. -/
lemma runSession_of_not_returns {memory : ManagerMemory}
    (h : memory.Serves a fd 0 ChunkContainer.create)
    (hreturns : ¬ (answers.session = true ∧ answers.ServeReturns a)) :
    w.runSession answers path m ⟨memory, false⟩ = none := by
  rw [runSession]
  split_ifs with hsession
  · rw [serve_of_not_returns h fun hserve => hreturns ⟨hsession, hserve⟩, Option.bind_none]
  · rw [destroy, LockedManager.destroySubscriptionManager_of_serves h, Option.bind_none]

/-- A new manager after a subscription, which `cas` finds not busy. -/
lemma subscribe_of_some (hcell : w.managers.cell m = some ⟨ManagerMemory.create, false⟩)
    (hsubscriber : answers.subscriber = some a) :
    ∃ memory, memory.Serves a fd 0 ChunkContainer.create ∧
      w.subscribe fd answers path m = w.runSession answers path m ⟨memory, false⟩ := by
  obtain ⟨memory, hlink, hbusy, h⟩ := ManagerMemory.link_create fd a
  refine ⟨{ memory with isBusy := true }, ⟨h.first, h.node, h.count, h.container⟩, ?_⟩
  rw [subscribe, hcell, Option.bind_some, hsubscriber, LockedManager.subscribe_some hlink,
    Option.bind_some, hbusy, if_neg Bool.false_ne_true]

/-- Where all is allocated and the session comes to its end, the handler does so, too. -/
lemma subscribe_of_returns (hcell : w.managers.cell m = some ⟨ManagerMemory.create, false⟩)
    (hsubscriber : answers.subscriber = some a) (hsession : answers.session = true)
    (hreturns : answers.ServeReturns a) :
    w.subscribe fd answers path m = some
      { w with
        map := w.map.delete path
        managers := w.managers.set m none
        closed := fd :: w.closed } := by
  obtain ⟨memory, h, heq⟩ := subscribe_of_some hcell hsubscriber
  rw [heq, runSession_of_returns h hsession hreturns, Heap.free_of_cell hcell, Option.map_some]

/-- Otherwise it does not come to its end. -/
lemma subscribe_of_not_returns (hcell : w.managers.cell m = some ⟨ManagerMemory.create, false⟩)
    (hnot : ¬ ∃ a, answers.subscriber = some a ∧ answers.session = true ∧
      answers.ServeReturns a) :
    w.subscribe fd answers path m = none := by
  rcases Option.eq_none_or_eq_some answers.subscriber with hnone | ⟨a, hsubscriber⟩
  · rw [subscribe, hcell, Option.bind_some, hnone, LockedManager.subscribe_none, Option.bind_some]
    exact runSession_of_locked { ManagerMemory.create with isBusy := true } rfl
  · obtain ⟨memory, h, heq⟩ := subscribe_of_some hcell hsubscriber
    rw [heq, runSession_of_not_returns h fun hall => hnot ⟨a, hsubscriber, hall⟩]

/-- The handler has got as far as to `subscribe`. -/
def Subscribes (answers : HandlerAnswers) (request : HttpRequest) (m : ℕ) : Prop :=
  validateRequest request = true ∧ answers.manager = some m ∧ answers.container = true

/-- A handler that does not get as far as to `subscribe` restores everything. -/
lemma handleRequest_of_not_subscribes (habsent : w.map.get request.path.toCString = none)
    (hnot : ∀ m, ¬ Subscribes answers request m) :
    w.handleRequest fd answers request = some (w.close fd) := by
  simp only [handleRequest, habsent]
  split_ifs with hvalid
  · have hcreate : w.createSubscriptionManager answers = some (w, none) := by
      unfold createSubscriptionManager
      rcases Option.eq_none_or_eq_some answers.manager with hnone | ⟨m, hsome⟩
      · rw [hnone]
      · rw [hsome]
        exact if_neg fun hcontainer => hnot m ⟨hvalid, hsome, hcontainer⟩
    rw [hcreate, Option.bind_some]
  · rfl

/-- One that does goes on with a new manager. -/
lemma handleRequest_of_subscribes (habsent : w.map.get request.path.toCString = none)
    (hfree : w.managers.cell m = none) (hsubscribes : Subscribes answers request m) :
    w.handleRequest fd answers request =
      (({ w with managers := w.managers.set m (some ⟨ManagerMemory.create, false⟩) } :
        ProxyMemory).insert answers request.path.toCString m).subscribe fd answers
          request.path.toCString m := by
  obtain ⟨hvalid, hmanager, hcontainer⟩ := hsubscribes
  simp only [handleRequest, habsent, hvalid, if_true, createSubscriptionManager, hmanager,
    hcontainer, Heap.alloc_of_free hfree, Option.map_some, Option.bind_some]

/-- If the handler gets as far as to `subscribe`, all is allocated from there on and the session
comes to its end. -/
def Completes (answers : HandlerAnswers) (request : HttpRequest) : Prop :=
  ∀ m, Subscribes answers request m →
    ∃ a, answers.subscriber = some a ∧ answers.session = true ∧ answers.ServeReturns a

/-- The manager of a handler that has got as far as to `subscribe`. -/
lemma insert_new (w : ProxyMemory) (answers : HandlerAnswers) (path : CString) (m : ℕ) :
    ((({ w with managers := w.managers.set m (some ⟨ManagerMemory.create, false⟩) } :
      ProxyMemory).insert answers path m).managers.cell m) =
        some ⟨ManagerMemory.create, false⟩ := by
  rw [(insert_frame _ answers path m).1, Heap.cell_set_self]

/-- A handler that completes restores everything. -/
lemma handleRequest_of_completes (habsent : w.map.get request.path.toCString = none)
    (hfree : ∀ m, answers.manager = some m → w.managers.cell m = none)
    (hcompletes : Completes answers request) :
    ∃ w', w.handleRequest fd answers request = some w' ∧ Restored fd w w' := by
  by_cases hsubscribes : ∃ m, Subscribes answers request m
  · obtain ⟨m, hm⟩ := hsubscribes
    have hcell := hfree m hm.2.1
    obtain ⟨a, hsubscriber, hsession, hreturns⟩ := hcompletes m hm
    obtain ⟨hmanagers, hrequests, hclosed⟩ := insert_frame
      { w with managers := w.managers.set m (some ⟨ManagerMemory.create, false⟩) } answers
        request.path.toCString m
    rw [handleRequest_of_subscribes habsent hcell hm,
      subscribe_of_returns (insert_new w answers _ m) hsubscriber hsession hreturns]
    refine ⟨_, rfl, ?_, ?_, ?_, hrequests⟩
    · exact congrArg (fd :: ·) hclosed
    · exact delete_insert habsent
    · simp only [hmanagers, Heap.cell_set, Function.update_idem]
      rw [← hcell, Function.update_eq_self]
  · refine ⟨w.close fd, ?_, restored_close w fd⟩
    exact handleRequest_of_not_subscribes habsent fun m hm => hsubscribes ⟨m, hm⟩

/-- One that does not complete does not come to its end. -/
lemma handleRequest_of_not_completes (habsent : w.map.get request.path.toCString = none)
    (hfree : ∀ m, answers.manager = some m → w.managers.cell m = none)
    (hnot : ¬ Completes answers request) : w.handleRequest fd answers request = none := by
  obtain ⟨m, hm⟩ := not_forall.mp hnot
  obtain ⟨hsubscribes, hnot⟩ := Classical.not_imp.mp hm
  rw [handleRequest_of_subscribes habsent (hfree m hsubscribes.2.1) hsubscribes]
  exact subscribe_of_not_returns (insert_new w answers _ m) hnot

/-- `Survive` is about the request that was received and parsed. -/
lemma survive_iff (hreceived : answers.received = true)
    (hparsed : answers.parsed = some (r, request)) :
    answers.Survive ↔ Completes answers request := by
  constructor
  · intro h m hm
    exact h r request m hreceived hparsed hm.1 hm.2.1 hm.2.2
  · intro h r' request' m _ hparsed' hvalid hmanager hcontainer
    obtain ⟨rfl, rfl⟩ := Prod.mk.inj (Option.some.inj (hparsed.symm.trans hparsed'))
    exact h m ⟨hvalid, hmanager, hcontainer⟩

/-- Alone, and with no entry for its path in the map, `__handle_client` comes to its end with its
descriptor closed once and everything else as it was, for all answers but those with which
`subscribe` or the session gets no memory, or `add_chunk` does not return. -/
theorem handleClient_cleanedUp_iff
    (habsent : ∀ r request, answers.parsed = some (r, request) →
      w.map.get request.path.toCString = none)
    (hrequest : ∀ r request, answers.parsed = some (r, request) → w.requests.cell r = none)
    (hmanager : ∀ m, answers.manager = some m → w.managers.cell m = none) :
    (∃ w', w.handleClient fd answers = some w' ∧ CleanedUp fd w w') ↔ answers.Survive := by
  unfold handleClient
  split
  · rename_i r request hreceived hparsed
    rw [survive_iff hreceived hparsed, Heap.alloc_of_free (hrequest r request hparsed),
      Option.bind_some]
    have hcell := hrequest r request hparsed
    let w₁ : ProxyMemory := { w with requests := w.requests.set r (some request) }
    constructor
    · rintro ⟨w', hrun, -⟩
      by_contra hnot
      have hnone : w₁.handleRequest fd answers request = none :=
        handleRequest_of_not_completes (habsent r request hparsed) hmanager hnot
      rw [hnone] at hrun
      cases hrun
    · intro hcompletes
      obtain ⟨w₂, hrun, hrestored⟩ : ∃ w₂, w₁.handleRequest fd answers request = some w₂ ∧
          Restored fd w₁ w₂ :=
        handleRequest_of_completes (habsent r request hparsed) hmanager hcompletes
      have hnew : w₂.requests.cell r = some request := by
        rw [hrestored.requests, Heap.cell_set_self]
      refine ⟨{ w₂ with requests := w₂.requests.set r none }, ?_, hrestored.closed, hrestored.map,
        hrestored.managers, ?_⟩
      · rw [hrun, Option.bind_some, Heap.free_of_cell hnew, Option.map_some]
      · simp only [hrestored.requests, w₁, Heap.cell_set, Function.update_idem]
        rw [← hcell, Function.update_eq_self]
  · rename_i hearly
    refine iff_of_true ⟨w.close fd, rfl, rfl, rfl, rfl, rfl⟩ ?_
    intro r request m hreceived hparsed
    exact absurd hparsed (hearly r request hreceived)

/-- A map without entries, with no manager and no request in memory. -/
def emptyMemory : ProxyMemory := ⟨Hashmap.createTable, Heap.empty, Heap.empty, []⟩

/-- Everything is allocated, and one chunk is downloaded and sent. -/
def sampleAnswers : HandlerAnswers where
  received := true
  parsed := some (0, plainRequest methodGet samplePath)
  manager := some 0
  container := true
  inserted := true
  subscriber := some 0
  session := true
  cached := false
  curl := true
  requestContext := true
  calls := [⟨.ofBytes [97], true, fun _ => ⟨true, true, 1⟩⟩]

/-- The handler cleans up when everything is allocated. -/
theorem handleClient_sample :
    ∃ w', emptyMemory.handleClient 7 sampleAnswers = some w' ∧ CleanedUp 7 emptyMemory w' := by
  refine (handleClient_cleanedUp_iff ?_ ?_ ?_).mpr ?_
  · intro r request _
    rfl
  · intro r request _
    rfl
  · intro m _
    rfl
  · intro r request m _ _ _ _ _
    exact ⟨0, rfl, rfl, fun _ _ => rfl, fun _ => ⟨⟨by decide, rfl, rfl⟩, trivial⟩⟩

/-- Without memory for the subscriber, and without memory for the session, the handler does not come
to its end. -/
theorem handleClient_hangs :
    emptyMemory.handleClient 7 { sampleAnswers with subscriber := none } = none ∧
    emptyMemory.handleClient 7 { sampleAnswers with session := false } = none := by
  constructor <;> decide +kernel

end ProxyMemory

end OsLabs.Proxy
