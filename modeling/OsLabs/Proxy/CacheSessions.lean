import OsLabs.Foundation.WriteOnce
import OsLabs.Proxy.CacheFaults
import OsLabs.Proxy.CacheName
import OsLabs.Proxy.CompleteDelivery
import Mathlib.Data.Fintype.Basic

/-!
# Sessions over one cache

The sessions of `__handle_client` in `lab3/src/handler/handler.c` with the cache directory that they
share.  A session looks for its file (`__check_cache`); it reads the file (`__share_cache`) or asks
the origin server (`__download_and_send`) and saves a successful response; and its clients get the
chunks as `Subscription.lean` has it.  Sessions run in any order, each with its own manager, workers
and clients; a step of this module is a step of one of them, with every file operation and every
allocation successful.  File names are compared as text.

`sessions_linearize` compares this with a store in front of the origin servers (`WriteOnce`), which
is asked once for each session, in the order in which the sessions come to their end.
-/

namespace OsLabs.Proxy

open Transition

/-- `__check_response_code(code) == 0`. -/
def checkResponseCode (code : ℤ) : Bool := decide (200 ≤ code ∧ code < 300)

/-- The request of a session, with what the origin server answers, should it be asked. -/
structure Visit where
  request : RequestMemory
  cachename : CharArray cachenameLen
  named : request.parseRequestToCachename = some cachename
  /-- The arguments of the calls of `add_chunk` in `callback`. -/
  response : List Payload
  /-- The result of `send_http_request`. -/
  code : ℤ

namespace Visit

/-- The file of the session. -/
def file (visit : Visit) : CString := (fullCachename visit.cachename).toCString

/-- What the session asks of a store in front of the origin servers. -/
def query (visit : Visit) : WriteOnce.Query CString (List UInt8) where
  name := visit.file
  source := (addAll visit.response).content
  keep := checkResponseCode visit.code

end Visit

/-- Where the session main thread is. -/
inductive SessionPlace
  /-- No handler has become the session main thread. -/
  | waiting
  /-- Before `__check_cache`. -/
  | checking
  /-- Before `fopen` in `share_cache`. -/
  | opening
  /-- Before `curl_easy_perform`. -/
  | requesting
  /-- In the loop of `share_cache`. -/
  | sharing
  /-- In `curl_easy_perform`, or before `save_cache`. -/
  | downloading
  /-- In `finish_pending_chunks`, or later. -/
  | finishing
  deriving DecidableEq

/-- The session uses its file. -/
def SessionPlace.active : SessionPlace → Bool
  | .waiting | .finishing => false
  | _ => true

/-- `share_cache` or `curl_easy_perform` has made all its calls of `add_chunk`. -/
def Subscription.callsMade (m : Subscription) : Bool :=
  match m.pc, m.todo with
  | .idle, [] => true
  | _, _ => false

/-- The sessions and their files. `ended`, which is not in the source, are the sessions that have
done with their file, in this order. -/
structure CacheSessions (ι : Type) where
  files : Files
  place : ι → SessionPlace
  manager : ι → Subscription
  ended : List ι

/-- A choice of the scheduler. -/
inductive CacheEvent (ι : Type)
  /-- A handler subscribes to a new manager and becomes its session main thread. -/
  | start (i : ι) (fd : ℕ)
  /-- The session main thread makes a step outside `add_chunk` and `finish_pending_chunks`. -/
  | session (i : ι)
  /-- A step within the manager of the session. -/
  | manager (i : ι) (e : SubscriptionEvent)

namespace CacheSessions

variable {ι : Type} [DecidableEq ι]

/-- No session has begun. -/
def init (files : Files) : CacheSessions ι where
  files := files
  place := fun _ => .waiting
  manager := fun _ => Subscription.initial []
  ended := []

/-- The session goes on to a place. -/
def goTo (s : CacheSessions ι) (i : ι) (place : SessionPlace) : CacheSessions ι :=
  { s with place := Function.update s.place i place }

/-- The manager of the session is changed. -/
def setManager (s : CacheSessions ι) (i : ι) (m : Subscription) : CacheSessions ι :=
  { s with manager := Function.update s.manager i m }

/-- The session begins the calls of `add_chunk`. -/
def beginCalls (s : CacheSessions ι) (i : ι) (calls : List Payload) (place : SessionPlace) :
    CacheSessions ι :=
  (s.setManager i { s.manager i with todo := calls }).goTo i place

/-- The session has done with its file. -/
def finish (s : CacheSessions ι) (i : ι) (files : Files) : CacheSessions ι :=
  { s.goTo i .finishing with files := files, ended := s.ended ++ [i] }

/-- The files after `__download_and_send`. -/
def filesAfter (s : CacheSessions ι) (i : ι) (visit : Visit) : Files :=
  if checkResponseCode visit.code then
    saveCache s.files (s.manager i).container visit.cachename
  else s.files

/-- A step of the session main thread outside `add_chunk` and `finish_pending_chunks`. -/
def sessionStep (s : CacheSessions ι) (i : ι) (visit : Visit) : Option (CacheSessions ι) :=
  match s.place i with
  | .checking =>
    some (s.goTo i (if cacheExists s.files visit.cachename then .opening else .requesting))
  | .opening => (shareCache s.files visit.cachename).map fun calls => s.beginCalls i calls .sharing
  | .requesting => some (s.beginCalls i visit.response .downloading)
  | .sharing => if (s.manager i).callsMade then some (s.finish i s.files) else none
  | .downloading =>
    if (s.manager i).callsMade then some (s.finish i (s.filesAfter i visit)) else none
  | .waiting | .finishing => none

/-- The steps within a manager that are possible at a place: the calls of `add_chunk` are made by
`share_cache` and `curl_easy_perform`, and `finish_pending_chunks` comes after them. -/
def mayMove (place : SessionPlace) (m : Subscription) : SubscriptionEvent → Bool
  | .subscribe _ _ => place != .waiting
  | .session _ =>
    match place with
    | .sharing | .downloading => !m.callsMade
    | .finishing => true
    | _ => false
  | .worker _ _ =>
    match place with
    | .sharing | .downloading | .finishing => true
    | _ => false

/-- One step of the system. -/
def step (visit : ι → Visit) (s : CacheSessions ι) : CacheEvent ι → Option (CacheSessions ι)
  | .start i fd =>
    if s.place i = .waiting then
      some ((s.setManager i ((Subscription.initial []).link fd)).goTo i .checking)
    else none
  | .session i => s.sessionStep i (visit i)
  | .manager i e =>
    if mayMove (s.place i) (s.manager i) e then
      ((s.manager i).step e).map fun m => s.setManager i m
    else none

/-- The condition on a step: a session begins when no other one uses its file; and no `send` or
allocation fails, the rounds fit, and clients join in time. -/
def orderly (visit : ι → Visit) (s : CacheSessions ι) : CacheEvent ι → Prop
  | .start i _ => ∀ j, (visit j).file = (visit i).file → (s.place j).active = false
  | .session _ => True
  | .manager i e => (s.manager i).joinsInTime e = true ∧ (s.manager i).allSucceed e = true

instance [Fintype ι] (visit : ι → Visit) (s : CacheSessions ι) (e : CacheEvent ι) :
    Decidable (orderly visit s e) :=
  match e with
  | .start i _ => inferInstanceAs
      (Decidable (∀ j, (visit j).file = (visit i).file → (s.place j).active = false))
  | .session _ => isTrue trivial
  | .manager i e => inferInstanceAs
      (Decidable ((s.manager i).joinsInTime e = true ∧ (s.manager i).allSucceed e = true))

end CacheSessions

/-! ## One manager -/

namespace Subscription

variable {m m' : Subscription} {calls : List Payload} {e : SubscriptionEvent}

/-- A step without failures, of a client that joins in time. -/
def undisturbed (m : Subscription) (e : SubscriptionEvent) : Prop :=
  m.joinsInTime e = true ∧ m.allSucceed e = true

/-- The manager of a session that makes these calls of `add_chunk`. -/
def Serving (calls : List Payload) (m : Subscription) : Prop :=
  ∃ fd, Run step undisturbed ((initial calls).link fd) m

/-- A step keeps it so. -/
lemma Serving.step (h : Serving calls m) (hok : m.undisturbed e) (hst : m.step e = some m') :
    Serving calls m' := by
  obtain ⟨fd, hrun⟩ := h
  exact ⟨fd, hrun.tail hok hst⟩

/-- When the calls were made, the container has their chunks. -/
lemma Serving.container (h : Serving calls m) (hreturned : m.returned = true) :
    m.container = addAll calls := by
  obtain ⟨fd, hrun⟩ := h
  have hbegins : Begins calls ((initial calls).link fd) :=
    ⟨rfl, rfl, rfl, List.cons_ne_nil _ _⟩
  exact (container_of_calls hbegins (hrun.mono fun _ _ hok => hok.2)).2 hreturned

/-- A client whose connection was closed has got the content of these chunks. -/
lemma Serving.accepted (h : Serving calls m) {k : ℕ} (hclosed : (m.subscriber k).closed = true) :
    m.pc.tearing = true ∧ (m.subscriber k).accepted = (addAll calls).content := by
  have hserving := h
  obtain ⟨fd, hrun⟩ := h
  have hrun' : Run Subscription.step (joinsInTime · · = true) (initial calls) m := by
    apply Run.head (e := .subscribe fd true) _ rfl
    · exact hrun.mono fun _ _ hok => hok.1
    · exact Bool.or_true _
  have hserved := served_of_run hrun'
  obtain ⟨htearing, hk⟩ := hserved.closed k hclosed
  obtain ⟨-, hloaded⟩ := hserved.ended htearing
  have hreturned : m.returned = true := Bool.or_eq_true_iff.mpr (Or.inr htearing)
  have hzero : m.pending = 0 := by
    apply (barrier_of_run (fun _ _ => roundFits_of_joinsInTime) hrun').calm
    revert htearing
    generalize m.pc = pc
    intro htearing
    cases pc <;> first | rfl | cases htearing
  refine ⟨htearing, ?_⟩
  rw [accepted_of_calm (locks_of_run hrun') (guarded_of_run intact_local hrun') hzero,
    hloaded k hk, ChunkContainer.upTo_count, hserving.container hreturned]

/-- The manager of a session whose calls are not known yet. -/
structure Preparing (m : Subscription) : Prop where
  pc : m.pc = .idle
  empty : m.container.count = 0
  serving : ∀ calls, Serving calls { m with todo := calls }

/-- At first it has one subscriber. -/
lemma Preparing.link (fd : ℕ) : Preparing ((initial []).link fd) where
  pc := rfl
  empty := rfl
  serving _ := ⟨fd, Run.refl⟩

/-- It gets new ones. -/
lemma Preparing.subscribe (h : Preparing m) {fd : ℕ}
    (hst : m.step (.subscribe fd true) = some m') : Preparing m' := by
  obtain ⟨hpc, hempty, hserving⟩ := h
  rw [Subscription.step] at hst
  split_ifs at hst with hlocked
  obtain rfl : m.subscribe fd true = m' := Option.some.inj hst
  refine ⟨hpc, hempty, fun calls => ?_⟩
  apply (hserving calls).step (e := .subscribe fd true)
  · refine ⟨?_, rfl⟩
    show (!calls.isEmpty || m.container.count == 0) = true
    rw [hempty]
    exact Bool.or_true _
  · rw [Subscription.step, if_neg hlocked]
    rfl

/-- Before the calls are made, `finish_pending_chunks` does not begin. -/
lemma tearing_step (htearing : m.pc.tearing = false) (hcalls : e = .session true →
    m.callsMade = false) (hok : m.allSucceed e = true) (hst : m.step e = some m') :
    m'.pc.tearing = false := by
  cases e with
  | subscribe fd allocated =>
    rw [Subscription.step] at hst
    split_ifs at hst with hlocked
    cases hst
    cases allocated
    · exact htearing
    · exact htearing
  | worker k sent =>
    obtain ⟨task, sub, pc, -, -, rfl⟩ := workerStep_eq_some hst
    exact htearing
  | session allocated =>
    obtain rfl : allocated = true := hok
    have hmade := hcalls rfl
    cases sessionMove_of_step hst with
    | finish hpc htodo =>
      rw [callsMade, hpc, htodo] at hmade
      cases hmade
    | visit hpc | unlink hpc | close hpc =>
      rw [hpc] at htearing
      cases htearing
    | _ => rfl

end Subscription

/-! ## The sessions -/

namespace CacheSessions

variable {ι : Type} [DecidableEq ι] {visit : ι → Visit} {files content : Files}
  {s t : CacheSessions ι} {i j : ι} {m m' : Subscription} {place : SessionPlace}
  {ended later : List ι} {e : CacheEvent ι}

/-- The store in front of the origin servers, after these sessions. -/
def stored (visit : ι → Visit) (files : Files) (ended : List ι) : Files :=
  WriteOnce.run files (ended.map fun i => (visit i).query)

/-- What the store answers to a session after other ones. -/
def answered (visit : ι → Visit) (files : Files) (ended : List ι) (i : ι) : List UInt8 :=
  WriteOnce.answer (stored visit files ended) (visit i).query

/-- What is known of a session at each place, where its file has the given content and these
sessions have ended. -/
def AtPlace (visit : ι → Visit) (files : Files) (i : ι) (content : Option (List UInt8))
    (m : Subscription) (ended : List ι) : SessionPlace → Prop
  | .waiting => m = Subscription.initial []
  | .checking => m.Preparing
  | .opening => m.Preparing ∧ content.isSome = true
  | .requesting => m.Preparing ∧ content = none
  | .sharing => ∃ calls, m.Serving calls ∧ m.pc.tearing = false ∧
      content = some (addAll calls).content
  | .downloading => m.Serving (visit i).response ∧ m.pc.tearing = false ∧ content = none
  | .finishing => ∃ earlier later calls, ended = earlier ++ i :: later ∧ m.Serving calls ∧
      (addAll calls).content = answered visit files earlier i

/-- The sessions agree with the store. -/
structure Agrees (visit : ι → Visit) (files : Files) (s : CacheSessions ι) : Prop where
  place : ∀ i, AtPlace visit files i (s.files (visit i).file) (s.manager i) s.ended (s.place i)
  files : s.files = stored visit files s.ended
  /-- No two sessions use one file. -/
  alone : ∀ i j, (s.place i).active = true → (s.place j).active = true →
    (visit i).file = (visit j).file → i = j
  ended : ∀ i, i ∈ s.ended ↔ s.place i = .finishing
  nodup : s.ended.Nodup

omit [DecidableEq ι] in
/-- Only a session that has done with its file closes connections, when it has given its clients
what the store answers. -/
lemma AtPlace.accepted {content : Option (List UInt8)} {k : ℕ}
    (h : AtPlace visit files i content m ended place) (hclosed : (m.subscriber k).closed = true) :
    ∃ earlier later, ended = earlier ++ i :: later ∧
      (m.subscriber k).accepted = answered visit files earlier i := by
  have hidle : m.Preparing → False := by
    intro hprep
    have hserving : ({ m with todo := [] } : Subscription).Serving [] := hprep.serving []
    have htearing : m.pc.tearing = true := (hserving.accepted hclosed).1
    rw [hprep.pc] at htearing
    cases htearing
  have hopen : ∀ calls, m.Serving calls → m.pc.tearing = false → False := by
    intro calls hserving hnot
    rw [(hserving.accepted hclosed).1] at hnot
    cases hnot
  cases place with
  | waiting =>
    rw [show m = Subscription.initial [] from h] at hclosed
    cases hclosed
  | checking => exact (hidle h).elim
  | opening => exact (hidle h.1).elim
  | requesting => exact (hidle h.1).elim
  | sharing =>
    obtain ⟨calls, hserving, hnot, -⟩ := h
    exact (hopen calls hserving hnot).elim
  | downloading => exact (hopen _ h.1 h.2.1).elim
  | finishing =>
    obtain ⟨earlier, later, calls, hended, hserving, hcontent⟩ := h
    exact ⟨earlier, later, hended, (hserving.accepted hclosed).2.trans hcontent⟩

omit [DecidableEq ι] in
/-- What is known of a session stays so when other sessions end. -/
lemma AtPlace.append {content content' : Option (List UInt8)}
    (h : AtPlace visit files i content m ended place)
    (hcontent : place.active = true → content' = content) :
    AtPlace visit files i content' m (ended ++ later) place := by
  cases place with
  | waiting => exact h
  | checking => exact h
  | opening => exact ⟨h.1, (hcontent rfl).symm ▸ h.2⟩
  | requesting => exact ⟨h.1, (hcontent rfl).trans h.2⟩
  | sharing =>
    obtain ⟨calls, hserving, hnot, heq⟩ := h
    exact ⟨calls, hserving, hnot, (hcontent rfl).trans heq⟩
  | downloading => exact ⟨h.1, h.2.1, (hcontent rfl).trans h.2.2⟩
  | finishing =>
    obtain ⟨earlier, later', calls, hended, hserving, heq⟩ := h
    refine ⟨earlier, later' ++ later, calls, ?_, hserving, heq⟩
    rw [hended, List.append_assoc, List.cons_append]

/-- A session that has not begun its calls only gets new clients. -/
lemma exists_subscribe {e : SubscriptionEvent} (hmay : mayMove place m e = true)
    (hplace : place = .checking ∨ place = .opening ∨ place = .requesting) :
    ∃ fd allocated, e = .subscribe fd allocated := by
  cases e with
  | subscribe fd allocated => exact ⟨fd, allocated, rfl⟩
  | session allocated => rcases hplace with rfl | rfl | rfl <;> cases hmay
  | worker k sent => rcases hplace with rfl | rfl | rfl <;> cases hmay

omit [DecidableEq ι] in
/-- A step within a manager keeps what is known of its session. -/
lemma AtPlace.manager {content : Option (List UInt8)} {e : SubscriptionEvent}
    (h : AtPlace visit files i content m ended place) (hmay : mayMove place m e = true)
    (hok : m.undisturbed e) (hst : m.step e = some m') :
    AtPlace visit files i content m' ended place := by
  have hprep : m.Preparing → place = .checking ∨ place = .opening ∨ place = .requesting →
      m'.Preparing := by
    intro h hplace
    obtain ⟨fd, allocated, rfl⟩ := exists_subscribe hmay hplace
    obtain rfl : allocated = true := hok.2
    exact h.subscribe hst
  have htearing : m.pc.tearing = false → place = .sharing ∨ place = .downloading →
      m'.pc.tearing = false := by
    intro h hplace
    apply Subscription.tearing_step h _ hok.2 hst
    rintro rfl
    rw [← Bool.not_eq_true']
    rcases hplace with rfl | rfl
    · exact hmay
    · exact hmay
  cases place with
  | waiting =>
    obtain rfl : m = Subscription.initial [] := h
    cases e <;> cases hmay
  | checking => exact hprep h (Or.inl rfl)
  | opening => exact ⟨hprep h.1 (Or.inr (Or.inl rfl)), h.2⟩
  | requesting => exact ⟨hprep h.1 (Or.inr (Or.inr rfl)), h.2⟩
  | sharing =>
    obtain ⟨calls, hserving, hnot, heq⟩ := h
    exact ⟨calls, hserving.step hok hst, htearing hnot (Or.inl rfl), heq⟩
  | downloading =>
    obtain ⟨hserving, hnot, heq⟩ := h
    exact ⟨hserving.step hok hst, htearing hnot (Or.inr rfl), heq⟩
  | finishing =>
    obtain ⟨earlier, later, calls, hended, hserving, heq⟩ := h
    exact ⟨earlier, later, calls, hended, hserving.step hok hst, heq⟩

/-! ## One step of the system -/

omit [DecidableEq ι] in
/-- At first the sessions agree with the store. -/
lemma Agrees.init (visit : ι → Visit) (files : Files) :
    Agrees visit files (CacheSessions.init files) where
  place _ := rfl
  files := rfl
  alone _ _ h _ _ := nomatch h
  ended _ := ⟨fun h => (List.not_mem_nil h).elim, fun h => nomatch h⟩
  nodup := List.nodup_nil

/-- A session goes on to a place where it still uses its file, or begins to use it. -/
lemma Agrees.goTo (h : Agrees visit files s) (hactive : place.active = true)
    (hplace : AtPlace visit files i (s.files (visit i).file) m s.ended place)
    (hfinished : s.place i ≠ .finishing)
    (halone : ∀ j, j ≠ i → (s.place j).active = true → (visit j).file ≠ (visit i).file) :
    Agrees visit files ((s.setManager i m).goTo i place) where
  place j := by
    show AtPlace visit files j _ (Function.update s.manager i m j) _
      (Function.update s.place i place j)
    by_cases hj : j = i
    · subst hj
      rw [Function.update_self, Function.update_self]
      exact hplace
    · rw [Function.update_of_ne hj, Function.update_of_ne hj]
      exact h.place j
  files := h.files
  alone j k hj hk hfile := by
    replace hj : (Function.update s.place i place j).active = true := hj
    replace hk : (Function.update s.place i place k).active = true := hk
    by_cases hji : j = i <;> by_cases hki : k = i
    · rw [hji, hki]
    · subst hji
      rw [Function.update_of_ne hki] at hk
      exact absurd hfile.symm (halone k hki hk)
    · subst hki
      rw [Function.update_of_ne hji] at hj
      exact absurd hfile (halone j hji hj)
    · rw [Function.update_of_ne hji] at hj
      rw [Function.update_of_ne hki] at hk
      exact h.alone j k hj hk hfile
  ended j := by
    rw [show ((s.setManager i m).goTo i place).ended = s.ended from rfl, h.ended]
    show _ ↔ Function.update s.place i place j = _
    by_cases hj : j = i
    · subst hj
      rw [Function.update_self]
      refine iff_of_false hfinished ?_
      rintro rfl
      cases hactive
    · rw [Function.update_of_ne hj]
  nodup := h.nodup

omit [DecidableEq ι] in
/-- One session more is one query more. -/
lemma stored_concat (visit : ι → Visit) (files : Files) (ended : List ι) (i : ι) :
    stored visit files (ended ++ [i]) =
      WriteOnce.after (stored visit files ended) (visit i).query := by
  unfold stored
  rw [List.map_append, List.map_singleton, WriteOnce.run_concat]

/-- A session that has made its calls has done with its file. -/
lemma Agrees.finish (h : Agrees visit files s) (hactive : (s.place i).active = true)
    {calls : List Payload} (hserving : (s.manager i).Serving calls)
    (hcontent : (addAll calls).content = answered visit files s.ended i)
    (hafter : content = stored visit files (s.ended ++ [i])) :
    Agrees visit files (s.finish i content) where
  place j := by
    show AtPlace visit files j _ (s.manager j) (s.ended ++ [i])
      (Function.update s.place i .finishing j)
    by_cases hj : j = i
    · subst hj
      rw [Function.update_self]
      exact ⟨s.ended, [], calls, rfl, hserving, hcontent⟩
    · rw [Function.update_of_ne hj]
      apply (h.place j).append
      intro hjactive
      have hne : (visit j).file ≠ (visit i).query.name := fun hfile =>
        hj (h.alone j i hjactive hactive hfile)
      show content _ = _
      rw [hafter, stored_concat, WriteOnce.after_of_ne hne, ← h.files]
  files := hafter
  alone j k hj hk hfile := by
    have hstill : ∀ l, (Function.update s.place i .finishing l).active = true →
        (s.place l).active = true := by
      intro l hl
      by_cases hli : l = i
      · rw [hli]
        exact hactive
      · rw [Function.update_of_ne hli] at hl
        exact hl
    exact h.alone j k (hstill j hj) (hstill k hk) hfile
  ended j := by
    show j ∈ s.ended ++ [i] ↔ Function.update s.place i .finishing j = _
    rw [List.mem_append, List.mem_singleton, h.ended]
    by_cases hj : j = i
    · rw [hj, Function.update_self]
      exact iff_of_true (Or.inr rfl) rfl
    · rw [Function.update_of_ne hj]
      exact or_iff_left hj
  nodup := by
    apply List.Nodup.append h.nodup (List.nodup_singleton i)
    rw [List.disjoint_singleton, h.ended]
    intro hfinished
    rw [hfinished] at hactive
    cases hactive

/-- The calls of `add_chunk` were all made. -/
lemma idle_of_callsMade (h : m.callsMade = true) : m.pc = .idle ∧ m.todo = [] := by
  unfold Subscription.callsMade at h
  split at h
  next hpc htodo => exact ⟨hpc, htodo⟩
  next => cases h

/-- The file that was found is read, and it is what the store answers. -/
lemma Agrees.finish_sharing (h : Agrees visit files s) (hplace : s.place i = .sharing) :
    Agrees visit files (s.finish i s.files) := by
  have hat := h.place i
  rw [hplace] at hat
  obtain ⟨calls, hserving, -, hfile⟩ := hat
  have hstored : stored visit files s.ended (visit i).query.name = some (addAll calls).content :=
    h.files ▸ hfile
  apply h.finish (by rw [hplace]; rfl) hserving
  · rw [answered, WriteOnce.answer, hstored, Option.getD_some]
  · rw [stored_concat, WriteOnce.after_of_isSome (by rw [hstored]; rfl), h.files]

/-- The response is what the store answers, and a successful one is saved. -/
lemma Agrees.finish_downloading (h : Agrees visit files s) (hplace : s.place i = .downloading)
    (hmade : (s.manager i).callsMade = true) :
    Agrees visit files (s.finish i (s.filesAfter i (visit i))) := by
  have hat := h.place i
  rw [hplace] at hat
  obtain ⟨hserving, -, hnone⟩ := hat
  obtain ⟨hpc, htodo⟩ := idle_of_callsMade hmade
  have hcontainer := hserving.container (by rw [Subscription.returned, hpc, htodo]; rfl)
  have hmissing : stored visit files s.ended (visit i).query.name = none := h.files ▸ hnone
  apply h.finish (by rw [hplace]; rfl) hserving
  · rw [answered, WriteOnce.answer, hmissing, Option.getD_none]
    rfl
  · rw [stored_concat, filesAfter, h.files]
    split_ifs with hcode
    · rw [WriteOnce.after_of_keep hcode hmissing, saveCache_eq, hcontainer]
      rfl
    · rw [WriteOnce.after_of_not_keep (Bool.eq_false_iff.mpr hcode)]

/-- A manager that is written back. -/
lemma setManager_self (s : CacheSessions ι) (i : ι) : s.setManager i (s.manager i) = s := by
  rw [setManager, Function.update_eq_self]

/-- `__check_cache` finds the file or not. -/
lemma Agrees.check (h : Agrees visit files s) (hplace : s.place i = .checking)
    (halone : ∀ j, j ≠ i → (s.place j).active = true → (visit j).file ≠ (visit i).file) :
    Agrees visit files
      (s.goTo i (if cacheExists s.files (visit i).cachename then .opening else .requesting)) := by
  have hat := h.place i
  rw [hplace] at hat
  have hfinished : s.place i ≠ .finishing := by
    rw [hplace]
    decide
  have hgo : ∀ place, (s.setManager i (s.manager i)).goTo i place = s.goTo i place := by
    intro place
    rw [setManager_self]
  by_cases hexists : cacheExists s.files (visit i).cachename = true
  · rw [if_pos hexists, ← hgo]
    exact h.goTo rfl ⟨hat, hexists⟩ hfinished halone
  · rw [if_neg hexists, ← hgo]
    apply h.goTo rfl _ hfinished halone
    refine ⟨hat, ?_⟩
    rw [cacheExists, Option.not_isSome_iff_eq_none] at hexists
    exact hexists

/-- `share_cache` opens the file. -/
lemma Agrees.openFile (h : Agrees visit files s) (hplace : s.place i = .opening)
    (halone : ∀ j, j ≠ i → (s.place j).active = true → (visit j).file ≠ (visit i).file)
    {calls : List Payload} (hcalls : shareCache s.files (visit i).cachename = some calls) :
    Agrees visit files (s.beginCalls i calls .sharing) := by
  have hat := h.place i
  rw [hplace] at hat
  obtain ⟨hprep, hsome⟩ := hat
  obtain ⟨file, hfile⟩ := Option.isSome_iff_exists.mp hsome
  obtain ⟨calls', hshare, hcontent⟩ := exists_calls_of_file hfile
  obtain rfl : calls' = calls := Option.some.inj (hshare.symm.trans hcalls)
  apply h.goTo rfl _ (by rw [hplace]; decide) halone
  refine ⟨calls', hprep.serving calls', ?_, ?_⟩
  · rw [hprep.pc]
    rfl
  · rw [hcontent]
    exact hfile

/-- `curl_easy_perform` begins to call `callback`. -/
lemma Agrees.request (h : Agrees visit files s) (hplace : s.place i = .requesting)
    (halone : ∀ j, j ≠ i → (s.place j).active = true → (visit j).file ≠ (visit i).file) :
    Agrees visit files (s.beginCalls i (visit i).response .downloading) := by
  have hat := h.place i
  rw [hplace] at hat
  obtain ⟨hprep, hnone⟩ := hat
  apply h.goTo rfl _ (by rw [hplace]; decide) halone
  refine ⟨hprep.serving _, ?_, hnone⟩
  rw [hprep.pc]
  rfl

/-- A session makes a step outside `add_chunk` and `finish_pending_chunks`. -/
lemma Agrees.session (h : Agrees visit files s) (hst : s.sessionStep i (visit i) = some t) :
    Agrees visit files t := by
  have halone : (s.place i).active = true → ∀ j, j ≠ i → (s.place j).active = true →
      (visit j).file ≠ (visit i).file :=
    fun hactive j hj hjactive hfile => hj (h.alone j i hjactive hactive hfile)
  unfold sessionStep at hst
  split at hst
  next hplace =>
    obtain rfl := Option.some.inj hst
    exact h.check hplace (halone (by rw [hplace]; rfl))
  next hplace =>
    obtain ⟨calls, hcalls, rfl⟩ := Option.map_eq_some_iff.mp hst
    exact h.openFile hplace (halone (by rw [hplace]; rfl)) hcalls
  next hplace =>
    obtain rfl := Option.some.inj hst
    exact h.request hplace (halone (by rw [hplace]; rfl))
  next hplace =>
    split_ifs at hst
    cases hst
    exact h.finish_sharing hplace
  next hplace =>
    split_ifs at hst with hmade
    cases hst
    exact h.finish_downloading hplace hmade
  next => cases hst
  next => cases hst

/-- A handler becomes the main thread of a new session. -/
lemma Agrees.start (h : Agrees visit files s) {fd : ℕ} (hok : orderly visit s (.start i fd))
    (hplace : s.place i = .waiting) :
    Agrees visit files ((s.setManager i ((Subscription.initial []).link fd)).goTo i .checking) := by
  apply h.goTo rfl
  · exact Subscription.Preparing.link fd
  · rw [hplace]
    decide
  · intro j _ hactive hfile
    rw [hok j hfile] at hactive
    cases hactive

/-- A step within a manager. -/
lemma Agrees.manager (h : Agrees visit files s) {e : SubscriptionEvent}
    (hok : orderly visit s (.manager i e)) (hmay : mayMove (s.place i) (s.manager i) e = true)
    (hst : (s.manager i).step e = some m) : Agrees visit files (s.setManager i m) where
  place j := by
    show AtPlace visit files j _ (Function.update s.manager i m j) s.ended (s.place j)
    by_cases hj : j = i
    · subst hj
      rw [Function.update_self]
      exact (h.place j).manager hmay hok hst
    · rw [Function.update_of_ne hj]
      exact h.place j
  files := h.files
  alone := h.alone
  ended := h.ended
  nodup := h.nodup

/-- Every step of the system. -/
lemma Agrees.step (h : Agrees visit files s) (hok : orderly visit s e)
    (hst : step visit s e = some t) : Agrees visit files t := by
  cases e with
  | start i fd =>
    rw [CacheSessions.step] at hst
    split_ifs at hst with hplace
    cases hst
    exact h.start hok hplace
  | session i => exact h.session hst
  | manager i e =>
    rw [CacheSessions.step] at hst
    split_ifs at hst with hmay
    obtain ⟨m, hm, rfl⟩ := Option.map_eq_some_iff.mp hst
    exact h.manager hok hmay hm

/-! ## Whole runs -/

/-- The sessions agree with the store after every run. -/
theorem agrees_of_run (h : Run (CacheSessions.step visit) (orderly visit) (init files) s) :
    Agrees visit files s :=
  h.invariant (Agrees.init visit files) fun _ _ _ hagrees hok hst => hagrees.step hok hst

/-- The request `GET http://a/ HTTP/1.1`, to which the origin server answers with one chunk. -/
def sampleVisit (byte : UInt8) : Visit where
  request := (RequestMemory.parseHttpRequest (RequestMemory.plainText.bytes ++ [0])
    RequestText.zeroMemory).get (by decide +kernel)
  cachename := ((RequestMemory.parseHttpRequest (RequestMemory.plainText.bytes ++ [0])
    RequestText.zeroMemory).get (by decide +kernel)).parseRequestToCachename.get (by decide +kernel)
  named := (Option.some_get _).symm
  response := [Payload.ofBytes [byte]]
  code := 200

/-- A session with one client and one chunk. -/
def sampleEvents (i : Bool) : List (CacheEvent Bool) :=
  [.start i 5, .session i, .session i] ++
    (Subscription.sessionSteps 6 ++ Subscription.workerSteps 0
      [some 0, some 0, some 0, some 1, some 0, some 0, some 0, some 0] ++
        Subscription.sessionSteps 2).map (.manager i) ++
    .session i :: (Subscription.sessionSteps 4).map (.manager i)

/-- Two sessions, one after the other, for the same request. -/
def sampleVisits (i : Bool) : Visit := sampleVisit (if i then 97 else 98)

/-- Whatever the interleaving, while every round has at most 127 subscribers and fewer than `2 ^ 31`
chunks: a session that has done with its file has ended exactly once, the files are those of a store
in front of the origin servers that was asked once for each session that has ended, in this order,
and a client whose connection was closed has got the answer of the store to its session. -/
theorem sessions_linearize
    (h : Run (CacheSessions.step visit) (orderly visit) (init files) s) :
    (∀ i, s.ended.count i = if s.place i = .finishing then 1 else 0) ∧
    s.files = stored visit files s.ended ∧
    ∀ i k, ((s.manager i).subscriber k).closed = true →
      ∃ earlier later, s.ended = earlier ++ i :: later ∧
        ((s.manager i).subscriber k).accepted = answered visit files earlier i := by
  have hagrees := agrees_of_run h
  refine ⟨?_, hagrees.files, fun i _ hclosed => (hagrees.place i).accepted hclosed⟩
  intro i
  split_ifs with hplace
  · exact List.count_eq_one_of_mem hagrees.nodup ((hagrees.ended i).mpr hplace)
  · exact List.count_eq_zero_of_not_mem fun hmem => hplace ((hagrees.ended i).mp hmem)

/-- In a run of two sessions the second client gets the answer of the store. -/
theorem sessions_linearize_two : ∃ s : CacheSessions Bool,
    (∀ i, s.ended.count i = 1) ∧ s.files = stored sampleVisits (fun _ => none) s.ended ∧
    ∃ earlier later, s.ended = earlier ++ false :: later ∧
      ((s.manager false).subscriber 0).accepted =
        answered sampleVisits (fun _ => none) earlier false := by
  have hrun := Run.get_execWhere (CacheSessions.step sampleVisits) (orderly sampleVisits)
    (init fun _ => none) (sampleEvents true ++ sampleEvents false) (by decide +kernel)
  obtain ⟨hcount, hfiles, haccepted⟩ := sessions_linearize hrun
  refine ⟨_, ?_, hfiles, haccepted false 0 (by decide +kernel)⟩
  intro i
  rw [hcount i, if_pos]
  revert i
  decide +kernel

/-- The file of a session is there at the beginning, or the origin server has answered one of these
sessions about that file with success. -/
def Available (visit : ι → Visit) (files : Files) (ended : List ι) (i : ι) : Prop :=
  (files (visit i).file).isSome = true ∨
    ∃ j ∈ ended, (visit j).file = (visit i).file ∧ checkResponseCode (visit j).code = true

omit [DecidableEq ι] in
/-- Then the store has it after these sessions. -/
lemma Available.isSome (h : Available visit files ended i) :
    (stored visit files ended (visit i).file).isSome = true := by
  unfold stored
  rw [WriteOnce.isSome_run_iff]
  apply h.imp_right
  rintro ⟨j, hj, hfile, hcode⟩
  exact ⟨(visit j).query, List.mem_map_of_mem hj, hfile, hcode⟩

/-- Under the same condition, once the file is available when a session ends, the clients of this
session and of all later ones with the same file get the same bytes, whatever the origin server
answers later on. -/
theorem clients_agree (h : Run (CacheSessions.step visit) (orderly visit) (init files) s)
    {earlier between : List ι} (hended : s.ended = earlier ++ i :: (between ++ j :: later))
    (hfile : (visit j).file = (visit i).file)
    (havailable : Available visit files (earlier ++ [i]) i)
    {k l : ℕ} (hi : ((s.manager i).subscriber k).closed = true)
    (hj : ((s.manager j).subscriber l).closed = true) :
    ((s.manager j).subscriber l).accepted = ((s.manager i).subscriber k).accepted := by
  have hagrees := agrees_of_run h
  have hnodup := hagrees.nodup
  -- a session ends once, so its place in the order is the one that is given
  have hplace : ∀ {x y x' y' : List ι} {a : ι}, s.ended = x ++ a :: y → s.ended = x' ++ a :: y' →
      x' = x := by
    intro x y x' y' a hxy hxy'
    have hnotMem : a ∉ x ∧ a ∉ y := by
      rw [hxy] at hnodup
      exact not_or.mp (List.mem_append.not.mp (List.nodup_middle.mp hnodup).notMem)
    have heq := (List.append_cons_inj_of_notMem hnotMem.1 hnotMem.2).mp (hxy.symm.trans hxy')
    exact heq.1.symm
  obtain ⟨earlierI, laterI, hendedI, hacceptedI⟩ := (hagrees.place i).accepted hi
  obtain ⟨earlierJ, laterJ, hendedJ, hacceptedJ⟩ := (hagrees.place j).accepted hj
  have hsplit : s.ended = (earlier ++ i :: between) ++ j :: later := by
    rw [hended, List.append_assoc, List.cons_append]
  obtain rfl := hplace hended hendedI
  obtain rfl := hplace hsplit hendedJ
  have hstored := havailable.isSome
  unfold stored at hstored
  rw [List.map_append, List.map_singleton] at hstored
  rw [hacceptedI, hacceptedJ]
  unfold answered stored
  rw [List.map_append, List.map_cons]
  exact WriteOnce.answer_eq_of_stored hstored hfile

/-- The second client gets the response to the first one. -/
theorem clients_agree_two : ∃ s : CacheSessions Bool,
    ((s.manager true).subscriber 0).accepted = [97] ∧
    ((s.manager false).subscriber 0).accepted = ((s.manager true).subscriber 0).accepted := by
  have hrun := Run.get_execWhere (CacheSessions.step sampleVisits) (orderly sampleVisits)
    (init fun _ => none) (sampleEvents true ++ sampleEvents false) (by decide +kernel)
  have hended : ((execWhere (CacheSessions.step sampleVisits) (orderly sampleVisits)
      (init fun _ => none) (sampleEvents true ++ sampleEvents false)).get
        (by decide +kernel)).ended = [] ++ true :: ([] ++ false :: []) := by decide +kernel
  refine ⟨_, ?_, clients_agree hrun hended rfl (Or.inr ⟨true, List.mem_cons_self, rfl, rfl⟩)
    (k := 0) (l := 0) ?_ ?_⟩
  · decide +kernel
  · decide +kernel
  · decide +kernel

end CacheSessions

end OsLabs.Proxy
