import OsLabs.BoundedQueue.Linearization
import OsLabs.BoundedQueue.NodeMemory
import OsLabs.BoundedQueue.ReaderWriter

/-!
# The reader and the writer over a mutex and over a spinlock

The queue under a lock is a channel: a call has its effect with the work under the lock, and is
refused when the queue is full or empty.  What was added and taken is read off the log of the calls,
whose results are those of a list (`Fifo.added_eq`).
-/

namespace OsLabs.BoundedQueue

open Transition Channel

namespace Entry

/-- The result of the call. -/
def result : Entry → ℤ
  | .add _ result => result
  | .get _ result _ => result

/-- The value that the call has added. -/
def added : Entry → List ℤ
  | .add val result => if result ≠ 0 then [val] else []
  | .get _ _ _ => []

/-- The value that the call has taken. -/
def taken : Entry → List ℤ
  | .add _ _ => []
  | .get _ result after => if result ≠ 0 then [after] else []

end Entry

/-- The values of a log with the results of a list: what was added is what was taken, and what is
left. -/
lemma Fifo.added_eq {capacity : ℤ} {log : List Entry} {l l' : List ℤ}
    (h : Fifo.replay capacity log l = some l') :
    l ++ log.flatMap Entry.added = log.flatMap Entry.taken ++ l' := by
  induction log generalizing l with
  | nil =>
    obtain rfl := Option.some.inj h
    exact List.append_nil l
  | cons entry log ih =>
    obtain ⟨m, hm, hlog⟩ := Option.bind_eq_some_iff.mp h
    have hrest := ih hlog
    rw [List.flatMap_cons, List.flatMap_cons, List.append_assoc, ← hrest]
    cases entry with
    | add val result =>
      replace hm : (if (Fifo.add capacity val l).1 = result then some (Fifo.add capacity val l).2
        else none) = some m := hm
      unfold Fifo.add at hm
      split_ifs at hm with hfull hzero hone
      · obtain rfl := Option.some.inj hm
        rw [← hzero]
        rfl
      · obtain rfl := Option.some.inj hm
        rw [← hone, List.append_assoc]
        rfl
    | get before result after =>
      replace hm : (if (Fifo.get before l).1 = result ∧ (Fifo.get before l).2.1 = after then
        some (Fifo.get before l).2.2 else none) = some m := hm
      split_ifs at hm with hresult
      obtain rfl := Option.some.inj hm
      rw [← hresult.1, ← hresult.2]
      cases l <;> rfl

namespace CallPlace

/-- Where a thread is in its call, for the caller. -/
def callPhase : CallPlace → CallPhase ℤ
  | .outside => .outside
  | .addLock val | .addBody val | .getLock val | .getBody val => .before val
  | .unlocking entry => .after (decide (entry.result ≠ 0))

/-- What a step between two places means to the caller. -/
def outcome : CallPlace → CallPlace → Outcome ℤ
  | .getBody _, .unlocking (.get _ result after) => if result ≠ 0 then .stored after else .inside
  | .unlocking entry, .outside => .returned (decide (entry.result ≠ 0))
  | _, _ => .inside

/-- The function that the place belongs to, before the effect of the call. -/
def role : CallPlace → Option Role
  | .addLock _ | .addBody _ => some .producer
  | .getLock _ | .getBody _ => some .consumer
  | _ => none

end CallPlace

/-- The choice begins a call. -/
def CallChoice.isCall : CallChoice → Bool
  | .add _ | .get _ => true
  | _ => false

/-- The call that a thread makes in its loop. -/
def sideCall (val : ℤ) : Side → CallChoice
  | .writer => .add val
  | .reader => .get val

namespace Queue

variable {T : Type} {L : LockImpl T} {q q' : Queue L} {l : List (ℕ × ℤ)} {val result after : ℤ}
  {malloc : Option ℕ}

/-- The work of `queue_add` leaves no node outside the list. -/
lemma owned_addBody (h : q.list.Owned l [])
    (hbody : q.addBody val malloc = some (.ok (result, q'))) : ∃ l', q'.list.Owned l' [] := by
  unfold addBody at hbody
  dsimp only at hbody
  split_ifs at hbody
  · cases hbody
    exact ⟨l, h⟩
  · cases malloc with
    | none => cases hbody
    | some new =>
      obtain ⟨list, hal, hlink⟩ := Option.bind_eq_some_iff.mp hbody
      obtain ⟨-, hfree, hcell⟩ := h.represents.allocate hal
      have hnew : list.nodes.cell new = some ⟨val, none⟩ := by rw [hcell, Function.update_self]
      cases hlist : list.link new with
      | none =>
        rw [hlist] at hlink
        cases hlink
      | some list' =>
        rw [hlist] at hlink
        cases hlink
        exact ⟨_, (h.allocate hal).link hnew (h.represents.path.notMem_of_cell hfree) hlist⟩
  · cases hbody

/-- The work of `queue_get` leaves no node outside the list. -/
lemma owned_getBody (h : q.list.Owned l []) (hbody : q.getBody val = .ok (result, after, q')) :
    ∃ l', q'.list.Owned l' [] := by
  unfold getBody at hbody
  dsimp only at hbody
  split_ifs at hbody with hnonneg hempty
  · cases hbody
    exact ⟨l, h⟩
  · cases htake : q.list.takeFirst with
    | none =>
      rw [htake] at hbody
      cases hbody
    | some r =>
      rw [htake] at hbody
      cases hbody
      cases l with
      | nil =>
        have hcount : q.list.count = 0 := h.represents.count
        exact absurd hcount hempty
      | cons x l => exact ⟨l, h.takeFirst List.not_mem_nil htake⟩

end Queue

namespace LockedQueue

/-- The calls of the reader and the writer; `none` is the main thread. -/
def calls (L : LockImpl (Option Side)) : Calls (LockedQueue L) CallChoice ℤ where
  call s side val := LockedQueue.step s (some side, sideCall val side)
  step s side choice :=
    if choice.isCall then none
    else (LockedQueue.step s (some side, choice)).map fun s' =>
      (s', CallPlace.outcome (s.place (some side)) (s'.place (some side)))

variable {L : LockImpl (Option Side)} {s s' : LockedQueue L} {side : Side} {t : Option Side}
  {choice : CallChoice} {p : CallPlace} {entries : List Entry}

/-- A thread goes on to a place, and these calls have their effect. -/
structure Goes (s s' : LockedQueue L) (t : Option Side) (p : CallPlace) (entries : List Entry) :
    Prop where
  place : s'.place = Function.update s.place t p
  log : s'.log = s.log ++ entries

/-- A step before the effect of a call, or behind it. -/
lemma Goes.of_update (hplace : s'.place = Function.update s.place t p) (hlog : s'.log = s.log) :
    Goes s s' t p [] where
  place := hplace
  log := by rw [hlog, List.append_nil]

/-- A step of the program to its end. -/
lemma Goes.abort (s : LockedQueue L) (t : Option Side) (failure : Failure) :
    Goes s (s.abort failure) t (s.place t) [] :=
  .of_update (Function.update_eq_self t s.place).symm rfl

/-- An acquisition of the lock. -/
lemma Goes.lock (hst : s.lock t p = some s') : Goes s s' t p [] := by
  obtain ⟨held, -, rfl⟩ := Option.map_eq_some_iff.mp hst
  exact .of_update rfl rfl

/-- The effect of `queue_add`, by its result. -/
lemma effect_add (val result : ℤ) :
    Effect .writer (.before val) .inside (CallPlace.unlocking (.add val result)).callPhase
      ([Entry.add val result].flatMap Entry.added)
      ([Entry.add val result].flatMap Entry.taken) := by
  by_cases hzero : result = 0
  · rw [hzero]
    exact .refuse
  · have hadded : [Entry.add val result].flatMap Entry.added = [val] := by
      rw [List.flatMap_singleton]
      exact if_pos hzero
    rw [hadded]
    show Effect _ _ _ (.after (decide (result ≠ 0))) _ _
    rw [decide_eq_true hzero]
    exact .put

/-- The effect of `queue_get`, by its result. -/
lemma effect_get (val result after : ℤ) :
    Effect .reader (.before val)
      (CallPlace.outcome (.getBody val) (.unlocking (.get val result after)))
      (CallPlace.unlocking (.get val result after)).callPhase
      ([Entry.get val result after].flatMap Entry.added)
      ([Entry.get val result after].flatMap Entry.taken) := by
  by_cases hzero : result = 0
  · rw [hzero]
    exact .refuse
  · have htaken : [Entry.get val result after].flatMap Entry.taken = [after] := by
      rw [List.flatMap_singleton]
      exact if_pos hzero
    rw [htaken]
    show Effect _ _ (if result ≠ 0 then _ else _) (.after (decide (result ≠ 0))) _ _
    rw [decide_eq_true hzero, if_pos hzero]
    exact .take

/-- Every step of a thread in its call. -/
lemma effect_step (hst : LockedQueue.step s (some side, choice) = some s')
    (hcall : choice.isCall = false)
    (hrole : ∀ r, (s.place (some side)).role = some r → sideRole side = r) :
    ∃ p entries, Goes s s' (some side) p entries ∧ (∀ r, p.role = some r → sideRole side = r) ∧
      Effect side (s.place (some side)).callPhase (CallPlace.outcome (s.place (some side)) p)
        p.callPhase (entries.flatMap Entry.added) (entries.flatMap Entry.taken) := by
  unfold LockedQueue.step at hst
  split_ifs at hst
  unfold advance at hst
  dsimp only at hst
  split at hst
  next => cases hcall
  next => cases hcall
  next val ht =>
    refine ⟨.addBody val, [], .lock hst, ?_, ?_⟩
    · rw [ht] at hrole
      exact hrole
    · rw [ht]
      exact .prepare
  next val answer ht =>
    obtain ⟨result, -, hs'⟩ := Option.map_eq_some_iff.mp hst
    cases result with
    | error failure =>
      cases hs'
      refine ⟨_, [], .abort s _ failure, hrole, ?_⟩
      rw [ht]
      exact .prepare
    | ok r =>
      cases hs'
      refine ⟨.unlocking (.add val r.1), [.add val r.1], ⟨rfl, rfl⟩, ?_, ?_⟩
      · rintro _ ⟨⟩
      · rw [ht]
        cases side with
        | writer => exact effect_add val r.1
        | reader =>
          rw [ht] at hrole
          cases hrole _ rfl
  next val ht =>
    refine ⟨.getBody val, [], .lock hst, ?_, ?_⟩
    · rw [ht] at hrole
      exact hrole
    · rw [ht]
      exact .prepare
  next val ht =>
    split at hst
    next failure _ =>
      cases hst
      refine ⟨_, [], .abort s _ failure, hrole, ?_⟩
      rw [ht]
      exact .prepare
    next result after queue _ =>
      cases hst
      refine ⟨.unlocking (.get val result after), [.get val result after], ⟨rfl, rfl⟩, ?_, ?_⟩
      · rintro _ ⟨⟩
      · rw [ht]
        cases side with
        | writer =>
          rw [ht] at hrole
          cases hrole _ rfl
        | reader => exact effect_get val result after
  next entry ht =>
    cases hst
    refine ⟨.outside, [], .of_update rfl rfl, ?_, ?_⟩
    · rintro r ⟨⟩
    · rw [ht]
      exact .return_
  next => cases hst

/-- No step leaves a node outside the list. -/
lemma owned_step (h : ∃ l, s.queue.list.Owned l [])
    (hst : LockedQueue.step s (t, choice) = some s') : ∃ l, s'.queue.list.Owned l [] := by
  obtain ⟨l, hl⟩ := h
  unfold LockedQueue.step at hst
  split_ifs at hst
  unfold advance at hst
  dsimp only at hst
  split at hst
  next =>
    cases hst
    exact ⟨l, hl⟩
  next =>
    cases hst
    exact ⟨l, hl⟩
  next =>
    obtain ⟨held, -, rfl⟩ := Option.map_eq_some_iff.mp hst
    exact ⟨l, hl⟩
  next =>
    obtain ⟨result, hbody, rfl⟩ := Option.map_eq_some_iff.mp hst
    cases result with
    | error failure => exact ⟨l, hl⟩
    | ok r => exact Queue.owned_addBody hl hbody
  next =>
    obtain ⟨held, -, rfl⟩ := Option.map_eq_some_iff.mp hst
    exact ⟨l, hl⟩
  next =>
    split at hst
    next =>
      cases hst
      exact ⟨l, hl⟩
    next hbody =>
      cases hst
      exact Queue.owned_getBody hl hbody
  next =>
    cases hst
    exact ⟨l, hl⟩
  next => cases hst

/-- The beginning of a call. -/
lemma goes_call {val : ℤ} (hst : LockedQueue.step s (some side, sideCall val side) = some s') :
    s.place (some side) = .outside ∧ ∃ p, p.callPhase = .before val ∧
      (∀ r, p.role = some r → sideRole side = r) ∧ Goes s s' (some side) p [] := by
  unfold LockedQueue.step at hst
  split_ifs at hst
  cases side with
  | writer =>
    replace hst : s.advance (some .writer) (.add val) = some s' := hst
    unfold advance at hst
    split at hst
    case h_1 _ _ val' ht hcall =>
      cases hcall
      cases hst
      refine ⟨ht, .addLock val, rfl, ?_, .of_update rfl rfl⟩
      rintro r ⟨⟩
      rfl
    all_goals first | cases hst; done | (rename_i hcall; cases hcall)
  | reader =>
    replace hst : s.advance (some .reader) (.get val) = some s' := hst
    unfold advance at hst
    split at hst
    case h_2 _ _ val' ht hcall =>
      cases hcall
      cases hst
      refine ⟨ht, .getLock val, rfl, ?_, .of_update rfl rfl⟩
      rintro r ⟨⟩
      rfl
    all_goals first | cases hst; done | (rename_i hcall; cases hcall)

/-- What holds of the queue while the reader and the writer use it. -/
structure Runs (capacity : ℕ) (s : LockedQueue L) : Prop where
  invariant : Invariant capacity s
  role : ∀ side r, (s.place (some side)).role = some r → sideRole side = r
  main : s.place none = .outside
  /-- The nodes in memory are those of the list. -/
  memory : ∃ l, s.queue.list.Owned l []

namespace Runs

variable {capacity : ℕ}

/-- A step of a thread. -/
lemma goes (h : Runs capacity s) (hL : L.Excludes)
    (hst : LockedQueue.step s (some side, choice) = some s')
    (hgoes : Goes s s' (some side) p entries) (hrole : ∀ r, p.role = some r → sideRole side = r) :
    Runs capacity s' where
  invariant := h.invariant.step hL hst
  role := by
    intro u r hr
    rw [hgoes.place] at hr
    rcases eq_or_ne u side with rfl | hne
    · rw [Function.update_self] at hr
      exact hrole r hr
    · rw [Function.update_of_ne (Option.some_injective _ |>.ne hne)] at hr
      exact h.role u r hr
  main := by
    rw [hgoes.place, Function.update_of_ne (Option.some_ne_none side).symm]
    exact h.main
  memory := owned_step h.memory hst

/-- The new queue. -/
lemma init (L : LockImpl (Option Side)) (capacity : ℕ) :
    Runs capacity (LockedQueue.init L capacity) where
  invariant := .init L capacity
  role side r h := by cases h
  main := rfl
  memory := ⟨[], NodeList.owned_initial⟩

/-- The atomic calls have kept a list. -/
lemma exists_refines (h : Runs capacity s) : ∃ l, Refines capacity s.atomic l :=
  Refines.of_reachable (Int.natCast_nonneg capacity) h.invariant.atomic

end Runs

/-- The places of the reader and the writer after a step. -/
lemma Goes.callPhase (h : Goes s s' (some side) p entries) :
    (fun u => (s'.place (some u)).callPhase) =
      Function.update (fun u => (s.place (some u)).callPhase) side p.callPhase := by
  funext u
  rw [h.place]
  rcases eq_or_ne u side with rfl | hne
  · rw [Function.update_self, Function.update_self]
  · rw [Function.update_of_ne (Option.some_injective _ |>.ne hne), Function.update_of_ne hne]

/-- The queue is a channel. -/
def spec (hL : L.Excludes) (capacity : ℕ) : Spec (calls L) capacity where
  Inv := Runs capacity
  phase s side := (s.place (some side)).callPhase
  added s := s.log.flatMap Entry.added
  taken s := s.log.flatMap Entry.taken
  call := by
    intro s s' side val h hst
    obtain ⟨hout, p, hp, hrole, hgoes⟩ := goes_call hst
    refine ⟨h.goes hL hst hgoes hrole, val, ?_, fun _ => rfl, ?_, ?_, ?_⟩
    · rw [← hp]
      exact hgoes.callPhase
    · rw [hout]
      rfl
    · rw [hgoes.log, List.append_nil]
    · rw [hgoes.log, List.append_nil]
  step := by
    intro s s' side choice outcome h hst
    replace hst : (if choice.isCall then none
      else (LockedQueue.step s (some side, choice)).map fun s' =>
        (s', CallPlace.outcome (s.place (some side)) (s'.place (some side)))) =
          some (s', outcome) := hst
    split_ifs at hst with hcall
    obtain ⟨t, ht, heq⟩ := Option.map_eq_some_iff.mp hst
    cases heq
    obtain ⟨p, entries, hgoes, hrole, heffect⟩ :=
      effect_step ht (Bool.eq_false_iff.mpr hcall) (h.role side)
    refine ⟨h.goes hL ht hgoes hrole, p.callPhase, entries.flatMap Entry.added,
      entries.flatMap Entry.taken, ?_, hgoes.callPhase, ?_, ?_⟩
    · rw [hgoes.place, Function.update_self]
      exact heffect
    · rw [hgoes.log, List.flatMap_append]
    · rw [hgoes.log, List.flatMap_append]
  fifo := by
    intro s h
    obtain ⟨l, hl⟩ := h.exists_refines
    refine ⟨l.map Prod.snd, Fifo.added_eq (l := []) hl.replay, ?_⟩
    rw [List.length_map]
    exact Int.ofNat_le.mp hl.holds.bound

/-- The two threads over a queue with the given lock. -/
abbrev pairStep (L : LockImpl (Option Side)) : Pair (LockedQueue L) ℤ → Side × Option CallChoice →
    Option (Pair (LockedQueue L) ℤ) := Pair.step (calls L) nextInt noValue

/-- A step of the queue in a call is one of the channel. -/
lemma calls_step (hst : LockedQueue.step s (some side, choice) = some s')
    (hcall : choice.isCall = false) :
    (calls L).step s side choice =
      some (s', CallPlace.outcome (s.place (some side)) (s'.place (some side))) := by
  unfold calls
  dsimp only
  rw [hcall, hst]
  rfl

/-- A thread in a call does not begin another one. -/
lemma isCall_of_step (hst : LockedQueue.step s (t, choice) = some s') (ht : s.place t ≠ .outside) :
    choice.isCall = false := by
  cases choice with
  | malloc | go => rfl
  | add val | get val =>
    unfold LockedQueue.step at hst
    split_ifs at hst
    unfold advance at hst
    cases hplace : s.place t with
    | outside => exact absurd hplace ht
    | addLock | addBody | getLock | getBody | unlocking =>
      dsimp only at hst
      rw [hplace] at hst
      cases hst

/-- While a thread is in a call, some thread can go on with its call, and the program with it. -/
lemma exists_pairStep {capacity : ℕ} {s : Pair (LockedQueue L) ℤ} (h : Runs capacity s.channel)
    (hfail : s.channel.failure = none) (hside : s.channel.place (some side) ≠ .outside) :
    ∃ u choice s', s.channel.place (some u) ≠ .outside ∧
      pairStep L s (u, some choice) = some s' ∧ s'.channel.failure = none := by
  obtain ⟨l, hl⟩ := h.exists_refines
  obtain ⟨t, choice, s', ht, hst, hfail'⟩ := h.invariant.exists_step hl.holds hfail hside
  cases t with
  | none => exact absurd h.main ht
  | some u =>
    obtain ⟨r, hr, hchannel⟩ := Pair.exists_step_some nextInt noValue
      (calls_step hst (isCall_of_step hst ht))
    exact ⟨u, choice, r, ht, hr, hchannel ▸ hfail'⟩

/-- What a reachable state of the two threads looks like: the values are in order, only a failed
`malloc` has ended the program, and unless one has failed, while a thread is in a call, some thread
can go on with its call, and the program with it. -/
structure Delivers (capacity : ℕ) (s : Pair (LockedQueue L) ℤ) : Prop where
  inOrder : InOrder capacity (s.channel.log.flatMap Entry.added)
    (s.channel.log.flatMap Entry.taken) s
  failure : s.channel.failure = none ∨ s.channel.failure = some .outOfMemory
  goesOn : s.channel.failure = none → ∀ side, s.channel.place (some side) ≠ .outside →
    ∃ u choice s', s.channel.place (some u) ≠ .outside ∧
      pairStep L s (u, some choice) = some s' ∧ s'.channel.failure = none

/-- The same for every lock that excludes. -/
lemma delivers_of_reachable (hL : L.Excludes) {capacity : ℕ} {s : Pair (LockedQueue L) ℤ}
    (h : Reachable (pairStep L) (Pair.init (init L capacity) 0 noValue) s) :
    Delivers capacity s := by
  have hinit : (spec hL capacity).Inv (init L capacity) := .init L capacity
  have horder := inOrder_of_run (spec hL capacity) hinit (fun _ => rfl) rfl rfl h
  have hruns : Runs capacity s.channel :=
    (Pair.counts_of_run hinit (fun _ => rfl) rfl rfl h).channel
  obtain ⟨l, hl⟩ := hruns.exists_refines
  exact ⟨horder, hl.failure, fun hfail _ hside => exists_pairStep hruns hfail hside⟩

/-- In every run of the reader and the writer over the queue under the mutex, or the one under the
spinlock. -/
theorem locked_reader_gets_every_value {capacity : ℕ} :
    (∀ s, Reachable (pairStep (pthreadMutex (Option Side)))
      (Pair.init (init _ capacity) 0 noValue) s → Delivers capacity s) ∧
    ∀ s, Reachable (pairStep (mySpinlock (Option Side)))
      (Pair.init (init _ capacity) 0 noValue) s → Delivers capacity s :=
  ⟨fun _ hs => delivers_of_reachable (pthreadMutex_excludes _) hs,
    fun _ hs => delivers_of_reachable (mySpinlock_excludes _) hs⟩

/-- The reader finds the queue empty, and gets the first value at the next call. -/
theorem locked_reader_gets_every_value_second :
    ∃ s : Pair (LockedQueue (mySpinlock (Option Side))) ℤ,
      s.expected = 1 ∧ s.index = 1 ∧ s.channel.returned.length = 3 ∧ Delivers 1 s := by
  have hrun := Run.get_execWhere (pairStep (mySpinlock (Option Side))) anyStep
    (Pair.init (init _ (1 : ℕ)) 0 noValue)
    [(.reader, none), (.writer, none), (.reader, some .go), (.reader, some .go),
      (.reader, some .go), (.writer, some .go), (.writer, some (.malloc (some 0))),
      (.writer, some .go), (.reader, none), (.reader, some .go), (.reader, some .go),
      (.reader, some .go)] (by decide)
  exact ⟨_, by decide, by decide, by decide, locked_reader_gets_every_value.2 _ hrun⟩

end LockedQueue

end OsLabs.BoundedQueue
