import OsLabs.Proxy.Barrier

/-!
# What a client has got when its connection is closed

`finish_pending_chunks` closes the connections as soon as the last `add_chunk` has returned.  A
client that has subscribed before some later round is served by that round; one that joins during
the last wait of the session, or after it, is in no round any more and is closed with what it has,
which is nothing.  `joinsInTime` is the condition on a step that excludes this, and
`closed_accepted` is complete delivery for the runs that meet it.
-/

namespace OsLabs.Proxy

open Transition

/-- A `send_data_to_fd` of the task has failed. -/
def TaskPc.hasFailed : TaskPc → Bool
  | .finishing failed | .unlocking failed | .done failed => failed
  | _ => false

/-- The last round, if there was one, has begun and no new one is being prepared. -/
def SessionPc.settled (pc : SessionPc) : Bool := pc.betweenCalls || pc.inRound

/-- The subscribers that `finish_pending_chunks` is about to visit. -/
def SessionPc.targets : SessionPc → List ℕ
  | .finishing cur => cur.toList
  | .unsubscribing j tmp | .closing j tmp => j :: tmp.toList
  | _ => []

namespace Subscription

variable {s t : Subscription} {sub sub' : Subscriber} {pc pc' : TaskPc} {sent : Option ℕ}
  {allocated : Bool} {k : ℕ} {task : Task} {e : SubscriptionEvent} {todo : List Payload}
  {container : ChunkContainer}

/-- The condition on a step: no `send` fails, the rounds fit, and a client joins while a call of
`add_chunk` is still to come, or while there are no data. -/
def joinsInTime (s : Subscription) : SubscriptionEvent → Bool
  | .subscribe _ _ => !s.todo.isEmpty || s.container.count == 0
  | .session allocated => roundFits s (.session allocated)
  | .worker _ sent => sent.isSome

/-- The condition contains the one of the barrier. -/
lemma roundFits_of_joinsInTime (h : joinsInTime s e = true) : roundFits s e = true := by
  cases e with
  | session allocated => exact h
  | subscribe fd allocated => rfl
  | worker k sent => rfl

/-! ## Uploads without errors -/

/-- The account of the accepted bytes of a subscriber none of whose uploads has failed. -/
structure Intact (container : ChunkContainer) (sub : Subscriber) (pc : TaskPc) : Prop
    extends Faithful container sub pc where
  unbroken : sub.torn = false

/-- A subscriber is torn by a failed `send` only. -/
lemma Work.torn (h : Work s sub sent pc sub' pc') (hsent : sent.isSome = true) :
    sub'.torn = sub.torn := by
  cases h with
  | fail hchunk hlt hnone => rw [hnone] at hsent; cases hsent
  | _ => rfl

/-- `Intact` is an invariant of the steps that meet the condition. -/
lemma intact_local : Local Intact (joinsInTime · · = true) where
  fresh container fd := ⟨faithful_local.fresh container fd, rfl⟩
  rest hpc := ⟨fun h => ⟨(faithful_local.rest hpc).mp h.toFaithful, h.unbroken⟩,
    fun h => ⟨(faithful_local.rest hpc).mpr h.toFaithful, h.unbroken⟩⟩
  close h := ⟨faithful_local.close h.toFaithful, h.unbroken⟩
  add h := ⟨h.toFaithful.addChunk, h.unbroken⟩
  work _ hok hw h := by
    refine ⟨h.toFaithful.work hw fun htorn => ?_, (hw.torn hok).trans h.unbroken⟩
    rw [h.unbroken] at htorn
    cases htorn

/-! ## The clients of the last round -/

/-- Every client is linked until the session ends; it is in the current round, or a later one is to
come; and when the session ends, it has loaded all chunks. -/
structure Served (s : Subscription) : Prop where
  failed : ∀ task ∈ s.tasks, task.pc.hasFailed = false
  linked : s.pc.tearing = false → ∀ j < s.subscribers, j ∈ s.linked
  joined : s.pc.settled = true → ∀ j < s.subscribers,
    j ∈ s.roundSubscribers ∨ s.todo ≠ [] ∨ s.container.count = 0
  ended : s.pc.tearing = true → s.todo = [] ∧
    ∀ j < s.subscribers, (s.subscriber j).chunkLoaded = s.container.count
  targets : ∀ j ∈ s.pc.targets, j < s.subscribers
  closed : ∀ j, (s.subscriber j).closed = true → s.pc.tearing = true ∧ j < s.subscribers

/-- `Served` holds for a new manager. -/
lemma served_initial (todo : List Payload) : Served (initial todo) := by
  constructor <;> simp [initial, SessionPc.targets, SessionPc.tearing]

/-- Only a failed `send` makes a task fail. -/
lemma Work.hasFailed (h : Work s sub sent pc sub' pc') (hsent : sent.isSome = true)
    (hpc : pc.hasFailed = false) : pc'.hasFailed = false := by
  cases h with
  | fail hchunk hlt hnone => rw [hnone] at hsent; cases hsent
  | decrement | release => exact hpc
  | _ => rfl

/-- A worker does not close its subscriber, and a finished one loads no chunk. -/
lemma Work.frame (h : Work s sub sent pc sub' pc') :
    sub'.closed = sub.closed ∧
      (pc.unfinished = false → sub'.chunkLoaded = sub.chunkLoaded) := by
  cases h with
  | load => exact ⟨rfl, nofun⟩
  | _ => exact ⟨rfl, fun _ => rfl⟩

/-- A step of a worker keeps the clients served. -/
lemma Served.worker (hb : Barrier s) (hs : Served s) (hk : s.tasks[k]? = some task)
    (hsent : sent.isSome = true)
    (hw : Work s (s.subscriber task.subscriber) sent task.pc sub pc) :
    Served (s.worked k task sub pc) := by
  obtain ⟨hfailed, hlinked, hjoined, hended, htargets, hclosed⟩ := hs
  have hmem : task ∈ s.tasks := List.mem_of_getElem? hk
  obtain ⟨hclose, hload⟩ := hw.frame
  refine ⟨fun task' h => ?_, hlinked, hjoined, fun h => ⟨(hended h).1, fun j hj => ?_⟩, htargets,
    fun j hj => ?_⟩
  · rcases List.mem_or_eq_of_mem_set h with h | rfl
    · exact hfailed task' h
    · exact hw.hasFailed hsent (hfailed task hmem)
  · -- After the last round only finished tasks move.
    have hpc : s.pc.tearing = true := h
    have hzero : s.pending = 0 := hb.calm (by cases hpc' : s.pc <;> simp_all [SessionPc.tearing,
      SessionPc.inRound])
    have hdone : task.pc.unfinished = false := by
      rw [← Bool.not_eq_true]
      exact List.countP_eq_zero.mp hzero task hmem
    have hold := (hended h).2 j hj
    rw [subscriber_worked]
    split_ifs with heq
    · rw [heq] at hold
      exact (hload hdone).trans hold
    · exact hold
  · rw [subscriber_worked] at hj
    split_ifs at hj with heq
    · rw [heq]
      exact hclosed _ (hclose.symm.trans hj)
    · exact hclosed j hj

/-- When the session ends, every client has loaded all chunks. -/
lemma Served.loaded_of_idle (hl : Locks s) (hg : Guarded Placed s) (hb : Barrier s) (hs : Served s)
    (hpc : s.pc = .idle) (htodo : s.todo = []) {j : ℕ} (hj : j < s.subscribers) :
    (s.subscriber j).chunkLoaded = s.container.count := by
  rcases hs.joined (by rw [hpc]; rfl) j hj with h | h | h
  · obtain ⟨task, hmem, -, -, failed, hend, hload⟩ := hb.ended (by rw [hpc]; rfl) h
    refine hload ?_
    have hfailed := hs.failed task hmem
    rcases hend with hend | hend <;> rw [hend] at hfailed <;> exact hfailed
  · exact absurd htodo h
  · obtain ⟨pc, hplaced⟩ := hg.exists hl j
    have hle := hplaced.loaded
    omega

/-- A step of the session thread keeps the clients served. -/
lemma Served.session (hl : Locks s) (hg : Guarded Placed s) (hb : Barrier s) (hs : Served s)
    (hm : SessionMove s allocated t) : Served t := by
  have hidle := hs.loaded_of_idle hl hg hb
  obtain ⟨hfailed, hlinked, hjoined, hended, htargets, hclosed⟩ := hs
  have hopen : s.pc.tearing = false → ∀ j, (s.subscriber j).closed = true → False :=
    fun h j hj => by rw [(hclosed j hj).1] at h; cases h
  cases hm with
  | finish hpc htodo =>
    refine ⟨hfailed, nofun, nofun, fun _ => ⟨htodo, fun j hj => hidle hpc htodo hj⟩, fun j hj => ?_,
      fun j hj => ⟨rfl, (hclosed j hj).2⟩⟩
    exact hl.listed j (List.mem_of_head? (Option.mem_toList.mp hj))
  | @visit j hpc =>
    rw [hpc] at hended htargets hclosed
    refine ⟨hfailed, nofun, nofun, hended, fun i hi => ?_, hclosed⟩
    rcases List.mem_cons.mp hi with rfl | hi
    · exact htargets i (by simp [SessionPc.targets])
    · exact hl.listed i (List.mem_of_getElem? (Option.mem_toList.mp hi))
  | unlink hpc hfree =>
    rw [hpc] at hended htargets hclosed
    exact ⟨hfailed, nofun, nofun, hended, htargets, hclosed⟩
  | @close j tmp hpc hfree =>
    rw [hpc] at hended htargets hclosed
    have hloaded : ∀ i, ((s.close j).subscriber i).chunkLoaded = (s.subscriber i).chunkLoaded :=
      fun i => by
        rw [subscriber_close]
        split_ifs with h
        · rw [h]
        · rfl
    refine ⟨hfailed, nofun, nofun,
      fun _ => ⟨(hended rfl).1, fun i hi => (hloaded i).trans ((hended rfl).2 i hi)⟩,
      fun i hi => htargets i (List.mem_cons_of_mem _ hi), fun i hi => ⟨rfl, ?_⟩⟩
    have hclose := subscriber_close (s := s) j i
    split_ifs at hclose with heq
    · exact heq ▸ htargets j List.mem_cons_self
    · exact (hclosed i (hclose ▸ hi)).2
  | start hpc =>
    rw [hpc] at hlinked hopen
    exact ⟨hfailed, hlinked, fun _ j hj => Or.inl (hlinked rfl j hj), nofun, nofun,
      fun j hj => (hopen rfl j hj).elim⟩
  | push hpc hload =>
    rw [hpc] at hlinked hjoined hopen
    refine ⟨fun task h => ?_, hlinked, hjoined, nofun, nofun, fun j hj => (hopen rfl j hj).elim⟩
    rcases List.mem_append.mp h with h | h
    · exact hfailed task h
    · rw [List.mem_singleton.mp h]
      rfl
  | crash hpc | lock hpc | add hpc =>
    rw [hpc] at hlinked hopen
    exact ⟨hfailed, hlinked, nofun, nofun, nofun, fun j hj => (hopen rfl j hj).elim⟩
  | pushed hpc | selfLock hpc | wait hpc | return_ hpc | wake hpc =>
    rw [hpc] at hlinked hjoined hopen
    exact ⟨hfailed, hlinked, hjoined, nofun, nofun, fun j hj => (hopen rfl j hj).elim⟩

/-- A client that joins in time is served. -/
lemma Served.subscribe (hs : Served s) {fd : ℕ}
    (hok : joinsInTime s (.subscribe fd allocated) = true) : Served (s.subscribe fd allocated) := by
  have hfull := hs
  obtain ⟨hfailed, hlinked, hjoined, hended, htargets, hclosed⟩ := hs
  have hintime : s.todo ≠ [] ∨ s.container.count = 0 := by
    simpa [joinsInTime] using hok
  cases allocated with
  | false => exact ⟨hfailed, hlinked, hjoined, hended, htargets, hclosed⟩
  | true =>
    have hsub := subscriber_link (s := s) fd
    refine ⟨hfailed, fun h j hj => ?_, fun h j hj => ?_, fun h => ⟨(hended h).1, fun j hj => ?_⟩,
      fun j hj => Nat.lt_succ_of_lt (htargets j hj), fun j hj => ?_⟩
    · rcases Nat.lt_succ_iff_lt_or_eq.mp hj with hlt | rfl
      · exact List.mem_append_left _ (hlinked h j hlt)
      · exact List.mem_append_right _ List.mem_cons_self
    · rcases Nat.lt_succ_iff_lt_or_eq.mp hj with hlt | rfl
      · exact hjoined h j hlt
      · exact Or.inr hintime
    · have hzero : s.container.count = 0 := hintime.resolve_left fun h' => h' (hended h).1
      have hlink : (s.subscribe fd true).subscriber j = (s.link fd).subscriber j := rfl
      rw [hlink, hsub]
      split_ifs with heq
      · exact hzero.symm
      · exact (hended h).2 j (by have : j < s.subscribers + 1 := hj; omega)
    · have hlink : (s.subscribe fd true).subscriber j = (s.link fd).subscriber j := rfl
      rw [hlink, hsub] at hj
      split_ifs at hj
      exact ⟨(hclosed j hj).1, Nat.lt_succ_of_lt (hclosed j hj).2⟩

/-- `Served` is preserved by every step that meets the condition. -/
lemma served_step (hl : Locks s) (hg : Guarded Placed s) (hb : Barrier s) (hs : Served s)
    (hok : joinsInTime s e = true) (hst : s.step e = some t) : Served t := by
  cases e with
  | subscribe fd allocated =>
    simp only [step] at hst
    split_ifs at hst
    cases hst
    exact hs.subscribe hok
  | session allocated => exact hs.session hl hg hb (sessionMove_of_step hst)
  | worker k sent =>
    obtain ⟨task, sub, pc, hk, hw, rfl⟩ := workerStep_eq_some hst
    exact hs.worker hb hk hok hw

/-- `Served` holds after every run that meets the condition. -/
theorem served_of_run (hrun : Run step (joinsInTime · · = true) (initial todo) s) : Served s :=
  hrun.invariant_with
    (fun _ h => And.intro (locks_of_run h)
      (And.intro (placed_of_run h) (barrier_of_run (fun _ _ => roundFits_of_joinsInTime) h)))
    (served_initial todo)
    fun _ _ _ hj _ hs hok hst => served_step hj.1 hj.2.1 hj.2.2 hs hok hst

/-! ## Complete delivery -/

/-- An intact subscriber without an upload in progress has got the data of its loaded chunks. -/
lemma Intact.accepted (h : Intact container sub pc) (hpc : pc.inFlight = 0) :
    sub.accepted = container.upTo sub.chunkLoaded := by
  rw [h.whole h.unbroken, hpc, List.take_zero, List.append_nil]

/-- After the last round nothing is in flight. -/
lemma accepted_of_calm (hl : Locks s) (hg : Guarded Intact s) (hzero : s.pending = 0) (j : ℕ) :
    (s.subscriber j).accepted = s.container.upTo (s.subscriber j).chunkLoaded := by
  cases hlocked : (s.subscriber j).locked with
  | false => exact (hg.resting j hlocked).accepted rfl
  | true =>
    obtain ⟨k, task, hk, hh, rfl⟩ := hl.holder j hlocked
    refine (hg.running k task hk hh).accepted ?_
    have hdone := List.countP_eq_zero.mp hzero task (List.mem_of_getElem? hk)
    cases hpc : task.pc <;> first | rfl | (rw [hpc] at hdone; exact absurd rfl hdone)

/-- In a run in which every client joins in time, the rounds fit and no `send` fails, the bytes sent
to a client whose connection was closed are the data of all chunks, in order. -/
theorem closed_accepted (hrun : Run step (joinsInTime · · = true) (initial todo) s) (j : ℕ)
    (hclosed : (s.subscriber j).closed = true) :
    (s.subscriber j).accepted = s.container.content := by
  have hb := barrier_of_run (fun _ _ => roundFits_of_joinsInTime) hrun
  have hs := served_of_run hrun
  obtain ⟨htearing, hj⟩ := hs.closed j hclosed
  have hzero : s.pending = 0 := hb.calm (by
    cases hpc : s.pc <;> rw [hpc] at htearing <;> first | rfl | cases htearing)
  rw [accepted_of_calm (locks_of_run hrun) (guarded_of_run intact_local hrun) hzero,
    (hs.ended htearing).2 j hj, ChunkContainer.upTo_count]

/-- The second client joins after the first of two rounds and gets both chunks in the second one. -/
theorem closed_accepted_late :
    ∃ s, Run step (joinsInTime · · = true) (initial twoChunks) s ∧
      (s.subscriber 1).closed = true ∧ s.container.content = [97, 98, 99] ∧
      (s.subscriber 1).accepted = s.container.content := by
  have hrun := Run.get_execWhere step (joinsInTime · · = true) (initial twoChunks)
    (.subscribe 5 true :: sessionSteps 6 ++
      workerSteps 0 [some 0, some 0, some 0, some 2, some 0, some 0, some 0, some 0] ++
      .subscribe 6 true :: sessionSteps 9 ++
      workerSteps 1 [some 0, some 0, some 0, some 1, some 0, some 0, some 0, some 0] ++
      workerSteps 2 [some 0, some 0, some 0, some 1, some 1, some 0, some 0, some 1, some 0, some 0,
        some 0, some 0] ++ sessionSteps 9) (by decide +kernel)
  exact ⟨_, hrun, by decide +kernel, by decide +kernel,
    closed_accepted hrun 1 (by decide +kernel)⟩

/-- A client that joins after the last round is closed without a byte, although everything
succeeds. -/
theorem closed_without_data :
    ∃ s, Run step (allSucceed · · = true) (initial [Payload.ofBytes [97]]) s ∧
      (s.subscriber 1).closed = true ∧ s.container.content = [97] ∧
      (s.subscriber 1).accepted = [] := by
  have hrun := Run.get_execWhere step (allSucceed · · = true) (initial [Payload.ofBytes [97]])
    (.subscribe 5 true :: sessionSteps 6 ++
      workerSteps 0 [some 0, some 0, some 0, some 1, some 0, some 0, some 0, some 0] ++
      sessionSteps 2 ++ .subscribe 6 true :: sessionSteps 7) (by decide +kernel)
  exact ⟨_, hrun, by decide +kernel, by decide +kernel, by decide +kernel⟩

end Subscription

end OsLabs.Proxy
