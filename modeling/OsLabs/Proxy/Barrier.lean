import OsLabs.Proxy.Delivery

/-!
# The round barrier of `add_chunk`

`manager->flag` counts the upload tasks of a round down to zero, and `add_chunk` returns when it is
not positive any more.  `Barrier` says that the flag is the number of unfinished tasks, plus the
subscribers that `__send_chunks` has not visited yet.  It is an invariant as long as the number of
subscribers fits the `char` that holds the flag: with 128 subscribers the flag is negative at once,
and `add_chunk` returns while no task has begun.
-/

namespace OsLabs.Proxy

open Transition

/-- The task has still to decrement the flag. -/
def TaskPc.unfinished : TaskPc → Bool
  | .unlocking _ | .done _ => false
  | _ => true

/-- The upload covers the container: the bound of the loop is its count, and a task that has ended
without an error has loaded all chunks. -/
def TaskPc.Covers (loaded count : ℕ) : TaskPc → Prop
  | .loop _ _ last | .sending _ _ last _ => last = count
  | .finishing false | .unlocking false | .done false => loaded = count
  | _ => True

/-- The session thread is between the start of `__send_chunks` and the end of `add_chunk`. -/
def SessionPc.inRound : SessionPc → Bool
  | .sendLoop _ | .selfLocked _ | .waitTest | .waiting => true
  | _ => false

/-- The session thread has added a chunk and not yet begun to send it. -/
def SessionPc.beforeRound : SessionPc → Bool
  | .sendStart => true
  | _ => false

/-- The session thread is between two calls of `add_chunk`. -/
def SessionPc.betweenCalls : SessionPc → Bool
  | .idle => true
  | _ => false

/-- The session thread is in `finish_pending_chunks`. -/
def SessionPc.tearing : SessionPc → Bool
  | .finishing _ | .unsubscribing .. | .closing .. => true
  | _ => false

namespace Subscription

variable {s t : Subscription} {sub sub' : Subscriber} {pc pc' : TaskPc} {sent : Option ℕ}
  {allocated : Bool} {k : ℕ} {task : Task} {e : SubscriptionEvent} {todo : List Payload}

/-- The number of unfinished upload tasks. -/
def pending (s : Subscription) : ℕ := s.tasks.countP fun task => task.pc.unfinished

/-- The condition on a step: when a round begins, the number of subscribers fits a signed `char` and
the number of chunks an `int`. -/
def roundFits (s : Subscription) : SubscriptionEvent → Bool
  | .session _ =>
    !s.pc.beforeRound || (decide (s.subscribersCount ≤ 127) && decide (s.container.count < 2 ^ 31))
  | _ => true

/-- The flag stands for the unfinished tasks, and the tasks of the current round cover the
container. -/
structure Barrier (s : Subscription) : Prop where
  flag : s.flag = s.pending + s.pc.unpushed.length
  bound : s.flag ≤ 127
  calm : s.pc.inRound = false → s.pending = 0
  count : s.pc.tearing = false → s.subscribersCount = s.linked.length
  small : s.pc.beforeRound = false → s.container.count < 2 ^ 31
  rounds : ∀ task ∈ s.tasks, task.round ≤ s.round
  pushed : ∀ j ∈ s.roundSubscribers, j ∈ s.pc.unpushed ∨
    ∃ task ∈ s.tasks, task.subscriber = j ∧ task.round = s.round
  current : s.pc.beforeRound = false → ∀ task ∈ s.tasks, task.round = s.round →
    task.pc.Covers (s.subscriber task.subscriber).chunkLoaded s.container.count

/-- `Barrier` holds for a new manager. -/
lemma barrier_initial (todo : List Payload) : Barrier (initial todo) := by
  constructor <;> simp [initial, pending, SessionPc.unpushed, ChunkContainer.create,
    ChunkContainer.count]

/-! ## Steps of a worker -/

/-- The number of unfinished tasks after a step of a worker. -/
lemma pending_worked (hk : s.tasks[k]? = some task) (sub : Subscriber) (pc : TaskPc) :
    (s.worked k task sub pc).pending + task.pc.unfinished.toNat =
      s.pending + pc.unfinished.toNat := by
  obtain ⟨hlt, rfl⟩ := List.getElem?_eq_some_iff.mp hk
  have hpos : s.tasks[k].pc.unfinished = true → 0 < s.pending := fun h =>
    List.countP_pos_iff.mpr ⟨_, List.getElem_mem hlt, h⟩
  rw [pending, worked, List.countP_set hlt]
  rw [pending] at hpos ⊢
  cases h : s.tasks[k].pc.unfinished <;> cases h' : pc.unfinished <;> grind

/-- Only the critical section at `end` finishes a task. -/
lemma Work.unfinished (h : Work s sub sent pc sub' pc') :
    (pc'.unfinished = pc.unfinished ∧ s.flagAfter pc = s.flag) ∨
      (pc.unfinished = true ∧ pc'.unfinished = false ∧ s.flagAfter pc = toChar (s.flag - 1)) := by
  cases h <;> simp [TaskPc.unfinished, flagAfter]

/-- A worker of the current round keeps covering the container. -/
lemma Work.covers (h : Work s sub sent pc sub' pc')
    (hplaced : pc.holds = true ∨ pc'.holds = true → Placed s.container sub pc)
    (hsmall : s.container.count < 2 ^ 31) (hcovers : pc.Covers sub.chunkLoaded s.container.count) :
    pc'.Covers sub'.chunkLoaded s.container.count := by
  cases h with
  | nothing hget =>
    obtain ⟨hloaded, hloadedSmall, -⟩ := hplaced (Or.inl rfl)
    rw [toSize_toInt hloadedSmall, ChunkContainer.getChunk_eq] at hget
    split_ifs at hget with hlt
    exact Nat.le_antisymm hloaded (Nat.not_lt.mp hlt)
  | begin hget => exact toInt_of_lt hsmall
  | exit hge =>
    obtain ⟨hloaded, -, -, hi, -, -⟩ := hplaced (Or.inl rfl)
    have hlast := hcovers
    simp only [TaskPc.Covers] at hlast ⊢
    omega
  | @decrement failed => cases failed <;> exact hcovers
  | @release failed => cases failed <;> exact hcovers
  | enter | accept | load => exact hcovers
  | freed | acquire | lost | fail => trivial

/-- A chunk is loaded only by a worker whose subscriber has not loaded all chunks. -/
lemma Work.loaded (h : Work s sub sent pc sub' pc')
    (hplaced : pc.holds = true ∨ pc'.holds = true → Placed s.container sub pc) :
    sub'.chunkLoaded = sub.chunkLoaded ∨ sub.chunkLoaded < s.container.count := by
  cases h with
  | load hchunk hge =>
    obtain ⟨-, hi, hlt, hlast, -⟩ := (hplaced (Or.inl rfl)).position
    exact Or.inr (by omega)
  | _ => exact Or.inl rfl

/-- The upload of a subscriber that has not loaded all chunks has not ended without an error, and
its other positions do not depend on the loaded chunks. -/
lemma TaskPc.Covers.of_lt {pc : TaskPc} {loaded loaded' count : ℕ} (h : pc.Covers loaded count)
    (hlt : loaded < count) : pc.Covers loaded' count := by
  cases pc with
  | finishing failed | unlocking failed | done failed =>
    cases failed
    · exact absurd h (Nat.ne_of_lt hlt)
    · trivial
  | loop _ _ _ | sending _ _ _ _ => exact h
  | queued | locked | fault _ => trivial

/-- The round of a task and its subscriber do not change. -/
lemma exists_mem_worked (hk : s.tasks[k]? = some task) {task' : Task} (h : task' ∈ s.tasks) :
    ∃ task'' ∈ (s.worked k task sub pc).tasks,
      task''.subscriber = task'.subscriber ∧ task''.round = task'.round := by
  obtain ⟨k', hk'⟩ := List.getElem?_of_mem h
  have htasks := tasks_worked hk sub pc k'
  split_ifs at htasks with heq
  · obtain rfl : task = task' := by rw [heq, hk] at hk'; exact Option.some.inj hk'
    exact ⟨_, List.mem_of_getElem? htasks, rfl, rfl⟩
  · exact ⟨task', List.mem_of_getElem? (htasks.trans hk'), rfl, rfl⟩

/-- A step of a worker keeps the barrier. -/
lemma Barrier.worker (hg : Guarded Placed s) (hb : Barrier s)
    (hk : s.tasks[k]? = some task)
    (hw : Work s (s.subscriber task.subscriber) sent task.pc sub pc) :
    Barrier (s.worked k task sub pc) := by
  have hplaced := hg.before (placed_local anyStep) hk hw
  obtain ⟨hflag, hbound, hcalm, hcount, hsmall, hrounds, hpushed, hcurrent⟩ := hb
  have hpending := pending_worked hk sub pc
  have hmem : task ∈ s.tasks := List.mem_of_getElem? hk
  have hpos : task.pc.unfinished = true → 0 < s.pending := fun h =>
    List.countP_pos_iff.mpr ⟨task, hmem, h⟩
  have hpc : (s.worked k task sub pc).pc = s.pc := rfl
  have hflag' : (s.worked k task sub pc).flag = s.flagAfter task.pc := rfl
  have hnew : ∀ task' ∈ (s.worked k task sub pc).tasks,
      task' = { task with pc := pc } ∨ task' ∈ s.tasks := fun task' h =>
    (List.mem_or_eq_of_mem_set h).symm
  have hle : (s.worked k task sub pc).pending ≤ s.pending := by
    rcases hw.unfinished with ⟨h, -⟩ | ⟨-, h, -⟩
    · rw [h] at hpending; omega
    · rw [h] at hpending; simp only [Bool.toNat_false] at hpending; omega
  have hflagNew : (s.worked k task sub pc).flag =
      (s.worked k task sub pc).pending + s.pc.unpushed.length := by
    rcases hw.unfinished with ⟨h, h'⟩ | ⟨h, h', h''⟩
    · rw [h] at hpending
      rw [hflag', h']
      omega
    · rw [h, h'] at hpending
      simp only [Bool.toNat_true, Bool.toNat_false] at hpending
      rw [hflag', h'', toChar_of_lt (by omega) (by omega)]
      omega
  refine ⟨hflagNew, by omega, fun h => ?_, hcount, hsmall, fun task' h => ?_, fun j hj => ?_,
    fun hround task' h hcur => ?_⟩
  · have := hcalm h
    omega
  · rcases hnew task' h with rfl | h
    · exact hrounds task hmem
    · exact hrounds task' h
  · rcases hpushed j hj with h | ⟨task', h, hsub, hcur⟩
    · exact Or.inl h
    · obtain ⟨task'', hmem'', hsub'', hcur''⟩ := exists_mem_worked hk h
      exact Or.inr ⟨task'', hmem'', hsub''.trans hsub, hcur''.trans hcur⟩
  · have hcont : (s.worked k task sub pc).container = s.container := rfl
    rw [subscriber_worked, hcont]
    rcases hnew task' h with rfl | h
    · rw [if_pos rfl]
      exact hw.covers hplaced (hsmall hround) (hcurrent hround task hmem hcur)
    · have hold := hcurrent hround task' h hcur
      split_ifs with hsub
      · rw [hsub] at hold
        rcases hw.loaded hplaced with heq | hlt
        · rwa [heq]
        · exact TaskPc.Covers.of_lt hold hlt
      · exact hold

/-! ## Steps of the session thread -/

/-- A round begins with the number of subscribers in the flag, if it fits. -/
lemma Barrier.start (hb : Barrier s) (hok : roundFits s (.session allocated) = true)
    (hpc : s.pc = .sendStart) : Barrier (s.startRound.goto (.sendLoop s.linked)) := by
  obtain ⟨hsubs, hchunks⟩ : s.subscribersCount ≤ 127 ∧ s.container.count < 2 ^ 31 := by
    simpa [roundFits, hpc, SessionPc.beforeRound] using hok
  have hzero : s.pending = 0 := hb.calm (by rw [hpc]; rfl)
  have hlen : s.subscribersCount = s.linked.length := hb.count (by rw [hpc]; rfl)
  have hchar : toChar s.subscribersCount = s.subscribersCount :=
    toChar_of_lt (by omega) (by omega)
  have hpend : (s.startRound.goto (.sendLoop s.linked)).pending = s.pending := rfl
  have hun : (s.startRound.goto (.sendLoop s.linked)).pc.unpushed = s.linked := rfl
  have hfl : (s.startRound.goto (.sendLoop s.linked)).flag = toChar s.subscribersCount := rfl
  constructor
  case flag =>
    rw [hfl, hpend, hun, hchar, hzero, hlen]
    omega
  case bound => omega
  case calm => exact fun h => Bool.noConfusion h
  case count => exact fun _ => hlen
  case small => exact fun _ => hchunks
  case rounds => exact fun task h => Nat.le_succ_of_le (hb.rounds task h)
  case pushed => exact fun j hj => Or.inl hj
  case current =>
    -- No task is of the new round yet.
    intro _ task h hcur
    have hold := hb.rounds task h
    have hnew : task.round = s.round + 1 := hcur
    omega

/-- A new task takes the place of a subscriber that `__send_chunks` has still to visit. -/
lemma Barrier.push {j : ℕ} {rest : List ℕ} (hb : Barrier s) (hpc : s.pc = .sendLoop (j :: rest)) :
    Barrier ((s.pushTask j).goto (.sendLoop rest)) := by
  obtain ⟨hflag, hbound, -, hcount, hsmall, hrounds, hpushed, hcurrent⟩ := hb
  rw [hpc] at hflag hcount hsmall hpushed hcurrent
  have hpend : ((s.pushTask j).goto (.sendLoop rest)).pending = s.pending + 1 := by
    simp [pending, pushTask, goto, TaskPc.unfinished]
  have hun : ((s.pushTask j).goto (.sendLoop rest)).pc.unpushed = rest := rfl
  have hfl : ((s.pushTask j).goto (.sendLoop rest)).flag = s.flag := rfl
  constructor
  case flag =>
    rw [hfl, hpend, hun, hflag]
    simp only [SessionPc.unpushed, List.length_cons]
    omega
  case bound => exact hbound
  case calm => exact fun h => Bool.noConfusion h
  case count => exact hcount
  case small => exact hsmall
  case rounds =>
    intro task h
    rcases List.mem_append.mp h with h | h
    · exact hrounds task h
    · rw [List.mem_singleton.mp h]
      exact Nat.le_refl _
  case pushed =>
    intro i hi
    rcases hpushed i hi with h | ⟨task, h, hsub, hcur⟩
    · rcases List.mem_cons.mp h with rfl | h
      · exact Or.inr ⟨_, List.mem_append_right _ List.mem_cons_self, rfl, rfl⟩
      · exact Or.inl h
    · exact Or.inr ⟨task, List.mem_append_left _ h, hsub, hcur⟩
  case current =>
    intro hround task h hcur
    rcases List.mem_append.mp h with h | h
    · exact hcurrent rfl task h hcur
    · rw [List.mem_singleton.mp h]
      trivial

/-- A step of the session thread keeps the barrier when the round fits. -/
lemma Barrier.session (hb : Barrier s) (hok : roundFits s (.session allocated) = true)
    (hm : SessionMove s allocated t) : Barrier t := by
  have hb' := hb
  obtain ⟨hflag, hbound, hcalm, hcount, hsmall, hrounds, hpushed, hcurrent⟩ := hb
  cases hm with
  | start hpc => exact hb'.start hok hpc
  | push hpc => exact hb'.push hpc
  | return_ hpc hle =>
    rw [hpc] at hflag hcount hsmall hpushed hcurrent
    have hzero : s.pending = 0 := by
      have hlen : SessionPc.waitTest.unpushed.length = 0 := rfl
      omega
    exact ⟨hflag, hbound, fun _ => hzero, hcount, hsmall, hrounds, hpushed, hcurrent⟩
  | @close j tmp hpc hfree =>
    rw [hpc] at hflag hcalm hsmall hpushed hcurrent
    refine ⟨hflag, hbound, hcalm, fun h => Bool.noConfusion h, hsmall, hrounds, hpushed,
      fun hround task h hcur => ?_⟩
    have hloaded : ((s.close j).subscriber task.subscriber).chunkLoaded =
        (s.subscriber task.subscriber).chunkLoaded := by
      rw [subscriber_close]
      split_ifs with heq
      · rw [heq]
      · rfl
    have hold := hcurrent hround task h hcur
    rw [← hloaded] at hold
    exact hold
  | add hpc =>
    rw [hpc] at hflag hcalm hcount hpushed
    exact ⟨hflag, hbound, hcalm, hcount, fun h => Bool.noConfusion h, hrounds, hpushed,
      fun h => Bool.noConfusion h⟩
  | unlink hpc | finish hpc =>
    rw [hpc] at hflag hcalm hsmall hpushed hcurrent
    exact ⟨hflag, hbound, hcalm, fun h => Bool.noConfusion h, hsmall, hrounds, hpushed,
      hcurrent⟩
  | crash hpc | lock hpc | pushed hpc | selfLock hpc | wait hpc | wake hpc | visit hpc =>
    rw [hpc] at hflag hcalm hcount hsmall hpushed hcurrent
    exact ⟨hflag, hbound, hcalm, hcount, hsmall, hrounds, hpushed, hcurrent⟩

/-- A subscription keeps the barrier. -/
lemma Barrier.subscribe (hl : Locks s) (hb : Barrier s) (fd : ℕ) (allocated : Bool) :
    Barrier (s.subscribe fd allocated) := by
  obtain ⟨hflag, hbound, hcalm, hcount, hsmall, hrounds, hpushed, hcurrent⟩ := hb
  cases allocated with
  | false => exact ⟨hflag, hbound, hcalm, hcount, hsmall, hrounds, hpushed, hcurrent⟩
  | true =>
    refine ⟨hflag, hbound, hcalm, fun h => ?_, hsmall, hrounds, hpushed,
      fun hround task h hcur => ?_⟩
    · have hlen : (s.subscribe fd true).linked.length = s.linked.length + 1 :=
        List.length_append
      have hcnt : (s.subscribe fd true).subscribersCount = s.subscribersCount + 1 := rfl
      rw [hlen, hcnt, hcount h]
    · obtain ⟨k, hk⟩ := List.getElem?_of_mem h
      have hne : task.subscriber ≠ s.subscribers := Nat.ne_of_lt (hl.known k task hk)
      have hsub : (s.subscribe fd true).subscriber task.subscriber = s.subscriber task.subscriber :=
        (subscriber_link fd _).trans (if_neg hne)
      rw [hsub]
      exact hcurrent hround task h hcur

/-- `Barrier` is preserved by every step that meets the condition. -/
lemma barrier_step (hl : Locks s) (hg : Guarded Placed s) (hb : Barrier s)
    (hok : roundFits s e = true) (hst : s.step e = some t) : Barrier t := by
  cases e with
  | subscribe fd allocated =>
    simp only [step] at hst
    split_ifs at hst
    cases hst
    exact hb.subscribe hl fd allocated
  | session allocated => exact hb.session hok (sessionMove_of_step hst)
  | worker k sent =>
    obtain ⟨task, sub, pc, hk, hw, rfl⟩ := workerStep_eq_some hst
    exact hb.worker hg hk hw

/-- `Barrier` holds after every run whose rounds fit. -/
theorem barrier_of_run {ok : Subscription → SubscriptionEvent → Prop}
    (hok : ∀ s e, ok s e → roundFits s e = true) (hrun : Run step ok (initial todo) s) :
    Barrier s :=
  hrun.invariant_with (fun _ h => And.intro (locks_of_run h) (placed_of_run h))
    (barrier_initial todo)
    fun _ _ _ hj _ hb h hst => barrier_step hj.1 hj.2 hb (hok _ _ h) hst

/-! ## The barrier -/

/-- When `add_chunk` has returned, a subscriber that was linked in its round has a task of that
round that has ended, and has loaded all chunks unless the task has failed. -/
lemma Barrier.ended (hb : Barrier s) (hpc : s.pc.betweenCalls = true) {j : ℕ}
    (hj : j ∈ s.roundSubscribers) :
    ∃ task ∈ s.tasks, task.subscriber = j ∧ task.round = s.round ∧
      ∃ failed, (task.pc = .unlocking failed ∨ task.pc = .done failed) ∧
        (failed = false → (s.subscriber j).chunkLoaded = s.container.count) := by
  have hidle : s.pc = .idle := by cases h : s.pc <;> first | rfl | (rw [h] at hpc; cases hpc)
  have hzero : s.pending = 0 := hb.calm (by rw [hidle]; rfl)
  rcases hb.pushed j hj with h | ⟨task, hmem, rfl, hcur⟩
  · rw [hidle] at h
    exact absurd h List.not_mem_nil
  · have hdone : task.pc.unfinished = false := by
      rw [← Bool.not_eq_true]
      exact List.countP_eq_zero.mp hzero task hmem
    have hcovers := hb.current (by rw [hidle]; rfl) task hmem hcur
    refine ⟨task, hmem, rfl, hcur, ?_⟩
    cases h : task.pc with
    | unlocking failed =>
      refine ⟨failed, Or.inl rfl, fun hf => ?_⟩
      rwa [h, hf] at hcovers
    | done failed =>
      refine ⟨failed, Or.inr rfl, fun hf => ?_⟩
      rwa [h, hf] at hcovers
    | _ => rw [h] at hdone; cases hdone

/-- In a run whose rounds fit, the flag always stands for the number of unfinished tasks and of the
subscribers that `__send_chunks` has still to visit; and when `add_chunk` has returned, no task is
unfinished, and every subscriber that was linked in the round has finished its task of the round
and has loaded all chunks, unless one of its sends has failed. -/
theorem add_chunk_barrier (hrun : Run step (roundFits · · = true) (initial todo) s) :
    s.flag = s.pending + s.pc.unpushed.length ∧
      (s.pc.betweenCalls = true → s.pending = 0 ∧ ∀ j ∈ s.roundSubscribers,
        ∃ task ∈ s.tasks, task.subscriber = j ∧ task.round = s.round ∧
          ∃ failed, (task.pc = .unlocking failed ∨ task.pc = .done failed) ∧
            (failed = false → (s.subscriber j).chunkLoaded = s.container.count)) := by
  have hb := barrier_of_run (fun _ _ h => h) hrun
  refine ⟨hb.flag, fun hpc => ⟨hb.calm ?_, fun j hj => hb.ended hpc hj⟩⟩
  cases h : s.pc <;> first | rfl | (rw [h] at hpc; cases hpc)

/-- A round with two subscribers, one of which fails. -/
theorem add_chunk_barrier_two :
    ∃ s, Run step (roundFits · · = true) (initial twoChunks) s ∧ s.pc.betweenCalls = true ∧
      s.roundSubscribers = [0, 1] ∧ s.flag = s.pending + s.pc.unpushed.length ∧
      (s.pc.betweenCalls = true → s.pending = 0 ∧ ∀ j ∈ s.roundSubscribers,
        ∃ task ∈ s.tasks, task.subscriber = j ∧ task.round = s.round ∧
          ∃ failed, (task.pc = .unlocking failed ∨ task.pc = .done failed) ∧
            (failed = false → (s.subscriber j).chunkLoaded = s.container.count)) := by
  have hrun := Run.get_execWhere step (roundFits · · = true) (initial twoChunks)
    (.subscribe 5 true :: .subscribe 6 true :: sessionSteps 7 ++
      workerSteps 1 [none, none, none, some 2, none, none, none, none] ++
      workerSteps 0 [none, none, none, none, none, none] ++ sessionSteps 2) (by decide +kernel)
  exact ⟨_, hrun, by decide +kernel, by decide +kernel, add_chunk_barrier hrun⟩

/-- With 128 subscribers the flag is `-128`, and `add_chunk` returns with all tasks unfinished. -/
theorem add_chunk_returns_early :
    ∃ s, Run step (allSucceed · · = true) (initial twoChunks) s ∧ s.pc.betweenCalls = true ∧
      s.round = 1 ∧ s.roundSubscribers.length = 128 ∧ s.pending = 128 ∧ s.flag = -128 := by
  have hrun := Run.get_execWhere step (allSucceed · · = true) (initial twoChunks)
    (List.replicate 128 (.subscribe 5 true) ++ sessionSteps 133) (by decide +kernel)
  exact ⟨_, hrun, by decide +kernel⟩

end Subscription

end OsLabs.Proxy
