import OsLabs.Proxy.Workers

/-!
# The lock of a subscriber

A worker changes its subscriber only while it holds the subscriber's lock.  `Locks` says who holds
it, in every reachable state.  An invariant about one subscriber is stated as a predicate `P` on
the subscriber and the position of the worker that holds its lock: `Guarded P` says that `P` holds
of every locked subscriber with that position, and of every unlocked one at rest.  The rules for
`Guarded` reduce its preservation to the effect of single steps on single subscribers.
-/

namespace OsLabs.Proxy

open Transition

/-- The worker holds the lock of its subscriber. -/
def TaskPc.holds : TaskPc → Bool
  | .locked | .loop .. | .sending .. | .finishing _ | .unlocking _ => true
  | .fault holding => holding
  | .queued | .done _ => false

/-- The subscribers that the loop of `__send_chunks` has still to visit. -/
def SessionPc.unpushed : SessionPc → List ℕ
  | .sendLoop rest | .selfLocked rest => rest
  | _ => []

namespace Subscription

variable {s t : Subscription} {sub sub' : Subscriber} {pc pc' : TaskPc} {sent : Option ℕ}
  {allocated : Bool} {k : ℕ} {task : Task} {e : SubscriptionEvent}

/-! ## Frame rules -/

/-- Only the entry of the worker that moves changes in the list of tasks. -/
lemma tasks_worked (hk : s.tasks[k]? = some task) (sub : Subscriber) (pc : TaskPc) (k' : ℕ) :
    (s.worked k task sub pc).tasks[k']? =
      if k' = k then some { task with pc := pc } else s.tasks[k']? := by
  have hlt : k < s.tasks.length := (List.getElem?_eq_some_iff.mp hk).1
  rw [worked, List.getElem?_set]
  split_ifs with h h' h' <;> first | rfl | omega

/-- Only the subscriber of the worker that moves changes. -/
lemma subscriber_worked (s : Subscription) (k : ℕ) (task : Task) (sub : Subscriber) (pc : TaskPc)
    (j : ℕ) :
    (s.worked k task sub pc).subscriber j = if j = task.subscriber then sub else s.subscriber j :=
  Function.update_apply ..

/-- Only the subscriber that is closed changes. -/
lemma subscriber_close (j i : ℕ) :
    (s.close j).subscriber i =
      if i = j then { s.subscriber j with closed := true } else s.subscriber i :=
  Function.update_apply ..

/-- Only the new subscriber changes. -/
lemma subscriber_link (fd i : ℕ) :
    (s.link fd).subscriber i =
      if i = s.subscribers then ⟨fd, 0, false, false, [], false⟩ else s.subscriber i :=
  Function.update_apply ..

/-- A new task is queued and is the last one. -/
lemma tasks_pushTask {j k' : ℕ} {task' : Task} (h : (s.pushTask j).tasks[k']? = some task') :
    s.tasks[k']? = some task' ∨ task' = ⟨j, s.round, .queued⟩ := by
  rw [pushTask] at h
  rcases Nat.lt_or_ge k' s.tasks.length with hlt | hge
  · exact Or.inl (by rwa [List.getElem?_append_left hlt] at h)
  · rw [List.getElem?_append_right hge] at h
    exact Or.inr (List.mem_singleton.mp (List.mem_of_getElem? h))

/-! ## Who holds the locks -/

/-- The tasks whose worker holds the lock of a subscriber. -/
structure Locks (s : Subscription) : Prop where
  known : ∀ (k : ℕ) (task : Task), s.tasks[k]? = some task → task.subscriber < s.subscribers
  listed : ∀ j ∈ s.linked, j < s.subscribers
  unpushed : ∀ j ∈ s.pc.unpushed, j < s.subscribers
  held : ∀ (k : ℕ) (task : Task), s.tasks[k]? = some task → task.pc.holds = true →
    (s.subscriber task.subscriber).locked = true
  unique : ∀ (k k' : ℕ) (task task' : Task), s.tasks[k]? = some task → s.tasks[k']? = some task' →
    task.pc.holds = true → task'.pc.holds = true → task'.subscriber = task.subscriber → k' = k
  holder : ∀ j, (s.subscriber j).locked = true → ∃ (k : ℕ) (task : Task), s.tasks[k]? = some task ∧
    task.pc.holds = true ∧ task.subscriber = j

/-- At the start no lock is held. -/
lemma locks_initial (todo : List Payload) : Locks (initial todo) := by
  constructor <;> simp [initial, SessionPc.unpushed]

/-- A step of a worker takes the lock, keeps it or releases it. -/
lemma Work.holds (h : Work s sub sent pc sub' pc') :
    (pc.holds = false ∧ pc'.holds = true ∧ sub.locked = false ∧ sub'.locked = true) ∨
    (pc.holds = pc'.holds ∧ sub'.locked = sub.locked ∧ (pc.holds = false → sub' = sub)) ∨
    (pc.holds = true ∧ pc'.holds = false ∧ sub'.locked = false) := by
  cases h <;> simp_all [TaskPc.holds]

/-- The worker that moves holds the lock, or the lock is free, or it does nothing to it. -/
lemma Locks.worker (hl : Locks s) (hk : s.tasks[k]? = some task)
    (hw : Work s (s.subscriber task.subscriber) sent task.pc sub pc) :
    Locks (s.worked k task sub pc) := by
  obtain ⟨hknown, hlisted, hunpushed, hheld, hunique, hholder⟩ := hl
  have htasks := tasks_worked hk sub pc
  have hsub := subscriber_worked s k task sub pc
  have hcases := hw.holds
  constructor
  case known =>
    intro k' task' hk'
    rw [htasks] at hk'
    split_ifs at hk' with h
    · cases hk'
      exact hknown k task hk
    · exact hknown k' task' hk'
  case listed => exact hlisted
  case unpushed => exact hunpushed
  case held => grind
  case unique => grind
  case holder => grind

/-- The steps of the session thread take and release no lock of a subscriber. -/
lemma Locks.session (hl : Locks s) (hm : SessionMove s allocated t) : Locks t := by
  obtain ⟨hknown, hlisted, hunpushed, hheld, hunique, hholder⟩ := hl
  have hnone : ∀ j ∈ ([] : List ℕ), j < s.subscribers := fun j hj => absurd hj List.not_mem_nil
  cases hm with
  | start hpc => exact ⟨hknown, hlisted, hlisted, hheld, hunique, hholder⟩
  | selfLock hpc =>
    rw [hpc] at hunpushed
    exact ⟨hknown, hlisted, hunpushed, hheld, hunique, hholder⟩
  | @push j rest hpc hload =>
    have hj : j < s.subscribers := hunpushed j (by simp [hpc, SessionPc.unpushed])
    have hrest : ∀ i ∈ rest, i < s.subscribers := fun i hi =>
      hunpushed i (by simp [hpc, SessionPc.unpushed, hi])
    have hnew : ∀ (k' : ℕ) (task' : Task), (s.pushTask j).tasks[k']? = some task' →
        task'.pc.holds = true → s.tasks[k']? = some task' := by
      intro k' task' hk' hh
      rcases tasks_pushTask hk' with h | rfl
      · exact h
      · cases hh
    refine ⟨fun k' task' hk' => ?_, hlisted, hrest, fun k' task' hk' hh => ?_,
      fun k₁ k₂ t₁ t₂ h₁ h₂ hh₁ hh₂ => ?_, fun i hi => ?_⟩
    · rcases tasks_pushTask hk' with h | rfl
      · exact hknown k' task' h
      · exact hj
    · exact hheld k' task' (hnew k' task' hk' hh) hh
    · exact hunique k₁ k₂ t₁ t₂ (hnew _ _ h₁ hh₁) (hnew _ _ h₂ hh₂) hh₁ hh₂
    · obtain ⟨k', task', hk', hh⟩ := hholder i hi
      have hlt := (List.getElem?_eq_some_iff.mp hk').1
      exact ⟨k', task', (List.getElem?_append_left hlt).trans hk', hh⟩
  | unlink hpc hfree =>
    exact ⟨hknown, fun i hi => hlisted i (List.mem_of_mem_erase hi), hnone, hheld, hunique, hholder⟩
  | @close j tmp hpc hfree =>
    have hlocked : ∀ i, ((s.close j).subscriber i).locked = (s.subscriber i).locked := by
      intro i
      rw [subscriber_close]
      split_ifs with h
      · rw [h]
      · rfl
    exact ⟨hknown, hlisted, hnone, fun k' task' hk' hh => (hlocked _).trans (hheld k' task' hk' hh),
      hunique, fun i hi => hholder i ((hlocked i).symm.trans hi)⟩
  | finish | crash | lock | add | pushed | wait | return_ | wake | visit =>
    exact ⟨hknown, hlisted, hnone, hheld, hunique, hholder⟩

/-- The lock of a new subscriber is free. -/
lemma Locks.link (hl : Locks s) (fd : ℕ) : Locks (s.link fd) := by
  obtain ⟨hknown, hlisted, hunpushed, hheld, hunique, hholder⟩ := hl
  refine ⟨fun k' task' hk' => Nat.lt_succ_of_lt (hknown k' task' hk'), fun j hj => ?_,
    fun j hj => Nat.lt_succ_of_lt (hunpushed j hj), fun k' task' hk' hh => ?_, hunique,
    fun j hj => ?_⟩
  · rcases List.mem_append.mp hj with h | h
    · exact Nat.lt_succ_of_lt (hlisted j h)
    · rw [List.mem_singleton.mp h]
      exact Nat.lt_succ_self _
  · have hne : task'.subscriber ≠ s.subscribers := Nat.ne_of_lt (hknown k' task' hk')
    rw [subscriber_link, if_neg hne]
    exact hheld k' task' hk' hh
  · rw [subscriber_link] at hj
    split_ifs at hj
    exact hholder j hj

/-- `Locks` is preserved by every step. -/
lemma locks_step (hl : Locks s) (hst : s.step e = some t) : Locks t := by
  cases e with
  | subscribe fd allocated =>
    simp only [step] at hst
    split_ifs at hst
    cases hst
    cases allocated
    · exact ⟨hl.known, hl.listed, hl.unpushed, hl.held, hl.unique, hl.holder⟩
    · exact hl.link fd
  | session allocated => exact hl.session (sessionMove_of_step hst)
  | worker k sent =>
    obtain ⟨task, sub, pc, hk, hw, rfl⟩ := workerStep_eq_some hst
    exact hl.worker hk hw

/-- `Locks` holds in every state that is reached, under any condition on the steps. -/
theorem locks_of_run {ok : Subscription → SubscriptionEvent → Prop} {todo : List Payload}
    (hrun : Run step ok (initial todo) s) : Locks s :=
  hrun.invariant (locks_initial todo) fun _ _ _ hl _ hst => locks_step hl hst

/-! ## Invariants about one subscriber -/

/-- `P` holds of every locked subscriber with the position of the worker that holds its lock, and
of every unlocked one at rest. -/
structure Guarded (P : ChunkContainer → Subscriber → TaskPc → Prop) (s : Subscription) : Prop where
  running : ∀ (k : ℕ) (task : Task), s.tasks[k]? = some task → task.pc.holds = true →
    P s.container (s.subscriber task.subscriber) task.pc
  resting : ∀ j, (s.subscriber j).locked = false → P s.container (s.subscriber j) .queued

/-- What a predicate about one subscriber has to satisfy to be an invariant: it holds of a new
subscriber, it sees neither where a worker without the lock is nor whether the subscriber was
closed, and it is kept by `__add_chunk` and by the steps of a worker that meet the condition
`ok`. -/
structure Local (P : ChunkContainer → Subscriber → TaskPc → Prop)
    (ok : Subscription → SubscriptionEvent → Prop) : Prop where
  fresh : ∀ container fd, P container ⟨fd, 0, false, false, [], false⟩ .queued
  rest : ∀ {container sub pc}, pc.holds = false → (P container sub pc ↔ P container sub .queued)
  close : ∀ {container sub pc}, P container sub pc → P container { sub with closed := true } pc
  add : ∀ {container sub pc p allocated}, P container sub pc →
    P (container.addChunk p allocated) sub pc
  work : ∀ {s k sent task sub pc}, s.tasks[k]? = some task → ok s (.worker k sent) →
    Work s (s.subscriber task.subscriber) sent task.pc sub pc →
    P s.container (s.subscriber task.subscriber) task.pc → P s.container sub pc

variable {P : ChunkContainer → Subscriber → TaskPc → Prop}
  {ok : Subscription → SubscriptionEvent → Prop}

/-- Before a step of its worker, `P` holds of a subscriber with the position of that worker. -/
lemma Guarded.before (hP : Local P ok) (hg : Guarded P s) (hk : s.tasks[k]? = some task)
    (hw : Work s (s.subscriber task.subscriber) sent task.pc sub pc)
    (hmoves : task.pc.holds = true ∨ pc.holds = true) :
    P s.container (s.subscriber task.subscriber) task.pc := by
  rcases Bool.eq_false_or_eq_true task.pc.holds with h | h
  · exact hg.running k task hk h
  · refine (hP.rest h).mpr (hg.resting _ ?_)
    rcases hw.holds with hcase | hcase | hcase <;> grind

/-- A step of a worker keeps `P` for its own subscriber and does not touch the others. -/
lemma Guarded.worker (hP : Local P ok) (hl : Locks s) (hg : Guarded P s)
    (hk : s.tasks[k]? = some task) (hok : ok s (.worker k sent))
    (hw : Work s (s.subscriber task.subscriber) sent task.pc sub pc) :
    Guarded P (s.worked k task sub pc) := by
  have hafter : task.pc.holds = true ∨ pc.holds = true → P s.container sub pc := fun h =>
    hP.work hk hok hw (hg.before hP hk hw h)
  have htasks := tasks_worked hk sub pc
  have hsub := subscriber_worked s k task sub pc
  have hcont : (s.worked k task sub pc).container = s.container := rfl
  constructor
  case running =>
    intro k' task' hk' hh
    rw [htasks] at hk'
    rw [hsub, hcont]
    split_ifs at hk' with h
    · cases hk'
      rw [if_pos rfl]
      exact hafter (Or.inr hh)
    · split_ifs with hj
      · -- Another worker holds this lock, so the step has no effect on the subscriber.
        have hlocked := hl.held k' task' hk' hh
        have hother := hl.unique k' k task' task hk' hk hh
        have hsame : sub = s.subscriber task.subscriber := by
          rcases hw.holds with hcase | hcase | hcase <;> grind
        rw [hsame, ← hj]
        exact hg.running k' task' hk' hh
      · exact hg.running k' task' hk' hh
  case resting =>
    intro j hfree
    rw [hsub] at hfree ⊢
    rw [hcont]
    split_ifs at hfree ⊢ with hj
    · have hlocked := hl.held k task hk
      rcases hw.holds with ⟨-, -, -, h⟩ | ⟨-, heq, hsame⟩ | ⟨h, h', -⟩
      · rw [h] at hfree
        cases hfree
      · have hrest : task.pc.holds = false := by grind
        rw [hsame hrest]
        exact hg.resting _ (heq.symm.trans hfree)
      · exact (hP.rest h').mp (hafter (Or.inl h))
    · exact hg.resting j hfree

/-- A predicate that `Local` admits is an invariant of the steps that meet the condition. -/
theorem guarded_step (hP : Local P ok) (hl : Locks s) (hg : Guarded P s) (hok : ok s e)
    (hst : s.step e = some t) : Guarded P t := by
  cases e with
  | subscribe fd allocated =>
    simp only [step] at hst
    split_ifs at hst
    cases hst
    cases allocated
    · exact ⟨hg.running, hg.resting⟩
    · refine ⟨fun k task hk hh => ?_, fun j hfree => ?_⟩
      · have hne : task.subscriber ≠ s.subscribers := Nat.ne_of_lt (hl.known k task hk)
        have hsub := subscriber_link (s := s) fd task.subscriber
        rw [if_neg hne] at hsub
        exact hsub ▸ hg.running k task hk hh
      · have hsub := subscriber_link (s := s) fd j
        split_ifs at hsub with hj
        · exact hsub ▸ hP.fresh s.container fd
        · exact hsub ▸ hg.resting j (hsub ▸ hfree)
  | session allocated =>
    cases sessionMove_of_step hst with
    | add hpc => exact ⟨fun k task hk hh => hP.add (hg.running k task hk hh),
        fun j hfree => hP.add (hg.resting j hfree)⟩
    | push hpc hload =>
      refine ⟨fun k task hk hh => ?_, hg.resting⟩
      rcases tasks_pushTask hk with h | rfl
      · exact hg.running k task h hh
      · cases hh
    | @close j tmp hpc hfree =>
      refine ⟨fun k task hk hh => ?_, fun i hi => ?_⟩
      · have hsub := subscriber_close (s := s) j task.subscriber
        split_ifs at hsub with hj
        · exact hsub ▸ hP.close (hj ▸ hg.running k task hk hh)
        · exact hsub ▸ hg.running k task hk hh
      · have hsub := subscriber_close (s := s) j i
        split_ifs at hsub with hj
        · exact hsub ▸ hP.close (hg.resting j hfree)
        · exact hsub ▸ hg.resting i (hsub ▸ hi)
    | finish | crash | lock | start | pushed | selfLock | wait | return_ | wake | visit | unlink =>
      exact ⟨hg.running, hg.resting⟩
  | worker k sent =>
    obtain ⟨task, sub, pc, hk, hw, rfl⟩ := workerStep_eq_some hst
    exact hg.worker hP hl hk hok hw

/-- A predicate that `Local` admits holds of every subscriber after every run whose steps meet the
condition. -/
theorem guarded_of_run {todo : List Payload} (hP : Local P ok)
    (hrun : Run step ok (initial todo) s) : Guarded P s := by
  refine hrun.invariant_with (fun _ => locks_of_run) ⟨?_, fun _ _ => hP.fresh _ _⟩
    fun _ _ _ hl _ hg hok hst => guarded_step hP hl hg hok hst
  intro k task hk
  simp [initial] at hk

/-- `P` holds of every subscriber, with the position of some worker or at rest. -/
lemma Guarded.exists (hg : Guarded P s) (hl : Locks s) (j : ℕ) :
    ∃ pc, P s.container (s.subscriber j) pc := by
  cases hlocked : (s.subscriber j).locked with
  | false => exact ⟨_, hg.resting j hlocked⟩
  | true =>
    obtain ⟨k, task, hk, hh, rfl⟩ := hl.holder j hlocked
    exact ⟨_, hg.running k task hk hh⟩

end Subscription

end OsLabs.Proxy
