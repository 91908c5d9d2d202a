import OsLabs.Threadpool.Pool

/-!
# Conservation of tasks and wake-ups

The invariant of the pool: the chain from `last_task` has the tasks that were pushed and not taken,
`queue_size` is its length up to the wrapping of an `int`, and while a worker sleeps the queue is
not longer than the number of woken workers.

`queue_size` is not the length of the chain when `2 ^ 31` tasks wait (`queueSize_wraps`).  With that
exception `pool_conserves` is what one expects, and the part about wake-ups has no exception.
-/

namespace OsLabs.Threadpool

open Transition

namespace Pool

variable {T W : Type} [DecidableEq T] [Fintype T] {p p' : Pool T W} {chain chain' : List (ℕ × W)}
  {t : T} {pc : WorkerPc W}

/-- No wake-up is lost.  The length is counted as far as an `int` can see it. -/
def NoLostWakeUp (worker : T → WorkerPc W) (length : ℕ) : Prop :=
  WakeUpLaw (census worker WorkerPc.isAsleep) (length % 2 ^ 32 : ℕ) (census worker WorkerPc.isWoken)

/-- The invariant, for the chain from `last_task`. -/
structure Invariant (p : Pool T W) (chain : List (ℕ × W)) : Prop where
  path : p.tasks.Path Task.prev Task.work p.lastTask chain none
  size : p.queueSize = wrap 32 chain.length
  /-- A pushed task is in the chain or was taken, and no task twice. -/
  conserved : (chain.map Prod.fst ++ p.taken.map Prod.snd).Perm p.pushed
  nodup : p.pushed.Nodup
  /-- No task is freed. -/
  allocated : ∀ n ∈ p.pushed, p.tasks.cell n ≠ none
  hasTask : ∀ t n, p.worker t = .hasTask n → n ∈ p.pushed
  noLostWakeUp : p.stop = false → NoLostWakeUp p.worker chain.length
  crash : p.crash = none ∨ p.crash = some .outOfMemory

omit [Fintype T] in
/-- The tasks that the workers have are still those that were pushed. -/
lemma hasTask_update (h : ∀ t n, p.worker t = .hasTask n → n ∈ p.pushed)
    (hpc : ∀ n, pc = .hasTask n → n ∈ p.pushed) (u : T) (n : ℕ)
    (hu : Function.update p.worker t pc u = .hasTask n) : n ∈ p.pushed := by
  rcases eq_or_ne u t with rfl | hne
  · rw [Function.update_self] at hu
    exact hpc n hu
  · rw [Function.update_of_ne hne] at hu
    exact h u n hu

namespace Invariant

omit [DecidableEq T] in
/-- The new pool. -/
lemma init (idSequence : ℤ) : Invariant (Pool.init idSequence : Pool T W) [] where
  path := .nil _
  size := wrap_zero.symm
  conserved := .nil
  nodup := List.nodup_nil
  allocated := fun _ h => (List.not_mem_nil h).elim
  hasTask := by
    intro t n h
    cases h
  noLostWakeUp := fun _ => .of_awake fun _ => rfl
  crash := Or.inl rfl

/-- A step of a worker that leaves the queue alone. -/
lemma goTo (h : Invariant p chain) (pc : WorkerPc W)
    (hpc : ∀ n, pc = .hasTask n → n ∈ p.pushed)
    (hlaw : p.stop = false → NoLostWakeUp (Function.update p.worker t pc) chain.length) :
    Invariant (p.goTo t pc) chain :=
  ⟨h.path, h.size, h.conserved, h.nodup, h.allocated, hasTask_update h.hasTask hpc, hlaw, h.crash⟩

omit [DecidableEq T] in
/-- A push makes a new node, which leads to the last task; that one gets a `next` and stays as it is
otherwise. -/
lemma exists_pushTask (h : Invariant p chain) (work : W) {new : ℕ}
    (hfree : p.tasks.cell new = none) :
    ∃ tasks : Heap (Task W), p.pushTask work new =
        some { p with tasks := tasks, lastTask := some new, queueSize := wrap 32 (p.queueSize + 1),
                      idSequence := wrap 32 (p.idSequence + 1), pushed := p.pushed ++ [new] } ∧
      (∀ n a, p.tasks.cell n = some a →
        ∃ b, tasks.cell n = some b ∧ b.prev = a.prev ∧ b.work = a.work) ∧
      tasks.cell new = some ⟨p.idSequence, work, none, p.lastTask⟩ := by
  have hold : ∀ n a, p.tasks.cell n = some a →
      (p.tasks.set new (some ⟨p.idSequence, work, none, p.lastTask⟩)).cell n = some a := by
    intro n a ha
    have hne : n ≠ new := fun heq => Option.some_ne_none a (ha.symm.trans (heq ▸ hfree))
    rw [Heap.cell_set_of_ne hne, ha]
  unfold Pool.pushTask
  rw [Heap.alloc_of_free hfree]
  cases chain with
  | nil =>
    have hlast : p.lastTask = none := h.path.eq_of_nil
    refine ⟨_, by rw [hlast]; rfl, fun n a ha => ⟨a, hold n a ha, rfl, rfl⟩, ?_⟩
    rw [← hlast, Heap.cell_set_self]
  | cons x chain =>
    obtain ⟨a, ha, -, -⟩ := h.path.head
    have hlast : p.lastTask = some x.1 := h.path.start_eq
    have hx : new ≠ x.1 := fun heq => Option.some_ne_none a (ha.symm.trans (heq ▸ hfree))
    refine ⟨(p.tasks.set new (some ⟨p.idSequence, work, none, p.lastTask⟩)).set x.1
      (some { a with next := some new }), ?_, ?_, ?_⟩
    · have hmodify := Heap.modify_of_cell (hold x.1 a ha) fun task => { task with next := some new }
      rw [hlast] at hmodify ⊢
      simp only [Option.bind_eq_bind, Option.bind_some, Option.isSome_some, if_true, hmodify]
    · intro n b hb
      rw [Heap.cell_set]
      rcases eq_or_ne n x.1 with rfl | hn
      · obtain rfl := Option.some.inj (ha.symm.trans hb)
        exact ⟨_, Function.update_self .., rfl, rfl⟩
      · rw [Function.update_of_ne hn]
        exact ⟨b, hold n b hb, rfl, rfl⟩
    · rw [Heap.cell_set_of_ne hx, Heap.cell_set_self]

omit [DecidableEq T] in
/-- After a push the new task comes first in the chain. -/
lemma push (h : Invariant p chain) {work : W} {new : ℕ}
    (hfree : p.tasks.cell new = none) (hpush : p.pushTask work new = some p')
    (worker : T → WorkerPc W)
    (hworker : ∀ t n, worker t = .hasTask n → n ∈ p.pushed)
    (hlaw : p.stop = false → NoLostWakeUp worker (chain.length + 1)) :
    Invariant { p' with worker := worker } ((new, work) :: chain) := by
  obtain ⟨tasks, hpush', hkept, hnode⟩ := h.exists_pushTask work hfree
  obtain rfl := Option.some.inj (hpush.symm.trans hpush')
  have hnew : new ∉ p.pushed := fun hmem => h.allocated new hmem hfree
  refine ⟨.cons hnode (h.path.congr fun n _ => hkept n), ?_, ?_, ?_, ?_, ?_, hlaw, h.crash⟩
  · show wrap 32 (p.queueSize + 1) = wrap 32 ((chain.length + 1 : ℕ) : ℤ)
    rw [h.size, wrap_wrap_add]
    rfl
  · exact (h.conserved.cons new).trans (List.perm_append_singleton new p.pushed).symm
  · exact List.nodup_append.mpr ⟨h.nodup, List.nodup_singleton new, fun a ha b hb heq =>
      hnew (List.mem_singleton.mp hb ▸ heq ▸ ha)⟩
  · intro n hn
    rcases List.mem_append.mp hn with hn | hn
    · obtain ⟨a, ha⟩ := Option.ne_none_iff_exists'.mp (h.allocated n hn)
      obtain ⟨b, hb, -⟩ := hkept n a ha
      exact fun hnone => Option.some_ne_none b (hb.symm.trans hnone)
    · rw [List.mem_singleton.mp hn]
      exact fun hnone => Option.some_ne_none _ (hnode.symm.trans hnone)
  · exact fun t n ht => List.mem_append_left _ (hworker t n ht)

/-- A worker takes the last task. -/
lemma take {x : ℕ × W} (h : Invariant p (x :: chain)) (hsize : p.queueSize ≠ 0)
    (ht : (p.worker t).isAsleep = false) :
    ∃ task, p.lastTask = some x.1 ∧ p.tasks.cell x.1 = some task ∧
      Invariant { p.goTo t (.hasTask x.1) with
        queueSize := wrap 32 (p.queueSize - 1), lastTask := task.prev,
        taken := p.taken ++ [(t, x.1)] } chain := by
  obtain ⟨task, htask, -, hrest⟩ := h.path.head
  have hmem : x.1 ∈ p.pushed := h.conserved.subset (by simp)
  refine ⟨task, h.path.start_eq, htask, hrest, ?_, ?_, h.nodup, h.allocated,
    hasTask_update h.hasTask fun n hn => ?_, fun hstop => ?_, h.crash⟩
  · show wrap 32 (p.queueSize - 1) = wrap 32 (chain.length : ℤ)
    rw [h.size, wrap_wrap_sub, List.length_cons]
    congr 1
    omega
  · refine List.Perm.trans ?_ h.conserved
    show (chain.map Prod.fst ++ (p.taken ++ [(t, x.1)]).map Prod.snd).Perm _
    rw [List.map_append, ← List.append_assoc]
    exact List.perm_append_singleton x.1 _
  · cases hn
    exact hmem
  · -- the queue was not empty as far as `queue_size` can tell
    have hmod : (chain.length + 1) % 2 ^ 32 ≠ 0 := by
      intro hzero
      exact hsize (h.size.trans (wrap_natCast_eq_zero_iff.mpr hzero))
    have hle := Bool.toNat_le (p.worker t).isWoken
    refine (h.noLostWakeUp hstop).update ?_ ?_
    · rw [ht]
      exact Nat.le_refl 0
    · show ((chain.length % 2 ^ 32 : ℕ) : ℤ) + _ ≤ ((chain.length + 1) % 2 ^ 32 : ℕ) + 0
      omega

/-- The critical section of a worker. -/
lemma workerSection (h : Invariant p chain) (ht : (p.worker t).isAsleep = false) :
    ∃ chain', Invariant (p.workerSection t) chain' := by
  unfold Pool.workerSection
  split_ifs with hempty hstop
  · refine ⟨chain, h.goTo .asleep (by rintro n ⟨⟩) fun _ => .of_le ?_⟩
    have hmod := wrap_natCast_eq_zero_iff.mp (h.size.symm.trans hempty.1)
    rw [hmod]
    exact Int.natCast_nonneg _
  · exact ⟨chain, h.goTo .exited (by rintro n ⟨⟩)
      fun hgo => Bool.noConfusion (hstop.symm.trans hgo)⟩
  · have hsize : p.queueSize ≠ 0 := fun hzero => hempty ⟨hzero, by simpa using hstop⟩
    cases chain with
    | nil => exact absurd (h.size.trans wrap_zero) hsize
    | cons x chain =>
      obtain ⟨task, hlast, htask, hinv⟩ := h.take hsize ht
      simp only [hlast, htask]
      exact ⟨chain, hinv⟩

/-- The steps of a worker. -/
lemma workerStep (h : Invariant p chain) (hst : p.workerStep t = some p') :
    ∃ chain', Invariant p' chain' := by
  unfold Pool.workerStep at hst
  have hlaw : ∀ pc : WorkerPc W, pc.isAsleep = false → (p.worker t).isWoken = false →
      p.stop = false → NoLostWakeUp (Function.update p.worker t pc) chain.length := by
    intro pc hpc hwoken hstop
    refine (h.noLostWakeUp hstop).update ?_ ?_
    · rw [hpc]
      exact Nat.zero_le _
    · rw [hwoken]
      exact Int.add_le_add_left (Int.natCast_nonneg _) _
  split at hst
  next ht =>
    cases hst
    exact h.workerSection (by rw [ht]; rfl)
  next ht =>
    cases hst
    exact h.workerSection (by rw [ht]; rfl)
  next new ht =>
    obtain ⟨task, htask⟩ := Option.ne_none_iff_exists'.mp (h.allocated new (h.hasTask t new ht))
    rw [htask] at hst
    cases hst
    exact ⟨chain, h.goTo _ (by rintro n ⟨⟩) (hlaw _ rfl (by rw [ht]; rfl))⟩
  next ht =>
    cases hst
    exact ⟨chain, h.goTo _ (by rintro n ⟨⟩) (hlaw _ rfl (by rw [ht]; rfl))⟩
  next => cases hst
  next => cases hst

/-- The steps of `threadpool_push_task`. -/
lemma threadpoolPushTask (h : Invariant p chain) {work : W} {malloc : Option ℕ} {target : Option T}
    (hst : p.threadpoolPushTask work malloc target = some p') :
    ∃ chain', Invariant p' chain' := by
  unfold Pool.threadpoolPushTask at hst
  cases malloc with
  | none =>
    cases hst
    exact ⟨chain, h.path, h.size, h.conserved, h.nodup, h.allocated, h.hasTask, h.noLostWakeUp,
      Or.inr rfl⟩
  | some new =>
    dsimp only at hst
    split_ifs at hst with htarget
    obtain ⟨q, hpush, rfl⟩ := Option.map_eq_some_iff.mp hst
    obtain ⟨tasks, hal, -⟩ := Option.bind_eq_some_iff.mp hpush
    have hfree := (Heap.alloc_eq_some hal).1
    have hworker : q.worker = p.worker := by
      obtain ⟨tasks', hpush', -⟩ := h.exists_pushTask work hfree
      obtain rfl := Option.some.inj (hpush.symm.trans hpush')
      rfl
    refine ⟨_, h.push hfree hpush (deliver WorkerPc.wake q.worker target) ?_ ?_⟩
    · rw [hworker]
      cases target with
      | none => exact h.hasTask
      | some u =>
        refine hasTask_update h.hasTask fun n hn => h.hasTask u n ?_
        cases hpc : p.worker u <;> rw [hpc] at hn <;> first | exact hn | cases hn
    · intro hstop
      rw [hworker]
      refine (h.noLostWakeUp hstop).notify htarget ?_ WorkerPc.wake_asleep
      omega

/-- Every step keeps the invariant. -/
lemma step (h : Invariant p chain) {e : Event T W} (hst : Pool.step p e = some p') :
    ∃ chain', Invariant p' chain' := by
  unfold Pool.step at hst
  split_ifs at hst with hcrash
  cases e with
  | push work malloc target => exact h.threadpoolPushTask hst
  | worker t => exact h.workerStep hst
  | wakeUp t =>
    dsimp only at hst
    split_ifs at hst with ht
    cases hst
    refine ⟨chain, h.goTo .woken (by rintro n ⟨⟩) fun hstop => ?_⟩
    have hpc : p.worker t = .asleep := by
      cases hpc : p.worker t <;> rw [hpc] at ht <;> first | rfl | exact Bool.noConfusion ht
    have hlaw : NoLostWakeUp (Function.update p.worker t (p.worker t).wake) chain.length :=
      (h.noLostWakeUp hstop).wake ht fun pc hasleep =>
        ⟨(pc.wake_asleep hasleep).1, (pc.wake_asleep hasleep).2.1⟩
    rwa [hpc] at hlaw
  | destroy =>
    cases hst
    refine ⟨chain, h.path, h.size, h.conserved, h.nodup, h.allocated, fun t n ht => ?_,
      fun hgo => Bool.noConfusion hgo, h.crash⟩
    refine h.hasTask t n ?_
    have hwake : (p.worker t).wake = .hasTask n := ht
    cases hpc : p.worker t <;> rw [hpc] at hwake <;> first | exact hwake | cases hwake

/-- The invariant holds in every reachable state. -/
lemma of_reachable {idSequence : ℤ} (h : Reachable Pool.step (Pool.init idSequence) p) :
    ∃ chain, Invariant p chain :=
  h.invariant (I := fun p => ∃ chain, Invariant p chain) ⟨[], init idSequence⟩
    fun _ _ _ ⟨_, hp⟩ _ hst => hp.step hst

end Invariant

/-! ## The size of the queue -/

/-- A push that is possible while nobody sleeps. -/
lemma step_push {work : W} {new : ℕ} (hcrash : p.crash = none)
    (hpush : p.pushTask work new = some p')
    (hawake : ∀ t, (p.worker t).isAsleep = false) :
    step p (.push work (some new) none) = some p' := by
  unfold step threadpoolPushTask
  rw [hcrash]
  dsimp only [Option.isSome_none]
  rw [if_neg Bool.false_ne_true, if_pos (show maySignal _ none from hawake), hpush]
  rfl

/-- Any number of tasks can be pushed before a worker comes. -/
lemma exists_reachable_length (work : W) (n : ℕ) :
    ∃ (p : Pool T W) (chain : List (ℕ × W)), Reachable step (init 0) p ∧ p.crash = none ∧
      p.stop = false ∧ (∀ t, p.worker t = .ready) ∧ p.Invariant chain ∧ chain.length = n := by
  induction n with
  | zero => exact ⟨init 0, [], Run.refl, rfl, rfl, fun _ => rfl, Invariant.init 0, rfl⟩
  | succ n ih =>
    obtain ⟨p, chain, hrun, hcrash, hstop, hready, hp, rfl⟩ := ih
    have hawake : ∀ t, (p.worker t).isAsleep = false := fun t => by rw [hready t]; rfl
    obtain ⟨new, hfree⟩ := p.tasks.exists_free
    obtain ⟨tasks, hpush, -⟩ := hp.exists_pushTask work hfree
    exact ⟨_, (new, work) :: chain, Run.tail hrun trivial (step_push hcrash hpush hawake), hcrash,
      hstop, hready, hp.push hfree hpush _ hp.hasTask fun _ => .of_awake hawake, rfl⟩

/-- With `2 ^ 31` tasks in the chain `queue_size` is not their number. -/
theorem queueSize_wraps :
    ¬ ∀ p : Pool Unit Unit, Reachable step (init 0) p → p.stop = false → ∀ chain,
      p.tasks.Path Task.prev Task.work p.lastTask chain none → p.queueSize = chain.length := by
  intro hall
  obtain ⟨p, chain, hrun, -, hstop, -, hp, hlength⟩ :=
    exists_reachable_length (T := Unit) () (2 ^ 31)
  have hsize := hall p hrun hstop chain hp.path
  rw [hp.size, hlength] at hsize
  exact absurd hsize (by decide)

/-! ## Main result -/

/-- While the pool is not stopped: `queue_size` is the length of the chain from `last_task` as long
as an `int` can hold it, every pushed task is in the chain or was taken, and no task twice, no bad
pointer is followed, and while `queue_size` is not zero some worker is not asleep. -/
theorem pool_conserves [Nonempty T] {idSequence : ℤ} {p : Pool T W}
    (h : Reachable step (init idSequence) p) (hstop : p.stop = false) :
    ∃ chain, p.tasks.Path Task.prev Task.work p.lastTask chain none ∧
      p.queueSize = wrap 32 chain.length ∧
      (chain.length < 2 ^ 31 → p.queueSize = chain.length) ∧
      (chain.map Prod.fst ++ p.taken.map Prod.snd).Perm p.pushed ∧
      (chain.map Prod.fst ++ p.taken.map Prod.snd).Nodup ∧
      (p.crash = none ∨ p.crash = some .outOfMemory) ∧
      (p.queueSize ≠ 0 → ∃ t, (p.worker t).isAsleep = false) := by
  obtain ⟨chain, hp⟩ := Invariant.of_reachable h
  refine ⟨chain, hp.path, hp.size, fun hlt => ?_, hp.conserved, hp.conserved.nodup_iff.mpr hp.nodup,
    hp.crash, fun hsize => ?_⟩
  · rw [hp.size]
    exact wrap_eq_self (by omega) (by omega)
  · by_contra hnone
    have hall : ∀ t, (p.worker t).isAsleep = true := by
      intro t
      by_contra ht
      exact hnone ⟨t, Bool.eq_false_iff.mpr ht⟩
    obtain ⟨t⟩ := ‹Nonempty T›
    have hlaw := hp.noLostWakeUp hstop (census_pos (hall t))
    have hwoken : census p.worker WorkerPc.isWoken = 0 := census_eq_zero fun u => by
      exact ((p.worker u).wake_asleep (hall u)).2.2
    have hmod : chain.length % 2 ^ 32 ≠ 0 := fun hzero =>
      hsize (hp.size.trans (wrap_natCast_eq_zero_iff.mpr hzero))
    omega

/-- Two workers sleep, and each of two pushes wakes one of them. -/
theorem pool_conserves_two : ∃ p : Pool Bool Unit, p.worker true = .woken ∧
    p.worker false = .woken ∧ p.queueSize = 2 ∧
    ∃ chain, p.tasks.Path Task.prev Task.work p.lastTask chain none ∧
      p.queueSize = wrap 32 chain.length ∧
      (chain.length < 2 ^ 31 → p.queueSize = chain.length) ∧
      (chain.map Prod.fst ++ p.taken.map Prod.snd).Perm p.pushed ∧
      (chain.map Prod.fst ++ p.taken.map Prod.snd).Nodup ∧
      (p.crash = none ∨ p.crash = some .outOfMemory) ∧
      (p.queueSize ≠ 0 → ∃ t, (p.worker t).isAsleep = false) := by
  have hrun := Run.get_execWhere step anyStep (init 7 : Pool Bool Unit)
    [.worker true, .worker false, .push () (some 0) (some true), .push () (some 1) (some false)]
    (by decide +kernel)
  exact ⟨_, by rfl, by rfl, by decide +kernel, pool_conserves hrun (by decide +kernel)⟩

end Pool

end OsLabs.Threadpool
