import OsLabs.Threadpool.StackOrder

/-!
# A pool whose tasks come to an end

`waiting_tasks_starve` needs pushes without end.  With finitely many the pool comes to rest:
`pool_drains` bounds the steps of a run by the pushes and the stray wake-ups in it, and says that
where no worker can make a step all of them sleep and every task was taken.  For the second part the
law of the condition variable is needed: while somebody sleeps, every task has a worker that is
going to look at the queue.
-/

namespace OsLabs.Threadpool

open Transition

/-- How many steps a worker makes until it looks at the queue again, the look included. -/
def WorkerPc.turnLeft {W : Type} : WorkerPc W → ℕ
  | .asleep | .exited => 0
  | .ready | .woken => 1
  | .running _ => 2
  | .hasTask _ => 3

/-- The step is not the turn of a worker. -/
def Event.isOutside {T W : Type} : Event T W → Bool
  | .worker _ => false
  | .push _ _ _ | .wakeUp _ | .destroy => true

namespace Pool

variable {T W : Type} [DecidableEq T] [Fintype T] {p p' : Pool T W} {chain : List (ℕ × W)} {t : T}
  {pc : WorkerPc W} {e : Event T W}

/-- Nobody stops the pool, and there is memory for the tasks. -/
def keepsUp (_ : Pool T W) (e : Event T W) : Prop :=
  match e with
  | .push _ malloc _ => malloc.isSome = true
  | .worker _ | .wakeUp _ => True
  | .destroy => False

instance (p : Pool T W) (e : Event T W) : Decidable (p.keepsUp e) := by
  cases e
  · exact inferInstanceAs (Decidable (_ = true))
  · exact isTrue trivial
  · exact isTrue trivial
  · exact isFalse id

/-- What is left to do: three steps for each task that was not taken, and the turns of the
workers. -/
def stepsLeft (p : Pool T W) : ℕ :=
  3 * (p.pushed.length - p.taken.length) + total p.worker WorkerPc.turnLeft

/-- The pool is not stopped, and nothing went wrong. -/
structure InService (p : Pool T W) : Prop where
  invariant : ∃ chain, p.Invariant chain
  crash : p.crash = none
  stop : p.stop = false
  exited : ∀ t, p.worker t ≠ .exited

omit [DecidableEq T] in
/-- Every pushed task waits or was taken. -/
lemma Invariant.length_eq (h : p.Invariant chain) :
    chain.length + p.taken.length = p.pushed.length := by
  have hlength := h.conserved.length_eq
  rwa [List.length_append, List.length_map, List.length_map] at hlength

/-! ## The steps -/

omit [Fintype T] in
/-- A worker goes to a place other than its end. -/
lemma exited_goTo (h : ∀ t, p.worker t ≠ .exited) (hpc : pc ≠ .exited) (u : T) :
    (p.goTo t pc).worker u ≠ .exited := by
  show Function.update p.worker t pc u ≠ .exited
  rcases eq_or_ne u t with rfl | hne
  · rwa [Function.update_self]
  · rw [Function.update_of_ne hne]
    exact h u

/-- A worker that moves on has less to do. -/
lemma stepsLeft_goTo {c : ℕ} (hle : pc.turnLeft + 1 ≤ (p.worker t).turnLeft + c) :
    (p.goTo t pc).stepsLeft + 1 ≤ p.stepsLeft + c := by
  have htotal := total_update p.worker WorkerPc.turnLeft t pc
  show 3 * (p.pushed.length - p.taken.length) +
    total (Function.update p.worker t pc) WorkerPc.turnLeft + 1 ≤ p.stepsLeft + c
  unfold stepsLeft
  omega

/-- A wake-up adds a look at the queue. -/
lemma total_deliver (worker : T → WorkerPc W) (target : Option T) :
    total (deliver WorkerPc.wake worker target) WorkerPc.turnLeft ≤
      total worker WorkerPc.turnLeft + 1 := by
  cases target with
  | none => exact Nat.le_succ _
  | some u =>
    have htotal := total_update worker WorkerPc.turnLeft u (worker u).wake
    have hwake : (worker u).wake.turnLeft ≤ (worker u).turnLeft + 1 := by
      cases worker u <;> simp [WorkerPc.wake, WorkerPc.turnLeft]
    show total (Function.update worker u (worker u).wake) _ ≤ _
    omega

/-- A push adds a task, and a look of the worker that its signal wakes. -/
lemma InService.push (h : p.InService) {work : W} {new : ℕ} {target : Option T}
    (hst : p.threadpoolPushTask work (some new) target = some p') :
    p'.InService ∧ p'.stepsLeft + 1 ≤ p.stepsLeft + 5 := by
  obtain ⟨⟨chain, hinv⟩, hcrash, hstop, hexited⟩ := h
  have hinv' := hinv.threadpoolPushTask hst
  obtain ⟨tasks, rfl, -⟩ := exists_of_push hinv hst
  refine ⟨⟨hinv', hcrash, hstop, fun t => ?_⟩, ?_⟩
  · show deliver WorkerPc.wake p.worker target t ≠ .exited
    rcases deliver_eq WorkerPc.wake p.worker target t with heq | heq <;> rw [heq]
    · exact hexited t
    · have hne := hexited t
      revert hne
      cases p.worker t <;> simp [WorkerPc.wake]
  · have htotal := total_deliver p.worker target
    have hlength : (p.pushed ++ [new]).length = p.pushed.length + 1 := List.length_append
    unfold stepsLeft
    dsimp only
    omega

/-- A step of a worker is one less to do. -/
lemma InService.worker (h : p.InService) (hst : p.workerStep t = some p') :
    p'.InService ∧ p'.stepsLeft + 1 ≤ p.stepsLeft := by
  obtain ⟨⟨chain, hinv⟩, hcrash, hstop, hexited⟩ := h
  obtain ⟨chain', hinv'⟩ := hinv.workerStep hst
  have hgoTo : ∀ pc : WorkerPc W, pc ≠ .exited → ∀ u, (p.goTo t pc).worker u ≠ .exited :=
    fun pc hpc => exited_goTo hexited hpc
  cases effect_of_workerStep hst with
  | wait hpc =>
    refine ⟨⟨⟨chain', hinv'⟩, hcrash, hstop, hgoTo _ (by rintro ⟨⟩)⟩, stepsLeft_goTo (c := 0) ?_⟩
    rcases hpc with heq | heq <;> rw [heq] <;> exact Nat.le_refl 1
  | leave _ hleave =>
    rw [hstop] at hleave
    cases hleave
  | @take n task hpc =>
    refine ⟨⟨⟨chain', hinv'⟩, hcrash, hstop, hgoTo (.hasTask n) (by rintro ⟨⟩)⟩, ?_⟩
    have hlook : (p.worker t).turnLeft = 1 := by
      rcases hpc with heq | heq <;> rw [heq] <;> rfl
    have htotal := total_update p.worker WorkerPc.turnLeft t (.hasTask n)
    have hturn : (WorkerPc.hasTask n : WorkerPc W).turnLeft = 3 := rfl
    have htaken : (p.taken ++ [(t, n)]).length = p.taken.length + 1 := List.length_append
    have hwaits : chain'.length + (p.taken ++ [(t, n)]).length = p.pushed.length :=
      hinv'.length_eq
    show 3 * (p.pushed.length - (p.taken ++ [(t, n)]).length) +
      total (Function.update p.worker t (.hasTask n)) WorkerPc.turnLeft + 1 ≤ p.stepsLeft
    unfold stepsLeft
    omega
  | start hpc =>
    refine ⟨⟨⟨chain', hinv'⟩, hcrash, hstop, hgoTo _ (by rintro ⟨⟩)⟩, stepsLeft_goTo (c := 0) ?_⟩
    rw [hpc]
    exact Nat.le_refl _
  | finish hpc =>
    refine ⟨⟨⟨chain', hinv'⟩, hcrash, hstop, hgoTo _ (by rintro ⟨⟩)⟩, stepsLeft_goTo (c := 0) ?_⟩
    rw [hpc]
    exact Nat.le_refl _
  | crash =>
    rcases hinv'.crash with hnone | hmemory
    · cases hnone
    · cases hmemory

/-- Every step keeps the pool in service, and only a step from outside adds something to do. -/
lemma InService.step (h : p.InService) (hok : p.keepsUp e) (hst : Pool.step p e = some p') :
    p'.InService ∧ p'.stepsLeft + 1 ≤ p.stepsLeft + 5 * e.isOutside.toNat := by
  have hinvariant : ∃ chain, p'.Invariant chain := by
    obtain ⟨chain, hinv⟩ := h.invariant
    exact hinv.step hst
  unfold Pool.step at hst
  split_ifs at hst
  cases e with
  | push work malloc target =>
    obtain ⟨new, rfl⟩ := Option.isSome_iff_exists.mp hok
    exact h.push hst
  | worker t => exact h.worker hst
  | wakeUp t =>
    dsimp only at hst
    split_ifs at hst
    cases hst
    refine ⟨⟨hinvariant, h.crash, h.stop, exited_goTo h.exited (by rintro ⟨⟩)⟩, stepsLeft_goTo ?_⟩
    show 1 + 1 ≤ (p.worker t).turnLeft + 5
    omega
  | destroy => exact absurd hok id

/-! ## Main result -/

/-- Where no worker can make a step, all of them sleep, and no task is left. -/
lemma InService.quiet [Nonempty T] (h : p.InService)
    (hquiet : ∀ t, Pool.step p (.worker t) = none) (hfits : p.pushed.length < 2 ^ 32) :
    (∀ t, p.worker t = .asleep) ∧ p.lastTask = none ∧ (p.taken.map Prod.snd).Perm p.pushed := by
  obtain ⟨⟨chain, hinv⟩, hcrash, hstop, hexited⟩ := h
  have hasleep : ∀ t, (p.worker t).isAsleep = true := by
    intro t
    by_contra hawake
    obtain ⟨p', hp'⟩ := PoolLife.exists_workerStep (Bool.eq_false_iff.mpr hawake) (hexited t)
    have hnone := hquiet t
    rw [step_worker hcrash, hp'] at hnone
    cases hnone
  have hnobody : census p.worker WorkerPc.isWoken = 0 := by
    refine census_eq_zero fun t => ?_
    have ht := hasleep t
    revert ht
    cases p.worker t <;> simp [WorkerPc.isAsleep, WorkerPc.isWoken]
  -- somebody sleeps, so there is no task that nobody is going to look at
  have hlength : chain.length = 0 := by
    have hle := hinv.noLostWakeUp hstop (census_pos (hasleep (Classical.arbitrary T)))
    have heq := hinv.length_eq
    rw [hnobody, Nat.mod_eq_of_lt (by omega)] at hle
    omega
  obtain rfl := List.length_eq_zero_iff.mp hlength
  refine ⟨fun t => ?_, hinv.path.eq_of_nil, hinv.conserved⟩
  have ht := hasleep t
  revert ht
  cases p.worker t <;> simp [WorkerPc.isAsleep]

/-- A pool that is not stopped, with workers and with memory for its tasks, makes at most five steps
for each push and each stray wake-up, and one for each worker; and when no worker can make a step
all of them sleep, the queue is empty and each pushed task was taken once. -/
theorem pool_drains [Nonempty T] {idSequence : ℤ} {es : List (Event T W)}
    (h : execWhere step keepsUp (init idSequence) es = some p) :
    es.length ≤ Fintype.card T + 5 * es.countP Event.isOutside ∧
      ((∀ t, step p (.worker t) = none) → p.pushed.length < 2 ^ 32 →
        (∀ t, p.worker t = .asleep) ∧ p.lastTask = none ∧
          (p.taken.map Prod.snd).Perm p.pushed) := by
  have hinit : (init idSequence : Pool T W).InService :=
    ⟨⟨[], .init idSequence⟩, rfl, rfl, fun t => by rintro ⟨⟩⟩
  have hrun : p.InService := (Run.of_execWhere h).invariant hinit
    fun _ _ _ hp hok hst => (hp.step hok hst).1
  refine ⟨?_, hrun.quiet⟩
  have hlength : es.length + p.stepsLeft ≤ (init idSequence : Pool T W).stepsLeft +
      granted step (fun _ e => 5 * e.isOutside.toNat) (init idSequence) es :=
    length_le_of_potential hinit (fun _ _ _ hp hok hst => hp.step hok hst) h
  have hgranted : granted step (fun _ e => 5 * e.isOutside.toNat) (init idSequence : Pool T W) es ≤
      5 * es.countP Event.isOutside := granted_le (fun _ _ => le_rfl) _ es
  have hstart : (init idSequence : Pool T W).stepsLeft = Fintype.card T := by
    have htotal : total (fun _ : T => (.ready : WorkerPc W)) WorkerPc.turnLeft =
        Fintype.card T * 1 := total_const _
    unfold stepsLeft init
    dsimp only
    rw [htotal]
    simp
  omega

/-- Two workers and two tasks: the signal of the second push wakes the worker that sleeps. -/
theorem pool_drains_two : ∃ p : Pool Bool ℕ, p.pushed = [0, 1] ∧ (∀ t, p.worker t = .asleep) ∧
    p.lastTask = none ∧ (p.taken.map Prod.snd).Perm p.pushed := by
  have hrun := (Option.some_get (x := execWhere step keepsUp (init 7 : Pool Bool ℕ)
    [.push 5 (some 0) none, .worker true, .worker true, .worker true, .worker true,
      .push 6 (some 1) (some true), .worker true, .worker true, .worker true, .worker true,
      .worker false]) (by decide +kernel)).symm
  exact ⟨_, by rfl, (pool_drains hrun).2 (by decide +kernel) (by decide +kernel)⟩

end Pool

end OsLabs.Threadpool
