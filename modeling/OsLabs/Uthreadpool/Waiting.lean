import OsLabs.Uthreadpool.RingRuns

/-!
# How long a thread of `uthreadpool2.c` waits

A yield passes over no `READY` thread, so that with every turn a waiting thread comes nearer to the
thread that runs, unless it gets the processor itself.  Its distance bounds the number of turns
(`round_robin_waits`), whichever of them are yields and which are returns.  The only exception is
the thread just in front of the one that runs, when it is the only one that is `READY`.

The bound needs that no task is added meanwhile.  A new thread is put behind the head of the ring,
and when tasks add a task before they yield, a thread that waits behind the head never has its turn
(`additions_starve`).
-/

namespace OsLabs.Uthreadpool.RoundRun

open Transition RingScheduler

/-- The call gives up the processor. -/
def Turn (call : RoundCall) : Prop := call = .uschedYield ∨ call = .funcReturns

/-- The active thread has the flow of control. -/
structure Runs (s : RoundRun) (active : RingThread) (others : List RingThread) : Prop where
  control : s.control = some active.uthread
  running : active.record.status = .running
  around : s.scheduler.Around active others

variable {s t : RoundRun} {call : RoundCall} {others before behind rest : List RingThread}
  {active next waiting : RingThread} {uthread : ℕ}

/-! ## The turn -/

/-- The turn goes to the first `READY` thread, behind which all the others are listed, or `main` has
the flow of control again. -/
lemma Runs.exists_turn (h : s.Runs active others) (hturn : Turn call) :
    (∃ before next behind active' t, others = before ++ next :: behind ∧ next.isReady = true ∧
      behind ≠ [] ∧ (∀ t ∈ before, t.isReady = false) ∧ s.step call = some t ∧
      t.Runs (next.withStatus .running) (behind ++ active' :: before)) ∨
    ((∀ t ∈ others, t.isReady = false) ∨ OnlyLastReady others) ∧
      ∃ t, s.step call = some t ∧ t.control = none := by
  rcases hturn with rfl | rfl
  · have hstep : s.step .uschedYield = some (s.yield active.uthread) := by
      rw [step, h.control, Option.map_some]
    rcases h.around.exists_yieldAndLand (isReady_of_running h.running) with
      ⟨before, next, behind, rfl, hready, hbehind, hfront, hyield⟩ | ⟨hnone, hyield⟩
    · refine Or.inl ⟨before, next, behind,
        active.withStatus (yieldedStatus active.record.status), _, rfl, hready, hbehind, hfront,
        hstep, ?_⟩
      unfold yield
      rw [hyield]
      exact ⟨rfl, rfl, h.around.switched⟩
    · refine Or.inr ⟨hnone, _, hstep, ?_⟩
      unfold yield
      rw [hyield]
      rfl
  · have hstep : s.step .funcReturns = some (s.funcReturns active.uthread) := by
      rw [step, h.control, Option.map_some]
    obtain ⟨u, hu, -, haround⟩ := h.around.setStatus .terminated
    rcases haround.exists_yieldAndLand rfl with
      ⟨before, next, behind, rfl, hready, hbehind, hfront, hyield⟩ | ⟨hnone, hyield⟩
    · refine Or.inl ⟨before, next, behind,
        (active.withStatus .terminated).withStatus .idle, _, rfl, hready, hbehind, hfront, hstep,
        ?_⟩
      unfold RoundRun.funcReturns
      rw [hu, Option.bind_some, hyield]
      exact ⟨rfl, rfl, haround.switched⟩
    · refine Or.inr ⟨hnone, _, hstep, ?_⟩
      unfold RoundRun.funcReturns
      rw [hu, Option.bind_some, hyield]
      rfl

/-- Whoever has the flow of control runs. -/
lemma exists_runs (h : Run step Allowed init s) (hcontrol : s.control = some uthread) :
    ∃ active others, active.uthread = uthread ∧ s.Runs active others := by
  cases inv_of_run h with
  | main ring _ hmain =>
    rw [hmain] at hcontrol
    cases hcontrol
  | thread active others _ hthread hrunning _ haround =>
    exact ⟨active, others, Option.some.inj (hthread.symm.trans hcontrol), hthread, hrunning,
      haround⟩

/-- A turn is always allowed. -/
lemma allowed_of_turn (hturn : Turn call) : s.Allowed call := by
  rcases hturn with rfl | rfl
  · exact trivial
  · exact trivial

/-- With every turn a `READY` thread has its turn or comes nearer. -/
lemma Runs.nearer (h : s.Runs active others) (hturn : Turn call) {i : ℕ}
    (hi : others[i]? = some waiting) (hwaiting : waiting.isReady = true)
    (hlast : ¬ OnlyLastReady others) :
    ∃ t, s.step call = some t ∧ (t.control = some waiting.uthread ∨
      ∃ j < i, ∃ active others, t.Runs active others ∧ others[j]? = some waiting ∧
        ¬ OnlyLastReady others) := by
  rcases h.exists_turn hturn with
    ⟨before, next, behind, active', t, rfl, -, -, hfront, hst, hruns⟩ | ⟨hnone | honly, -⟩
  · refine ⟨t, hst, ?_⟩
    rcases Nat.lt_trichotomy i before.length with hlt | rfl | hgt
    · -- the threads in front of the chosen one are not `READY`
      rw [List.getElem?_append_left hlt] at hi
      rw [hfront waiting (List.mem_of_getElem? hi)] at hwaiting
      cases hwaiting
    · rw [List.getElem?_append_right (Nat.le_refl _), Nat.sub_self] at hi
      obtain rfl := Option.some.inj hi
      exact Or.inl hruns.control
    · obtain ⟨j, rfl⟩ : ∃ j, i = before.length + (j + 1) := ⟨i - before.length - 1, by omega⟩
      rw [List.getElem?_append_right (Nat.le_add_right _ _), Nat.add_sub_cancel_left,
        List.getElem?_cons_succ] at hi
      have hj : j < behind.length := (List.getElem?_eq_some_iff.mp hi).1
      refine Or.inr ⟨j, by omega, _, _, hruns, ?_, ?_⟩
      · rw [List.getElem?_append_left hj, hi]
      · obtain ⟨front, back, rfl⟩ := List.append_of_mem (List.mem_of_getElem? hi)
        apply not_onlyLastReady (List.append_assoc front (waiting :: back) _) hwaiting
        exact List.append_ne_nil_of_right_ne_nil _ (List.cons_ne_nil _ _)
  · rw [hnone waiting (List.mem_of_getElem? hi)] at hwaiting
    cases hwaiting
  · exact absurd honly hlast

/-- In every state that a run reaches while a thread has the flow of control, a yield and a return
lead back to `main` exactly when no other thread is `READY`, or only the one in front of the thread
that runs; and otherwise a `READY` thread, with `i` threads between the one that runs and itself,
has its turn after at most `i + 1` turns, whichever of them are yields and which are returns. -/
theorem round_robin_waits (h : Run step Allowed init s) (hcontrol : s.control = some uthread) :
    ∃ active others, active.uthread = uthread ∧ s.Runs active others ∧
      (∀ call, Turn call → ∃ t, s.step call = some t ∧
        (t.control = none ↔ (∀ t ∈ others, t.isReady = false) ∨ OnlyLastReady others)) ∧
      ∀ i waiting, others[i]? = some waiting → waiting.isReady = true → ¬ OnlyLastReady others →
        ∀ calls : List RoundCall, (∀ call ∈ calls, Turn call) → i < calls.length →
          ∃ k ≤ i + 1, ∃ t, execWhere step Allowed s (calls.take k) = some t ∧
            t.control = some waiting.uthread := by
  obtain ⟨active, others, rfl, hruns⟩ := exists_runs h hcontrol
  refine ⟨active, others, rfl, hruns, fun call hturn => ?_, ?_⟩
  · rcases hruns.exists_turn hturn with
      ⟨before, next, behind, active', t, hsplit, hready, hbehind, -, hst, hnext⟩ |
      ⟨hnone, t, hst, hmain⟩
    · refine ⟨t, hst, iff_of_false ?_ ?_⟩
      · rw [hnext.control]
        exact Option.some_ne_none _
      · rintro (hnone | honly)
        · rw [hnone next (hsplit ▸ by simp)] at hready
          cases hready
        · exact not_onlyLastReady hsplit hready hbehind honly
    · exact ⟨t, hst, iff_of_true hmain hnone⟩
  · intro i waiting hi hwaiting hlast calls hcalls hlen
    have hnearer : ∀ (i : ℕ) (s : RoundRun) (call : RoundCall),
        (∃ active others, s.Runs active others ∧ others[i]? = some waiting ∧
          ¬ OnlyLastReady others) → Turn call →
        s.Allowed call ∧ ∃ t, s.step call = some t ∧ (t.control = some waiting.uthread ∨
          ∃ j < i, ∃ active others, Runs t active others ∧ others[j]? = some waiting ∧
            ¬ OnlyLastReady others) := by
      rintro i s call ⟨active, others, hruns, hi, hlast⟩ hturn
      exact ⟨allowed_of_turn hturn, hruns.nearer hturn hi hwaiting hlast⟩
    exact exists_take_of_rank hnearer ⟨active, others, hruns, hi, hlast⟩ hcalls hlen

/-- The last of three tasks runs, and the others have their turns. -/
theorem round_robin_waits_three : ∃ s : RoundRun, s.control = some 2 ∧
    ∃ active others, active.uthread = 2 ∧ s.Runs active others ∧
      (∀ call, Turn call → ∃ t, s.step call = some t ∧
        (t.control = none ↔ (∀ t ∈ others, t.isReady = false) ∨ OnlyLastReady others)) ∧
      ∀ i waiting, others[i]? = some waiting → waiting.isReady = true → ¬ OnlyLastReady others →
        ∀ calls : List RoundCall, (∀ call ∈ calls, Turn call) → i < calls.length →
          ∃ k ≤ i + 1, ∃ t, execWhere step Allowed s (calls.take k) = some t ∧
            t.control = some waiting.uthread := by
  have hrun := Run.get_execWhere step Allowed init
    [.addToScheduler 7 ⟨some 0, true, some 0, true⟩, .addToScheduler 8 ⟨some 1, true, some 1, true⟩,
      .addToScheduler 9 ⟨some 2, true, some 2, true⟩, .runScheduler] (by decide +kernel)
  have hcontrol : ((execWhere step Allowed init
      [.addToScheduler 7 ⟨some 0, true, some 0, true⟩,
        .addToScheduler 8 ⟨some 1, true, some 1, true⟩,
        .addToScheduler 9 ⟨some 2, true, some 2, true⟩, .runScheduler]).get
          (by decide +kernel)).control = some 2 := by decide +kernel
  exact ⟨_, hcontrol, round_robin_waits hrun hcontrol⟩

/-! ## Additions by the threads -/

/-- The head of the ring runs, and the thread behind it is `READY`. -/
structure HeadRuns (s : RoundRun) (active waiting : RingThread) (rest : List RingThread) : Prop
    extends Runs s active (waiting :: rest) where
  head : s.scheduler.headUthread = some active.node
  ready : waiting.isReady = true
  busy : ∀ t ∈ rest, t.isIdle = false

/-- A call is made, but not by the thread that waits. -/
def ByOther (waiting : RingThread) (s : RoundRun) (call : RoundCall) : Prop :=
  s.Allowed call ∧ s.control ≠ some waiting.uthread

instance (waiting : RingThread) (s : RoundRun) (call : RoundCall) :
    Decidable (ByOther waiting s call) := inferInstanceAs (Decidable (_ ∧ _))

/-- From the head on, the ring is listed as from the active thread on. -/
lemma HeadRuns.isRing (h : s.HeadRuns active waiting rest) :
    s.scheduler.IsRing (active :: waiting :: rest) := by
  obtain ⟨-, front, back, hothers, hring⟩ := h.around
  cases front with
  | nil =>
    rw [List.append_nil] at hothers
    rw [hothers]
    exact hring
  | cons t front =>
    -- otherwise the head would be another thread
    have hhead : some active.node = some t.node := h.head.symm.trans hring.head
    have hnodup := hring.closed.nodup
    rw [List.map_map, List.cons_append, List.map_cons, List.nodup_cons] at hnodup
    refine absurd ?_ hnodup.1
    have hmem : active ∈ front ++ active :: back := by simp
    exact List.mem_map.mpr ⟨active, hmem, Option.some.inj hhead⟩

/-- The thread that waits is not the one that runs. -/
lemma HeadRuns.control_ne (h : s.HeadRuns active waiting rest) :
    s.control ≠ some waiting.uthread := by
  have hnodup := h.isRing.nodup
  rw [List.map_cons, List.map_cons, List.nodup_cons] at hnodup
  rw [h.control]
  intro heq
  exact hnodup.1 (Option.some.inj heq ▸ List.mem_cons_self)

/-- An addition by the head of the ring puts a `READY` thread behind it, which becomes the head. -/
lemma HeadRuns.exists_add (h : s.HeadRuns active waiting rest) (func : ℕ) :
    ∃ answers next t, s.Allowed (.addToScheduler func answers) ∧
      s.step (.addToScheduler func answers) = some t ∧ t.Runs active (next :: waiting :: rest) ∧
      next.isReady = true ∧ t.scheduler.headUthread = some next.node := by
  obtain ⟨uthread, huthread⟩ := s.scheduler.uthreads.exists_free
  obtain ⟨node, hnode⟩ := s.scheduler.nodes.exists_free
  have hunused : s.scheduler.Unused ⟨some uthread, true, some node, true⟩ :=
    ⟨Option.isNone_iff_eq_none.mpr huthread, Option.isNone_iff_eq_none.mpr hnode⟩
  have hwaiting : waiting.record.status = .ready := of_decide_eq_true h.ready
  have hbusy : ∀ t ∈ active :: waiting :: rest, t.isIdle = false := by
    refine List.forall_mem_cons.mpr ⟨?_, List.forall_mem_cons.mpr ⟨?_, h.busy⟩⟩
    · unfold RingThread.isIdle
      rw [h.running]
      rfl
    · unfold RingThread.isIdle
      rw [hwaiting]
      rfl
  obtain ⟨u, hu, hring⟩ := (h.isRing.addSound func hunused).grow hbusy uthread node rfl rfl rfl
  refine ⟨⟨some uthread, true, some node, true⟩, _,
    { s with scheduler := u, accepted := s.accepted ++ [func] }, ⟨hunused, rfl⟩, ?_,
    ⟨h.control, h.running, (addToScheduler_keeps hu).1.trans h.around.1, _, [], rfl, hring⟩, rfl,
    hring.head⟩
  rw [step, add, hu]
  rfl

/-- A yield passes the turn to the next thread when it is `READY` and not the only other one. -/
lemma Runs.exists_next (h : s.Runs active (next :: behind)) (hready : next.isReady = true)
    (hbehind : behind ≠ []) :
    ∃ t, s.step .uschedYield = some t ∧
      t.Runs (next.withStatus .running) (behind ++ [active.withStatus .ready]) ∧
      t.scheduler.headUthread = s.scheduler.headUthread := by
  have hstep : s.step .uschedYield = some (s.yield active.uthread) := by
    rw [step, h.control, Option.map_some]
  have hyielded : yieldedStatus active.record.status = .ready := by
    rw [h.running]
    rfl
  have hswitched : (s.scheduler.switched active next).Around (next.withStatus .running)
      (behind ++ [active.withStatus (yieldedStatus active.record.status)]) :=
    Around.switched h.around
  rw [hyielded] at hswitched
  have hyield : s.scheduler.yieldAndLand =
      some (s.scheduler.switched active next, .context (some next.uthread)) := by
    rcases h.around.exists_yieldAndLand (isReady_of_running h.running) with
      ⟨before, found, rest, hothers, -, -, hfront, hyield⟩ | ⟨hnone | honly, -⟩
    · rcases List.cons_eq_append_iff.mp hothers with ⟨-, hcons⟩ | ⟨before', rfl, -⟩
      · rw [(List.cons.inj hcons).1] at hyield
        exact hyield
      · rw [hfront next List.mem_cons_self] at hready
        cases hready
    · rw [hnone next List.mem_cons_self] at hready
      cases hready
    · exact absurd honly (not_onlyLastReady (List.nil_append _).symm hready hbehind)
  refine ⟨_, hstep, ?_, ?_⟩
  · unfold yield
    rw [hyield]
    exact ⟨rfl, rfl, hswitched⟩
  · unfold yield
    rw [hyield]
    rfl

/-- After an addition and a yield the new thread runs, and the same thread waits behind it. -/
lemma HeadRuns.round (h : s.HeadRuns active waiting rest) (func : ℕ) :
    ∃ answers next t, t.HeadRuns next waiting (rest ++ [active.withStatus .ready]) ∧
      ∀ calls, execWhere step (ByOther waiting) s
          (.addToScheduler func answers :: .uschedYield :: calls) =
        execWhere step (ByOther waiting) t calls := by
  obtain ⟨answers, next, t, hok, hadd, hruns, hready, hhead⟩ := h.exists_add func
  obtain ⟨u, hyield, hnext, hhead'⟩ := hruns.exists_next hready (List.cons_ne_nil waiting rest)
  refine ⟨answers, next.withStatus .running, u, ⟨hnext, hhead'.trans hhead, h.ready, ?_⟩, ?_⟩
  · intro t ht
    rcases List.mem_append.mp ht with ht | ht
    · exact h.busy t ht
    · rw [List.mem_singleton.mp ht]
      rfl
  · intro calls
    have hother : t.control ≠ some waiting.uthread := by
      rw [hruns.control, ← h.control]
      exact h.control_ne
    rw [execWhere, if_pos ⟨hok, h.control_ne⟩, hadd, Option.bind_some, execWhere,
      if_pos ⟨trivial, hother⟩, hyield, Option.bind_some]

/-- When the head of the ring runs and no thread is idle, tasks that add a task before they yield
can go on for ever: for every number of such additions and yields there are answers of the
allocators with which each of them is made by another thread than the one behind the head, which is
`READY` and waits all the time. -/
theorem additions_starve (h : s.HeadRuns active waiting rest) (func n : ℕ) :
    ∃ answers : List UthreadAnswers, answers.length = n ∧ ∃ next rest' t,
      execWhere step (ByOther waiting) s
        (answers.flatMap fun a => [.addToScheduler func a, .uschedYield]) = some t ∧
      t.HeadRuns next waiting rest' ∧ rest'.length = rest.length + n := by
  induction n generalizing s active rest with
  | zero => exact ⟨[], rfl, active, rest, s, rfl, h, rfl⟩
  | succ n ih =>
    obtain ⟨a, next, t, ht, hround⟩ := h.round func
    obtain ⟨answers, hlen, next', rest', u, hrun, hu, hrest⟩ := ih ht
    refine ⟨a :: answers, congrArg (· + 1) hlen, next', rest', u, ?_, hu, ?_⟩
    · rw [List.flatMap_cons, List.cons_append, List.cons_append, List.nil_append, hround, hrun]
    · rw [hrest, List.length_append, List.length_singleton, Nat.add_assoc, Nat.add_comm 1]

/-- The second of two tasks runs, and the first one waits. -/
lemma headRuns_twoStarted : HeadRuns ⟨twoStarted, some 1, false, [0, 1], [], []⟩
    (sampleThread 1 .running) (sampleThread 0 .ready) [] := by
  have hlt : ∀ n, n < 2 → n ∈ [1, 0] := by decide
  have hring : twoStarted.IsRing ([] ++ sampleThread 1 .running :: [sampleThread 0 .ready]) := by
    refine ⟨⟨rfl, rfl, ⟨?_, ?_, by decide⟩, ?_, by decide⟩, ?_, ?_⟩
    · exact path_cons rfl rfl rfl (path_cons rfl rfl rfl (.nil _))
    · exact path_cons rfl rfl rfl (path_cons rfl rfl rfl (.nil _))
    · exact List.forall_mem_cons.mpr ⟨rfl, List.forall_mem_cons.mpr ⟨rfl,
        fun t ht => absurd ht List.not_mem_nil⟩⟩
    · intro n c hc
      exact hlt n (Heap.lt_length_of_cell hc)
    · intro n u hu
      exact hlt n (Heap.lt_length_of_cell hu)
  exact ⟨⟨rfl, rfl, rfl, [], [sampleThread 0 .ready], rfl, hring⟩, rfl, rfl,
    fun t ht => absurd ht List.not_mem_nil⟩

/-- Of two tasks the first one never has its turn while the others add tasks. -/
theorem additions_starve_two : execWhere step Allowed init
      [.addToScheduler 0 ⟨some 0, true, some 0, true⟩,
        .addToScheduler 1 ⟨some 1, true, some 1, true⟩, .runScheduler] =
      some ⟨twoStarted, some 1, false, [0, 1], [], []⟩ ∧
    ∃ answers : List UthreadAnswers, answers.length = 5 ∧ ∃ next rest' t,
      execWhere step (ByOther (sampleThread 0 .ready)) ⟨twoStarted, some 1, false, [0, 1], [], []⟩
        (answers.flatMap fun a => [.addToScheduler 2 a, .uschedYield]) = some t ∧
      t.HeadRuns next (sampleThread 0 .ready) rest' ∧ rest'.length = 0 + 5 :=
  ⟨rfl, additions_starve headRuns_twoStarted 2 5⟩

end OsLabs.Uthreadpool.RoundRun
