import OsLabs.Uthreadpool.RingInvariant

/-!
# Turns in the ring of `uthreadpool2.c`

`RingScheduler.lean` and `RingInvariant.lean` list the ring from its head on.  Here it is listed
from the thread that runs: `Around s active others` says that `next` leads from the active thread
through `others` and back.  A yield passes the turn to the first `READY` thread of `others`, which
is then listed first, and the threads in front of it go behind (`Around.exists_uschedYield`); it
ends the run when no thread of `others` is `READY`, or only the last one.

`tasksIn status` are the tasks of the threads with a status.  The lemmas say how each call moves
tasks from one status to another.
-/

namespace OsLabs.Uthreadpool.RingScheduler

/-- `next` leads from the active thread through the others and back. -/
def Around (s : RingScheduler) (active : RingThread) (others : List RingThread) : Prop :=
  s.activeUthread = some active.node ∧
    ∃ front back, others = back ++ front ∧ s.IsRing (front ++ active :: back)

/-- The thread with another status. -/
def RingThread.withStatus (t : RingThread) (status : UthreadStatus) : RingThread :=
  { t with record := { t.record with status := status } }

/-- The task of the thread if it has this status. -/
def RingThread.taskIn (status : UthreadStatus) (t : RingThread) : List ℕ :=
  if t.record.status = status then t.record.func.toList else []

/-- The tasks of the threads with this status. -/
def tasksIn (status : UthreadStatus) (ring : List RingThread) : List ℕ :=
  ring.flatMap (RingThread.taskIn status)

variable {s u : RingScheduler} {ring front back others before behind : List RingThread}
  {t active next : RingThread} {status : UthreadStatus} {task func : ℕ}

/-! ## The turn -/

/-- The ring from its head on. -/
lemma Around.exists_ring (h : s.Around active others) :
    ∃ ring, s.IsRing ring ∧ ring.Perm (active :: others) := by
  obtain ⟨-, front, back, rfl, hring⟩ := h
  exact ⟨_, hring, List.perm_middle.trans (List.Perm.cons active List.perm_append_comm)⟩

/-- The ring is listed from the active thread on. -/
lemma IsRing.around (h : s.IsRing ring) (ht : t ∈ ring) (hactive : s.activeUthread = some t.node) :
    ∃ others, s.Around t others ∧ ring.Perm (t :: others) := by
  obtain ⟨front, back, rfl⟩ := List.append_of_mem ht
  refine ⟨back ++ front, ⟨hactive, front, back, rfl, h⟩, ?_⟩
  exact List.perm_middle.trans (List.Perm.cons t List.perm_append_comm)

/-- The active thread may get another status. -/
lemma Around.setStatus (h : s.Around active others) (status : UthreadStatus) :
    ∃ u, s.move (.setStatus active.uthread status) = some u ∧ u.isFinished = s.isFinished ∧
      u.Around (active.withStatus status) others := by
  obtain ⟨hactive, front, back, hothers, hring⟩ := h
  have hrecord := (hring.toHolds.of_active).1
  refine ⟨s.setRecord active.uthread { active.record with status := status }, ?_, rfl, hactive,
    front, back, hothers, hring.setRecord _⟩
  rw [RingScheduler.move, Heap.modify_of_cell hrecord]
  rfl

/-- The turn goes to one of the other threads. -/
lemma Around.switched (h : s.Around active (before ++ next :: behind)) :
    (s.switched active next).Around (next.withStatus .running)
      (behind ++ active.withStatus (yieldedStatus active.record.status) :: before) := by
  obtain ⟨-, front, back, hothers, hring⟩ := h
  refine ⟨rfl, ?_⟩
  have hcells : ∀ {ring}, ((s.setRecord active.uthread
      (active.withStatus (yieldedStatus active.record.status)).record).setRecord next.uthread
        (next.withStatus .running).record).IsRing ring → (s.switched active next).IsRing ring :=
    fun hr => hr.of_cells rfl rfl rfl rfl
  have hactive := hring.setRecord (active.withStatus (yieldedStatus active.record.status)).record
  -- the next thread is listed in front of the active one, or behind it
  have hsplit : (∃ c, front = c ++ next :: behind ∧ before = back ++ c) ∨
      ∃ c, back = before ++ next :: c ∧ behind = c ++ front := by
    rcases List.append_eq_append_iff.mp hothers with ⟨c, hback, hc⟩ | ⟨c, hbefore, hfront⟩
    · rcases List.cons_eq_append_iff.mp hc with ⟨rfl, hfront⟩ | ⟨c, rfl, hbehind⟩
      · refine Or.inl ⟨[], hfront, ?_⟩
        rw [hback, List.append_nil, List.append_nil]
      · exact Or.inr ⟨c, hback, hbehind⟩
    · exact Or.inl ⟨c, hfront, hbefore⟩
  rcases hsplit with ⟨c, rfl, rfl⟩ | ⟨c, rfl, rfl⟩
  · refine ⟨c, behind ++ active.withStatus (yieldedStatus active.record.status) :: back, ?_, ?_⟩
    · rw [List.append_assoc, List.cons_append]
    · rw [List.append_assoc, List.cons_append] at hactive
      exact hcells (hactive.setRecord _)
  · refine ⟨front ++ active.withStatus (yieldedStatus active.record.status) :: before, c, ?_, ?_⟩
    · rw [List.append_assoc]
    · rw [← List.cons_append, ← List.append_assoc] at hactive
      exact hcells (hactive.setRecord _)

/-- A yield passes the turn to the first `READY` thread, or ends the run: when no other thread is
`READY`, or only the one in front of the active thread. -/
lemma Around.exists_uschedYield (h : s.Around active others) (hnot : active.isReady = false) :
    (∃ before next behind, others = before ++ next :: behind ∧ next.isReady = true ∧ behind ≠ [] ∧
      (∀ t ∈ before, t.isReady = false) ∧
      s.uschedYield = some (s.switched active next, .context (some next.uthread))) ∨
    ((∀ t ∈ others, t.isReady = false) ∨ OnlyLastReady others) ∧
      s.uschedYield = some ({ s with isFinished := true }, .initialContext) := by
  obtain ⟨hactive, front, back, rfl, hring⟩ := h
  have hholds := hring.toHolds
  have hrecords : ∀ t ∈ active :: (back ++ front),
      s.uthreads.cell t.uthread = some t.record :=
    List.forall_mem_cons.mpr ⟨hholds.of_active.1, fun t ht => (hholds.of_mem ht).2.1⟩
  obtain ⟨before, found, behind, hsplit, hbefore, hfound, hloop⟩ :=
    exists_yieldLoop hholds.path hrecords 0
  rw [← hholds.size_sub_one, Nat.zero_add] at hloop
  have hlength := congrArg List.length hsplit
  rw [List.length_cons, ← hholds.size_sub_one, List.length_append, List.length_cons] at hlength
  rcases List.cons_eq_append_iff.mp hsplit with ⟨rfl, hcons⟩ | ⟨before, rfl, hothers⟩
  · -- the loop has stopped at the active thread, so there is no other one
    obtain ⟨rfl, hothers⟩ := List.cons.inj hcons
    have hnil : behind = [] := hfound.resolve_left fun hready => by
      rw [hnot] at hready
      exact Bool.false_ne_true hready
    refine Or.inr ⟨Or.inl fun t ht => ?_, uschedYield_of_ge hactive ?_ hloop⟩
    · rw [← hothers, hnil] at ht
      exact absurd ht List.not_mem_nil
    · rw [hnil] at hlength
      simp only [List.length_nil] at hlength ⊢
      omega
  · have hfront : ∀ t ∈ before, t.isReady = false := (List.forall_mem_cons.mp hbefore).2
    by_cases hbehind : behind = []
    · refine Or.inr ⟨?_, uschedYield_of_ge hactive ?_ hloop⟩
      · rw [hothers, hbehind]
        cases hready : found.isReady with
        | true => exact Or.inr ⟨before, found, rfl, hready, hfront⟩
        | false =>
          refine Or.inl fun t ht => ?_
          rcases List.mem_append.mp ht with ht | ht
          · exact hfront t ht
          · rw [List.mem_singleton.mp ht, hready]
      · rw [hbehind] at hlength
        simp only [List.length_nil, List.length_cons] at hlength ⊢
        omega
    · have hpos := List.length_pos_iff.mpr hbehind
      have hmem : found ∈ back ++ front := by
        rw [hothers]
        exact List.mem_append_right _ List.mem_cons_self
      refine Or.inl ⟨before, found, behind, hothers, hfound.resolve_right hbehind, hbehind, hfront,
        uschedYield_of_lt hholds hactive hmem ?_ hloop⟩
      simp only [List.length_cons] at hlength ⊢
      omega

/-! ## The search from the head -/

/-- The search stops at the first thread with the status. -/
lemma IsRing.search_first (h : s.IsRing (front ++ t :: back))
    (hfront : ∀ u ∈ front, u.record.status ≠ status) (ht : t.record.status = status) :
    s.searchLoop status s.size s.headUthread 0 = some (some t.node, front.length) := by
  have hring := h.path
  rw [List.map_append] at hring
  obtain ⟨mid, hpath, hrest⟩ := hring.split
  obtain rfl : mid = some t.node := hrest.start_eq
  obtain ⟨node, -, -, hstatus, -⟩ :=
    statusAt_of_path hrest (h.records t (List.mem_append_right _ List.mem_cons_self))
  have hsize : s.size = front.length + (back.length + 1) := by
    rw [h.size, List.length_append, List.length_cons]
  rw [hsize, searchLoop_append hpath (fun u hu => h.records u (List.mem_append_left _ hu)) hfront,
    searchLoop, hstatus, Option.bind_some, Nat.zero_add]
  exact if_pos ht

/-- Without such a thread it makes all its rounds. -/
lemma IsRing.search_all (h : s.IsRing ring) (hnone : ∀ t ∈ ring, t.record.status ≠ status) :
    ∃ node, s.searchLoop status s.size s.headUthread 0 = some (node, s.size) := by
  have hloop := searchLoop_append h.path h.records hnone 0 0
  rw [Nat.add_zero, Nat.zero_add, ← h.size] at hloop
  exact ⟨_, hloop⟩

/-- `run_scheduler` gives the processor to the first `READY` thread from the head on, or returns:
when no thread is `READY`, or the last run has ended and was not reset. -/
lemma IsRing.exists_runScheduler (h : s.IsRing ring) :
    (∃ t ∈ ring, ∃ others u, t.isReady = true ∧ s.isFinished = false ∧ ring.Perm (t :: others) ∧
      s.runScheduler = some (u, .context (some t.uthread)) ∧ u.isFinished = s.isFinished ∧
      u.Around (t.withStatus .running) others) ∨
    (s.isFinished = true ∨ ∀ t ∈ ring, t.isReady = false) ∧
      s.runScheduler = some (s, .return_) := by
  cases hfinished : s.isFinished with
  | true => exact Or.inr ⟨Or.inl rfl, if_pos hfinished⟩
  | false =>
    have hrun : s.runScheduler = _ := if_neg (ne_true_of_eq_false hfinished)
    rcases Option.eq_none_or_eq_some (ring.find? RingThread.isReady) with hnone | ⟨t, ht⟩
    · have hall : ∀ t ∈ ring, t.isReady = false := fun t ht =>
        Bool.eq_false_iff.mpr (List.find?_eq_none.mp hnone t ht)
      obtain ⟨node, hloop⟩ := h.search_all fun t ht => of_decide_eq_false (hall t ht)
      refine Or.inr ⟨Or.inr hall, ?_⟩
      rw [hrun, hloop, Option.bind_some]
      exact if_pos (Nat.le_refl _)
    · obtain ⟨hready, front, back, rfl, hfront⟩ := List.find?_eq_some_iff_append.mp ht
      have hloop := h.search_first
        (fun u hu => of_decide_eq_false ((Bool.not_eq_true' _).mp (hfront u hu)))
        (of_decide_eq_true hready)
      have hlt : ¬ s.size ≤ front.length := by
        rw [h.size, List.length_append, List.length_cons]
        omega
      obtain ⟨hrecord, c, hc, huthread⟩ := h.of_mem (t := t) (by simp)
      have hring := h.setRecord (t.withStatus .running).record
      refine Or.inl ⟨t, by simp, back ++ front,
        { s.setRecord t.uthread (t.withStatus .running).record with
          activeUthread := some t.node }, hready, rfl, ?_, ?_, hfinished, rfl, front, back, rfl,
        hring.of_cells rfl rfl rfl rfl⟩
      · exact List.perm_middle.trans (List.Perm.cons t List.perm_append_comm)
      · rw [hrun, hloop, Option.bind_some]
        simp only [if_neg hlt, Heap.load_some, hc, Option.bind_some, huthread,
          Heap.modify_of_cell hrecord, Option.map_some]
        rfl

/-! ## The tasks -/

/-- The order of the threads does not matter for how often they have a task. -/
lemma count_tasksIn_perm {ring ring' : List RingThread} (hperm : ring.Perm ring')
    (status : UthreadStatus) (task : ℕ) :
    (tasksIn status ring).count task = (tasksIn status ring').count task :=
  (hperm.flatMap_right _).count_eq task

/-- The tasks of one thread and of the others. -/
lemma count_tasksIn_cons (status : UthreadStatus) (t : RingThread) (ring : List RingThread)
    (task : ℕ) : (tasksIn status (t :: ring)).count task =
      (t.taskIn status).count task + (tasksIn status ring).count task := by
  rw [tasksIn, List.flatMap_cons, List.count_append]
  rfl

/-- Adding a task keeps the turn. -/
lemma assignTask_keeps {node : Option ℕ} (h : s.assignTask node func = some u) :
    u.activeUthread = s.activeUthread ∧ u.isFinished = s.isFinished := by
  obtain ⟨n, -, hrest⟩ := Option.bind_eq_some_iff.mp h
  obtain ⟨uthreads, -, rfl⟩ := Option.map_eq_some_iff.mp hrest
  exact ⟨rfl, rfl⟩

/-- A creation keeps the turn. -/
lemma createUthread_keeps {answers : UthreadAnswers} {created : Bool}
    (h : s.createUthread answers = some (u, created)) :
    u.activeUthread = s.activeUthread ∧ u.isFinished = s.isFinished := by
  unfold RingScheduler.createUthread at h
  split at h
  next =>
    cases h
    exact ⟨rfl, rfl⟩
  next =>
    obtain ⟨uthreads, -, hrest⟩ := Option.bind_eq_some_iff.mp h
    split at hrest
    next =>
      obtain ⟨nodes, -, heq⟩ := Option.map_eq_some_iff.mp hrest
      cases heq
      exact ⟨rfl, rfl⟩
    next =>
      obtain ⟨uthreads', -, heq⟩ := Option.map_eq_some_iff.mp hrest
      cases heq
      exact ⟨rfl, rfl⟩

/-- `add_to_scheduler` keeps the turn. -/
lemma addToScheduler_keeps {answers : UthreadAnswers} {added : Bool}
    (h : s.addToScheduler func answers = some (u, added)) :
    u.activeUthread = s.activeUthread ∧ u.isFinished = s.isFinished := by
  obtain ⟨⟨node, cnt⟩, -, hrest⟩ := Option.bind_eq_some_iff.mp h
  dsimp only at hrest
  split_ifs at hrest
  · obtain ⟨⟨v, created⟩, hcreate, hrest⟩ := Option.bind_eq_some_iff.mp hrest
    obtain ⟨hactive, hfinished⟩ := createUthread_keeps hcreate
    dsimp only at hrest
    split_ifs at hrest
    · obtain ⟨w, hassign, heq⟩ := Option.map_eq_some_iff.mp hrest
      cases heq
      obtain ⟨hactive', hfinished'⟩ := assignTask_keeps hassign
      exact ⟨hactive'.trans hactive, hfinished'.trans hfinished⟩
    · cases hrest
      exact ⟨hactive, hfinished⟩
  · obtain ⟨w, hassign, heq⟩ := Option.map_eq_some_iff.mp hrest
    cases heq
    exact assignTask_keeps hassign

/-- The task that an accepted addition gives to a `READY` thread. -/
def newTask (status : UthreadStatus) (added : Bool) (func : ℕ) : List ℕ :=
  if status = .ready ∧ added = true then [func] else []

/-- An idle thread with a new task has it as the only one that is not idle. -/
lemma taskIn_withTask (ht : t.isIdle = true) (hstatus : status ≠ .idle) (func : ℕ) :
    (t.withTask func).taskIn status = newTask status true func ∧ t.taskIn status = [] := by
  have hidle : t.record.status = .idle := of_decide_eq_true ht
  constructor
  · unfold newTask
    cases status <;> rfl
  · rw [RingThread.taskIn, hidle]
    exact if_neg hstatus.symm

/-- `add_to_scheduler` follows no bad pointer and adds one `READY` thread with the task or none;
the threads that are not idle stay as they are. -/
lemma IsRing.exists_addToScheduler (h : s.IsRing ring) (func : ℕ) {answers : UthreadAnswers}
    (hunused : s.Unused answers) (hcontext : answers.context = true) :
    ∃ u added ring', s.addToScheduler func answers = some (u, added) ∧ u.IsRing ring' ∧
      (∀ t ∈ ring, t.isIdle = false → t ∈ ring') ∧
      ∀ status, status ≠ .idle → ∀ task, (tasksIn status ring').count task =
        (tasksIn status ring).count task + (newTask status added func).count task := by
  have hadd := h.addSound func hunused
  rcases exists_first_idle ring with hnone | ⟨front, t, back, rfl, hfront, ht⟩
  · have hperm : (ring.drop 1 ++ ring.take 1).Perm ring := by
      have hcomm : (ring.drop 1 ++ ring.take 1).Perm (ring.take 1 ++ ring.drop 1) :=
        List.perm_append_comm
      rwa [List.take_append_drop] at hcomm
    have hfailed : answers.uthread = none ∨ answers.stack = false ∨ answers.node = none →
        ∃ u added ring', s.addToScheduler func answers = some (u, added) ∧ u.IsRing ring' ∧
          (∀ t ∈ ring, t.isIdle = false → t ∈ ring') ∧
          ∀ status, status ≠ .idle → ∀ task, (tasksIn status ring').count task =
            (tasksIn status ring).count task + (newTask status added func).count task := by
      intro hfail
      obtain ⟨u, hu, hring⟩ := hadd.fail hnone hfail
      refine ⟨u, false, ring, hu, hring, fun t ht _ => ht, fun status _ task => ?_⟩
      simp [newTask]
    obtain ⟨uthread, stack, node, context⟩ := answers
    match uthread, stack, node with
    | some uthread, true, some node =>
      obtain ⟨u, hu, hring⟩ := hadd.grow hnone uthread node rfl rfl rfl
      rw [hcontext] at hu
      refine ⟨u, true, _, hu, hring, fun t ht _ => ?_, fun status hstatus task => ?_⟩
      · exact List.mem_cons_of_mem _ (hperm.mem_iff.mpr ht)
      · rw [count_tasksIn_cons, count_tasksIn_perm hperm, Nat.add_comm]
        congr 2
        cases status <;> rfl
    | none, _, _ => exact hfailed (Or.inl rfl)
    | some _, false, _ => exact hfailed (Or.inr (Or.inl rfl))
    | some _, true, none => exact hfailed (Or.inr (Or.inr rfl))
  · obtain ⟨u, hu, hring⟩ := hadd.reuse front t back rfl hfront ht
    rw [hcontext] at hu
    refine ⟨u, true, _, hu, hring, fun v hv hidle => ?_, fun status hstatus task => ?_⟩
    · rw [List.mem_append, List.mem_cons] at hv ⊢
      apply hv.imp_right
      rintro (rfl | hv)
      · rw [ht] at hidle
        cases hidle
      · exact Or.inr hv
    · obtain ⟨hnew, hold⟩ := taskIn_withTask ht hstatus func
      rw [count_tasksIn_perm List.perm_middle, count_tasksIn_perm List.perm_middle,
        count_tasksIn_cons, count_tasksIn_cons, hnew, hold, List.count_nil]
      omega

end OsLabs.Uthreadpool.RingScheduler
