import OsLabs.Foundation.Transition
import OsLabs.Uthreadpool.Scheduler

/-!
# Slots, tasks and saved contexts of the cooperative scheduler

`main` adds tasks, runs the scheduler and resets it in any order, and the tasks yield and add tasks
of their own.  A slot changes hands in three functions: `add_to_scheduler` gives it a task and a
fresh context, `usched_yield` saves the context of the thread that switches away and marks it
`IDLE` if its function has returned, and `run_scheduler` starts the first `READY` thread.

`Traced` is the scheduler together with the functions that were added and, for each task, what was
left of its function at its last `usched_yield`.  `Slots` ties the status of every slot to its
context: a `READY` slot either holds a task that was never entered and the start of
`__func_wrapper`, or the continuation of its own task's last yield.
-/

namespace OsLabs.Uthreadpool

open Transition

/-- The scheduler with the record of its tasks. -/
structure Traced where
  /-- The scheduler. -/
  scheduler : State
  /-- The functions of the tasks that were added, first task first. -/
  added : List Func
  /-- What was left to do at the last `usched_yield` of each task. -/
  yielded : ℕ → Option Func

/-- What happens next: `main` calls a function of the scheduler, or the flow of control goes on
inside `run_scheduler`. -/
inductive SchedulerCall
  | addToScheduler (func : Func)
  | runScheduler
  | resetScheduler
  | step

namespace Traced

/-- A new scheduler. -/
def start : Traced := ⟨initScheduler, [], fun _ => none⟩

/-- The record of what the running task does next. -/
def record (t : Traced) : Traced :=
  match t.scheduler.control with
  | .func self (.yield rest) =>
    { t with yielded := Function.update t.yielded (t.scheduler.uthread self).task (some rest) }
  | .func _ (.add func _) => { t with added := t.added ++ [func] }
  | _ => t

/-- One call of `main`, or one step of the flow of control. -/
def move (t : Traced) : SchedulerCall → Option Traced
  | .addToScheduler func =>
    if t.scheduler.control = .returned then
      some { t with scheduler := addToScheduler t.scheduler func, added := t.added ++ [func] }
    else none
  | .runScheduler =>
    if t.scheduler.control = .returned then
      some { t with scheduler := runScheduler t.scheduler }
    else none
  | .resetScheduler =>
    if t.scheduler.control = .returned then
      some { t with scheduler := resetScheduler t.scheduler }
    else none
  | .step => (step t.scheduler).map fun s => { t.record with scheduler := s }

/-- The flow of control goes on in slot `i` where its task may go on: at the start of a function
that was never entered, or right after the task's own last `usched_yield`. -/
def Continues (t : Traced) (i : ℕ) : Prop :=
  t.added[(t.scheduler.uthread i).task]? = some (t.scheduler.uthread i).func ∧
    ((t.scheduler.control = .wrapper ∧ t.scheduler.activeUthread = some i ∧
        (t.scheduler.uthread i).task ∉ t.scheduler.entered) ∨
      ∃ rest, t.scheduler.control = .func i rest ∧
        t.yielded (t.scheduler.uthread i).task = some rest)

/-- What a step from `t` to `u` does to the slots of `t`. -/
structure SafeStep (t u : Traced) : Prop where
  /-- A slot keeps its task unless the function of that task has returned. -/
  given : ∀ i ∈ t.scheduler.nodes,
    (u.scheduler.uthread i).task = (t.scheduler.uthread i).task ∧
        (u.scheduler.uthread i).func = (t.scheduler.uthread i).func ∨
      (t.scheduler.uthread i).task ∈ t.scheduler.finished
  /-- A `READY` slot that starts to run goes on where its task may go on. -/
  resumed : ∀ i ∈ t.scheduler.nodes, (t.scheduler.uthread i).status = .ready →
    (u.scheduler.uthread i).status = .running → u.Continues i

/-! ## The invariant -/

/-- What is known of the thread in a slot, given the added functions, the tasks that were entered
and finished and what was left at their last yields. -/
structure SlotSound (added : List Func) (entered finished : List ℕ) (yielded : ℕ → Option Func)
    (u : Uthread) : Prop where
  /-- The slot holds the function that was added as its task. -/
  func : added[u.task]? = some u.func
  /-- An idle slot's task has finished. -/
  idle : u.status = .idle → u.task ∈ finished
  /-- The context of a `READY` slot. -/
  ready : u.status = .ready →
    (u.context = .wrapper ∧ u.task ∉ entered) ∨
      ∃ rest, u.context = .func rest ∧ yielded u.task = some rest

/-- What is known of the slots, wherever the flow of control is. -/
structure Slots (t : Traced) : Prop where
  /-- Every added task has its number. -/
  tasks : t.scheduler.tasks = t.added.length
  /-- The slots in use were created before. -/
  created : ∀ i ∈ t.scheduler.nodes, i < t.scheduler.idGenerator
  /-- Every slot in use. -/
  slot : ∀ i ∈ t.scheduler.nodes, SlotSound t.added t.scheduler.entered t.scheduler.finished
    t.yielded (t.scheduler.uthread i)
  /-- No task is in two slots. -/
  distinct : ∀ i ∈ t.scheduler.nodes, ∀ j ∈ t.scheduler.nodes,
    (t.scheduler.uthread i).task = (t.scheduler.uthread j).task → i = j
  /-- Only added tasks were entered. -/
  entered : ∀ k ∈ t.scheduler.entered, k < t.scheduler.tasks
  /-- No task was entered twice. -/
  once : t.scheduler.entered.Nodup

/-- What is known of the running slot. -/
structure Runs (s : State) (i : ℕ) : Prop where
  /-- The slot is in use. -/
  mem : i ∈ s.nodes
  /-- It is the active one. -/
  active : s.activeUthread = some i
  /-- It is running. -/
  running : (s.uthread i).status = .running

/-- What is known of the flow of control. -/
def ControlSound (s : State) : Prop :=
  match s.control with
  | .returned | .initialContext => True
  | .wrapper => ∃ self, Runs s self ∧ (s.uthread self).task ∉ s.entered
  | .func self _ => Runs s self
  | .exited | .crashed => False

/-- What is left of a step that changes no task: the invariant, and which slots it resumes. -/
structure Switch (t u : Traced) : Prop where
  /-- The slots stay as they should be. -/
  slots : u.Slots
  /-- So does the flow of control. -/
  control : ControlSound u.scheduler
  /-- No slot changes hands. -/
  kept : ∀ i, (u.scheduler.uthread i).task = (t.scheduler.uthread i).task ∧
    (u.scheduler.uthread i).func = (t.scheduler.uthread i).func
  /-- A `READY` slot that starts to run goes on where its task may go on. -/
  resumed : ∀ i, (t.scheduler.uthread i).status = .ready →
    (u.scheduler.uthread i).status = .running → u.Continues i

variable {t u : Traced} {s : State} {i self node : ℕ} {v : Uthread} {func rest : Func}

/-! ## One slot is overwritten -/

/-- A slot found by the search is in use and has the status that was looked for. -/
lemma of_firstWith {status : UthreadStatus} (h : s.firstWith status = some i) :
    i ∈ s.nodes ∧ (s.uthread i).status = status :=
  ⟨List.mem_of_find?_eq_some h, by simpa using List.find?_some h⟩

/-- Overwriting a slot without changing its task and function changes nobody's. -/
lemma kept_of_setUthread (htask : v.task = (s.uthread node).task)
    (hfunc : v.func = (s.uthread node).func) (i : ℕ) :
    ((s.setUthread node v).uthread i).task = (s.uthread i).task ∧
      ((s.setUthread node v).uthread i).func = (s.uthread i).func := by
  by_cases hi : i = node
  · rw [hi, State.setUthread_self]
    exact ⟨htask, hfunc⟩
  · rw [State.setUthread_of_ne _ _ hi]
    exact ⟨rfl, rfl⟩

/-- One slot is overwritten. -/
def setSlot (t : Traced) (i : ℕ) (v : Uthread) : Traced :=
  { t with scheduler := t.scheduler.setUthread i v }

/-- The slot that was overwritten. -/
lemma setSlot_self : (t.setSlot i v).scheduler.uthread i = v :=
  State.setUthread_self _ _ _

/-- The other slots are as before. -/
lemma setSlot_of_ne (h : node ≠ i) :
    (t.setSlot i v).scheduler.uthread node = t.scheduler.uthread node :=
  State.setUthread_of_ne _ _ h

/-- A slot may be overwritten by a thread of the same task that is as it should be. -/
lemma Slots.setSlot (h : t.Slots)
    (htask : v.task = (t.scheduler.uthread i).task)
    (hv : SlotSound t.added t.scheduler.entered t.scheduler.finished t.yielded v) :
    (t.setSlot i v).Slots := by
  have hsame : ∀ j, ((t.setSlot i v).scheduler.uthread j).task = (t.scheduler.uthread j).task := by
    intro j
    by_cases hj : j = i
    · rw [hj, setSlot_self, htask]
    · rw [setSlot_of_ne hj]
  refine ⟨h.tasks, h.created, ?_, ?_, h.entered, h.once⟩
  · intro j hj
    by_cases hji : j = i
    · rw [hji, setSlot_self]
      exact hv
    · rw [setSlot_of_ne hji]
      exact h.slot j hj
  · intro j hj k hk heq
    refine h.distinct j hj k hk ?_
    rwa [← hsame j, ← hsame k]

/-- The other fields of the scheduler do not matter for the slots. -/
lemma Slots.of_eq (h : t.Slots) {c : Control} {a : Option ℕ} {b : Bool} :
    Slots { t with scheduler :=
      { t.scheduler with control := c, activeUthread := a, isFinished := b } } :=
  ⟨h.tasks, h.created, h.slot, h.distinct, h.entered, h.once⟩

/-! ## Switching to a slot -/

/-- Slot `node` becomes the active one and its context is entered. -/
def switchTo (t : Traced) (node : ℕ) : Traced :=
  { t with
    scheduler :=
      { activate t.scheduler node with control := setContext (activate t.scheduler node) node } }

/-- The slot switched to. -/
lemma switchTo_self : (t.switchTo node).scheduler.uthread node =
    { t.scheduler.uthread node with status := .running } := by
  simp [switchTo, activate, State.setUthread]

/-- The other slots are as before. -/
lemma switchTo_of_ne (hi : i ≠ node) :
    (t.switchTo node).scheduler.uthread i = t.scheduler.uthread i := by
  simp [switchTo, activate, State.setUthread, Function.update_of_ne hi]

/-- The flow of control goes where the slot's context says. -/
lemma switchTo_control :
    (t.switchTo node).scheduler.control = setContext t.scheduler node := by
  simp [switchTo, setContext, activate, State.setUthread]

/-- A switch to a `READY` slot. -/
lemma Slots.switchTo (h : t.Slots) (hmem : node ∈ t.scheduler.nodes)
    (hready : (t.scheduler.uthread node).status = .ready) : Switch t (t.switchTo node) := by
  have hsound := h.slot node hmem
  have hruns : Runs (t.switchTo node).scheduler node :=
    ⟨hmem, rfl, by rw [switchTo_self]⟩
  have hslots : (t.switchTo node).Slots :=
    (h.setSlot (v := { t.scheduler.uthread node with status := .running }) rfl
      ⟨hsound.func, nofun, nofun⟩).of_eq
  have hkept : ∀ i, ((t.switchTo node).scheduler.uthread i).task = (t.scheduler.uthread i).task ∧
      ((t.switchTo node).scheduler.uthread i).func = (t.scheduler.uthread i).func :=
    kept_of_setUthread rfl rfl
  have hcontinues : (t.switchTo node).Continues node := by
    refine ⟨?_, ?_⟩
    · rw [(hkept node).1, (hkept node).2]
      exact hsound.func
    · rw [(hkept node).1, switchTo_control, setContext]
      rcases hsound.ready hready with ⟨hctx, hnot⟩ | ⟨rest, hctx, hyielded⟩
      · exact Or.inl ⟨by rw [hctx], rfl, hnot⟩
      · exact Or.inr ⟨rest, by rw [hctx], hyielded⟩
  refine ⟨hslots, ?_, hkept, ?_⟩
  · rw [ControlSound]
    rcases hcontinues.2 with ⟨hc, -, hnot⟩ | ⟨rest, hc, -⟩
    · rw [hc]
      exact ⟨node, hruns, hnot⟩
    · rw [hc]
      exact hruns
  · intro i hi hrun
    by_cases hne : i = node
    · exact hne ▸ hcontinues
    · rw [switchTo_of_ne hne, hi] at hrun
      cases hrun

/-! ## One step of each kind -/

/-- The record of a thread that gives up the processor. -/
def givesUp (v : Uthread) (saved : Context) : Uthread :=
  { v with status := if v.status = .terminated then .idle else .ready, context := saved }

/-- The flow of control leaves the tasks. -/
lemma Slots.leave (h : t.Slots) {b : Bool} {c : Control}
    (hc : c = .returned ∨ c = .initialContext) :
    Switch t { t with scheduler := { t.scheduler with isFinished := b, control := c } } := by
  refine ⟨h.of_eq, ?_, fun i => ⟨rfl, rfl⟩, fun i hi hrun => ?_⟩
  · rcases hc with rfl | rfl
    · trivial
    · trivial
  · exact absurd (hi.symm.trans hrun) (by decide)

/-- A yield with a `READY` slot saves the context of the running one and switches. -/
lemma uschedYield_eq_switchTo {saved : Context} (hready : t.scheduler.firstWith .ready = some node)
    (hactive : t.scheduler.activeUthread = some self) :
    { t with scheduler := uschedYield t.scheduler saved } =
      (t.setSlot self (givesUp (t.scheduler.uthread self) saved)).switchTo node := by
  simp [uschedYield, hready, hactive, switchTo, setSlot, givesUp]

/-- `usched_yield` of a slot that is running or whose function has returned. -/
lemma Slots.uschedYield {saved : Context} (h : t.Slots)
    (hactive : t.scheduler.activeUthread = some self)
    (hstatus : (t.scheduler.uthread self).status ≠ .ready)
    (hsaved : SlotSound t.added t.scheduler.entered t.scheduler.finished t.yielded
      (givesUp (t.scheduler.uthread self) saved)) :
    Switch t { t with scheduler := uschedYield t.scheduler saved } := by
  rcases Option.eq_none_or_eq_some (t.scheduler.firstWith .ready) with hnone | ⟨node, hready⟩
  · have hyield : Uthreadpool.uschedYield t.scheduler saved =
        { t.scheduler with isFinished := true, control := .initialContext } := by
      simp [Uthreadpool.uschedYield, hnone]
    rw [hyield]
    exact h.leave (Or.inr rfl)
  · obtain ⟨hmem, hnode⟩ := of_firstWith hready
    have hne : node ≠ self := by
      rintro rfl
      exact hstatus hnode
    have hslots : (t.setSlot self (givesUp (t.scheduler.uthread self) saved)).Slots :=
      h.setSlot (v := givesUp (t.scheduler.uthread self) saved) rfl hsaved
    have hswitch := hslots.switchTo hmem ((congrArg Uthread.status (setSlot_of_ne hne)).trans hnode)
    rw [uschedYield_eq_switchTo hready hactive]
    refine ⟨hswitch.slots, hswitch.control, ?_, ?_⟩
    · intro i
      obtain ⟨htask, hfunc⟩ := hswitch.kept i
      rw [htask, hfunc]
      exact kept_of_setUthread (v := givesUp (t.scheduler.uthread self) saved) rfl rfl i
    · intro i hi
      have his : i ≠ self := by
        rintro rfl
        exact hstatus hi
      apply hswitch.resumed i
      rw [setSlot_of_ne his]
      exact hi

/-- The wrapper enters the function of a task that was never entered. -/
lemma Slots.enter (h : t.Slots) (hruns : Runs t.scheduler self)
    (hnot : (t.scheduler.uthread self).task ∉ t.scheduler.entered) :
    Switch t { t with scheduler :=
      { t.scheduler with
        control := .func self (t.scheduler.uthread self).func
        entered := (t.scheduler.uthread self).task :: t.scheduler.entered } } := by
  refine ⟨⟨h.tasks, h.created, ?_, h.distinct, ?_, ?_⟩, ⟨hruns.mem, hruns.active, hruns.running⟩,
    fun i => ⟨rfl, rfl⟩, fun i hi hrun => absurd (hi.symm.trans hrun) (by decide)⟩
  · intro i hi
    have hsound := h.slot i hi
    refine ⟨hsound.func, hsound.idle, fun hready => ?_⟩
    rcases hsound.ready hready with ⟨hctx, hnot'⟩ | hyielded
    · refine Or.inl ⟨hctx, ?_⟩
      rw [List.mem_cons, not_or]
      refine ⟨fun heq => ?_, hnot'⟩
      have hself : i = self := h.distinct i hi self hruns.mem heq
      rw [hself, hruns.running] at hready
      cases hready
    · exact Or.inr hyielded
  · intro k hk
    rcases List.mem_cons.mp hk with rfl | hk
    · have hfunc := (h.slot self hruns.mem).func
      rw [h.tasks]
      exact (List.getElem?_eq_some_iff.mp hfunc).1
    · exact h.entered k hk
  · exact List.nodup_cons.mpr ⟨hnot, h.once⟩

/-- A switch may start at an earlier state with the same tasks and the same `READY` slots. -/
lemma Switch.of_eq {t' : Traced} (h : Switch t' u)
    (hkept : ∀ i, (t'.scheduler.uthread i).task = (t.scheduler.uthread i).task ∧
      (t'.scheduler.uthread i).func = (t.scheduler.uthread i).func)
    (hready : ∀ i, (t.scheduler.uthread i).status = .ready →
      (t'.scheduler.uthread i).status = .ready) : Switch t u := by
  refine ⟨h.slots, h.control, fun i => ?_, fun i hi => h.resumed i (hready i hi)⟩
  rw [← (hkept i).1, ← (hkept i).2]
  exact h.kept i

/-- The record of what is left of the task in slot `self` when it yields. -/
def noteYield (t : Traced) (self : ℕ) (rest : Func) : Traced :=
  { t with
    yielded := Function.update t.yielded (t.scheduler.uthread self).task (some rest) }

/-- A running task calls `usched_yield`. -/
lemma Slots.yields (h : t.Slots) (hruns : Runs t.scheduler self) (rest : Func) :
    Switch t { t.noteYield self rest with
      scheduler := Uthreadpool.uschedYield t.scheduler (.func rest) } := by
  have hnot : (t.scheduler.uthread self).status ≠ .ready := by
    rw [hruns.running]
    decide
  have hslots : (t.noteYield self rest).Slots := by
    refine ⟨h.tasks, h.created, fun i hi => ?_, h.distinct, h.entered, h.once⟩
    have hsound := h.slot i hi
    refine ⟨hsound.func, hsound.idle, fun hready => ?_⟩
    rcases hsound.ready hready with hctx | ⟨left, hctx, hyielded⟩
    · exact Or.inl hctx
    · -- another slot holds another task
      have hne : (t.scheduler.uthread i).task ≠ (t.scheduler.uthread self).task := by
        intro heq
        have hself : i = self := h.distinct i hi self hruns.mem heq
        exact hnot (hself ▸ hready)
      exact Or.inr ⟨left, hctx, (Function.update_of_ne hne _ _).trans hyielded⟩
  have hsound := h.slot self hruns.mem
  have hstatus : (givesUp (t.scheduler.uthread self) (.func rest)).status = .ready := by
    simp [givesUp, hruns.running]
  have hsaved : SlotSound (t.noteYield self rest).added t.scheduler.entered t.scheduler.finished
      (t.noteYield self rest).yielded (givesUp (t.scheduler.uthread self) (.func rest)) := by
    refine ⟨hsound.func, fun hidle => ?_, fun _ => Or.inr ⟨rest, rfl, ?_⟩⟩
    · exact absurd (hidle.symm.trans hstatus) (by decide)
    · exact Function.update_self _ _ _
  have hswitch := hslots.uschedYield hruns.active hnot hsaved
  exact hswitch.of_eq (fun i => ⟨rfl, rfl⟩) (fun i hi => hi)

/-- The function of the task in slot `self` has returned. -/
def noteReturn (t : Traced) (self : ℕ) : Traced :=
  { t with
    scheduler :=
      { t.scheduler.setUthread self { t.scheduler.uthread self with status := .terminated } with
        finished := (t.scheduler.uthread self).task :: t.scheduler.finished } }

/-- The slot of the function that has returned. -/
lemma noteReturn_self : (t.noteReturn self).scheduler.uthread self =
    { t.scheduler.uthread self with status := .terminated } :=
  State.setUthread_self _ _ _

/-- The other slots are as before. -/
lemma noteReturn_of_ne (hi : i ≠ self) :
    (t.noteReturn self).scheduler.uthread i = t.scheduler.uthread i :=
  State.setUthread_of_ne _ _ hi

/-- The function of a running task returns, and the wrapper calls `usched_yield`. -/
lemma Slots.returns (h : t.Slots) (hruns : Runs t.scheduler self) :
    Switch t { t with
      scheduler := Uthreadpool.uschedYield (t.noteReturn self).scheduler .wrapperEnd } := by
  have hsound := h.slot self hruns.mem
  have hset := h.setSlot (v := { t.scheduler.uthread self with status := .terminated }) rfl
    ⟨hsound.func, nofun, nofun⟩
  have hslots : (t.noteReturn self).Slots := by
    refine ⟨hset.tasks, hset.created, fun i hi => ?_, hset.distinct, hset.entered, hset.once⟩
    have hslot := hset.slot i hi
    exact ⟨hslot.func, fun hidle => List.mem_cons_of_mem _ (hslot.idle hidle), hslot.ready⟩
  have hsaved : SlotSound t.added t.scheduler.entered (t.noteReturn self).scheduler.finished
      t.yielded (givesUp ((t.noteReturn self).scheduler.uthread self) .wrapperEnd) := by
    rw [noteReturn_self]
    exact ⟨hsound.func, fun _ => List.mem_cons_self, nofun⟩
  have hnot : ((t.noteReturn self).scheduler.uthread self).status ≠ .ready := by
    rw [noteReturn_self]
    nofun
  have hswitch := hslots.uschedYield hruns.active hnot hsaved
  refine hswitch.of_eq (kept_of_setUthread rfl rfl) (fun i hi => ?_)
  have hne : i ≠ self := by
    rintro rfl
    exact absurd (hruns.running.symm.trans hi) (by decide)
  rw [noteReturn_of_ne hne]
  exact hi

/-! ## Adding a task -/

/-- What `add_to_scheduler` does: slot `i`, which is new or was idle, holds the new task. -/
structure Assigned (s u : State) (func : Func) (i : ℕ) : Prop where
  /-- The slot with the new task. -/
  slot : u.uthread i = ⟨.ready, func, .wrapper, s.tasks⟩
  /-- The other slots are as before. -/
  others : ∀ j, j ≠ i → u.uthread j = s.uthread j
  /-- A slot that was in use was idle. -/
  idle : i ∈ s.nodes → (s.uthread i).status = .idle
  /-- The slots in use afterwards. -/
  nodes : ∀ j, j ∈ u.nodes ↔ j = i ∨ j ∈ s.nodes
  /-- The slots in use were created before. -/
  created : ∀ j ∈ u.nodes, j < u.idGenerator
  /-- The task has the next number. -/
  tasks : u.tasks = s.tasks + 1
  /-- Nothing was entered. -/
  entered : u.entered = s.entered
  /-- Nothing has returned. -/
  finished : u.finished = s.finished
  /-- The active slot. -/
  active : u.activeUthread = s.activeUthread

/-- Some slot gets the task. -/
lemma exists_assigned (hcreated : ∀ j ∈ s.nodes, j < s.idGenerator) (func : Func) :
    ∃ i, Assigned s (addToScheduler s func) func i := by
  rcases Option.eq_none_or_eq_some (s.firstWith .idle) with hnone | ⟨i, hidle⟩
  · have hadd : addToScheduler s func = assignTask (createUthread s) s.idGenerator func := by
      simp [addToScheduler, hnone]
    rw [hadd]
    refine ⟨s.idGenerator, State.setUthread_self _ _ _, fun j hj => ?_, fun hmem => ?_,
      fun j => List.mem_cons, fun j hj => ?_, rfl, rfl, rfl, rfl⟩
    · exact (State.setUthread_of_ne _ _ hj).trans (Function.update_of_ne hj _ _)
    · exact absurd (hcreated _ hmem) (Nat.lt_irrefl _)
    · change j < s.idGenerator + 1
      rcases List.mem_cons.mp hj with rfl | hj
      · exact Nat.lt_succ_self _
      · exact Nat.lt_succ_of_lt (hcreated j hj)
  · obtain ⟨hmem, hstatus⟩ := of_firstWith hidle
    have hadd : addToScheduler s func = assignTask s i func := by
      simp [addToScheduler, hidle]
    rw [hadd]
    refine ⟨i, State.setUthread_self _ _ _, fun j hj => State.setUthread_of_ne _ _ hj,
      fun _ => hstatus, fun j => ⟨Or.inr, ?_⟩, hcreated, rfl, rfl, rfl, rfl⟩
    rintro (rfl | hj)
    · exact hmem
    · exact hj

/-- The flow of control does not matter for the slots. -/
lemma Assigned.of_control {s' : State} (h : Assigned s s' func i) (c : Control) :
    Assigned s { s' with control := c } func i :=
  ⟨h.slot, h.others, h.idle, h.nodes, h.created, h.tasks, h.entered, h.finished, h.active⟩

/-- `add_to_scheduler` goes on with its caller. -/
lemma addToScheduler_control : (addToScheduler s func).control = s.control := by
  rw [addToScheduler]
  split
  · rfl
  · rfl

/-- The slots after a task was added. -/
lemma Slots.assigned (h : t.Slots) (ha : Assigned t.scheduler s func i) :
    Slots ⟨s, t.added ++ [func], t.yielded⟩ := by
  have htask : ∀ j ∈ t.scheduler.nodes, (t.scheduler.uthread j).task < t.scheduler.tasks := by
    intro j hj
    rw [h.tasks]
    exact (List.getElem?_eq_some_iff.mp (h.slot j hj).func).1
  have hcases : ∀ j ∈ s.nodes, j = i ∨ j ≠ i ∧ j ∈ t.scheduler.nodes := by
    intro j hj
    by_cases hji : j = i
    · exact Or.inl hji
    · exact Or.inr ⟨hji, ((ha.nodes j).mp hj).resolve_left hji⟩
  refine ⟨?_, ha.created, ?_, ?_, ?_, ?_⟩
  · change s.tasks = (t.added ++ [func]).length
    rw [ha.tasks, h.tasks, List.length_append, List.length_singleton]
  · intro j hj
    change SlotSound (t.added ++ [func]) s.entered s.finished t.yielded (s.uthread j)
    rw [ha.entered, ha.finished]
    rcases hcases j hj with rfl | ⟨hji, hj⟩
    · rw [ha.slot]
      refine ⟨?_, nofun, fun _ => Or.inl ⟨rfl, fun hmem => ?_⟩⟩
      · change (t.added ++ [func])[t.scheduler.tasks]? = some func
        rw [h.tasks, List.getElem?_concat_length]
      · exact absurd (h.entered _ hmem) (Nat.lt_irrefl _)
    · rw [ha.others j hji]
      have hsound := h.slot j hj
      refine ⟨?_, hsound.idle, hsound.ready⟩
      rw [List.getElem?_append_left (h.tasks ▸ htask j hj)]
      exact hsound.func
  · intro j hj k hk heq
    change (s.uthread j).task = (s.uthread k).task at heq
    rcases hcases j hj with rfl | ⟨hji, hj⟩ <;> rcases hcases k hk with rfl | ⟨hki, hk⟩
    · rfl
    · rw [ha.slot, ha.others k hki] at heq
      exact absurd (htask k hk) (Nat.not_lt.mpr (Nat.le_of_eq heq))
    · rw [ha.slot, ha.others j hji] at heq
      exact absurd (htask j hj) (Nat.not_lt.mpr (Nat.le_of_eq heq.symm))
    · rw [ha.others j hji, ha.others k hki] at heq
      exact h.distinct j hj k hk heq
  · intro k hk
    change k < s.tasks
    rw [ha.tasks]
    exact Nat.lt_succ_of_lt (h.entered k (ha.entered ▸ hk))
  · change s.entered.Nodup
    rw [ha.entered]
    exact h.once

/-- The running slot is not the one that gets the task. -/
lemma Runs.assigned (hruns : Runs s self) {s' : State} (ha : Assigned s s' func i) :
    Runs s' self := by
  have hne : self ≠ i := by
    rintro rfl
    exact absurd (hruns.running.symm.trans (ha.idle hruns.mem)) (by decide)
  refine ⟨(ha.nodes self).mpr (Or.inr hruns.mem), ha.active.trans hruns.active, ?_⟩
  rw [ha.others self hne]
  exact hruns.running

/-- Adding a task takes a slot only from a task that has finished, and resumes nothing. -/
lemma Slots.safeStep_assigned (h : t.Slots) (ha : Assigned t.scheduler u.scheduler func i) :
    SafeStep t u := by
  refine ⟨fun j hj => ?_, fun j _ hready hrun => ?_⟩
  · by_cases hji : j = i
    · subst hji
      exact Or.inr ((h.slot j hj).idle (ha.idle hj))
    · rw [ha.others j hji]
      exact Or.inl ⟨rfl, rfl⟩
  · by_cases hji : j = i
    · rw [hji, ha.slot] at hrun
      cases hrun
    · rw [ha.others j hji, hready] at hrun
      cases hrun

/-! ## Runs -/

/-- The invariant. -/
structure Sound (t : Traced) : Prop where
  /-- The slots. -/
  slots : t.Slots
  /-- The flow of control. -/
  control : ControlSound t.scheduler

/-- A step that changes no task. -/
lemma Switch.sound (h : Switch t u) : u.Sound ∧ SafeStep t u :=
  ⟨⟨h.slots, h.control⟩, fun i _ => Or.inl (h.kept i), fun i _ => h.resumed i⟩

/-- The invariant of a new scheduler. -/
lemma sound_start : start.Sound := by
  refine ⟨⟨rfl, ?_, ?_, ?_, ?_, List.nodup_nil⟩, trivial⟩
  all_goals exact fun _ hmem => absurd hmem List.not_mem_nil

/-- `run_scheduler` goes on after its `getcontext`. -/
lemma Sound.step_initialContext (h : t.Sound) (hc : t.scheduler.control = .initialContext)
    (hs : step t.scheduler = some s) : Switch t { t with scheduler := s } := by
  simp only [step, hc] at hs
  split_ifs at hs with hfin
  · obtain rfl := Option.some.inj hs
    exact h.slots.leave (Or.inl rfl)
  · rcases Option.eq_none_or_eq_some (t.scheduler.firstWith .ready) with hnone | ⟨node, hready⟩
    · rw [hnone] at hs
      obtain rfl := Option.some.inj hs
      exact h.slots.leave (Or.inl rfl)
    · rw [hready] at hs
      obtain rfl := Option.some.inj hs
      obtain ⟨hmem, hstatus⟩ := of_firstWith hready
      exact h.slots.switchTo hmem hstatus

/-- The start of `__func_wrapper` when slot `self` is the active one. -/
lemma step_wrapper (hc : s.control = .wrapper) (hactive : s.activeUthread = some self) :
    Uthreadpool.step s = some { s with
      control := .func self (s.uthread self).func
      entered := (s.uthread self).task :: s.entered } := by
  simp [Uthreadpool.step, hc, hactive]

/-- One step of the flow of control. -/
lemma Sound.step (h : t.Sound) (hs : step t.scheduler = some s) :
    Sound { t.record with scheduler := s } ∧ SafeStep t { t.record with scheduler := s } := by
  have hcontrol := h.control
  unfold ControlSound at hcontrol
  match hc : t.scheduler.control with
  | .returned | .exited | .crashed =>
    simp [Uthreadpool.step, hc] at hs
  | .initialContext =>
    have hrecord : t.record = t := by simp [record, hc]
    rw [hrecord]
    exact (h.step_initialContext hc hs).sound
  | .wrapper =>
    rw [hc] at hcontrol
    obtain ⟨self, hruns, hnot⟩ := hcontrol
    have hrecord : t.record = t := by simp [record, hc]
    rw [step_wrapper hc hruns.active] at hs
    obtain rfl := Option.some.inj hs
    rw [hrecord]
    exact (h.slots.enter hruns hnot).sound
  | .func self .ret =>
    rw [hc] at hcontrol
    have hrecord : t.record = t := by simp [record, hc]
    simp only [Uthreadpool.step, hc] at hs
    obtain rfl := Option.some.inj hs
    rw [hrecord]
    exact (h.slots.returns hcontrol).sound
  | .func self (.yield rest) =>
    rw [hc] at hcontrol
    have hrecord : t.record = t.noteYield self rest := by simp [record, hc, noteYield]
    simp only [Uthreadpool.step, hc] at hs
    obtain rfl := Option.some.inj hs
    rw [hrecord]
    exact (h.slots.yields hcontrol rest).sound
  | .func self (.add func rest) =>
    rw [hc] at hcontrol
    have hrecord : t.record = { t with added := t.added ++ [func] } := by simp [record, hc]
    simp only [Uthreadpool.step, hc] at hs
    obtain rfl := Option.some.inj hs
    obtain ⟨i, ha⟩ := exists_assigned h.slots.created func
    have ha' := ha.of_control (.func self rest)
    rw [hrecord]
    exact ⟨⟨h.slots.assigned ha', Runs.assigned hcontrol ha'⟩, h.slots.safeStep_assigned ha'⟩

/-- One call of `main`, or one step of the flow of control. -/
lemma Sound.move {call : SchedulerCall} (h : t.Sound) (hm : t.move call = some u) :
    u.Sound ∧ SafeStep t u := by
  cases call with
  | addToScheduler func =>
    rw [Traced.move] at hm
    split_ifs at hm with hc
    obtain rfl := Option.some.inj hm
    obtain ⟨i, ha⟩ := exists_assigned h.slots.created func
    refine ⟨⟨h.slots.assigned ha, ?_⟩, h.slots.safeStep_assigned ha⟩
    rw [ControlSound, addToScheduler_control, hc]
    trivial
  | runScheduler =>
    rw [Traced.move] at hm
    split_ifs at hm with hc
    obtain rfl := Option.some.inj hm
    exact (h.slots.leave (Or.inr rfl)).sound
  | resetScheduler =>
    rw [Traced.move] at hm
    split_ifs at hm with hc
    obtain rfl := Option.some.inj hm
    exact (h.slots.leave (Or.inl hc)).sound
  | step =>
    rw [Traced.move] at hm
    obtain ⟨s, hs, rfl⟩ := Option.map_eq_some_iff.mp hm
    exact h.step hs

/-- The invariant holds in every reachable state. -/
lemma sound_of_reachable (h : Reachable Traced.move start t) : t.Sound :=
  h.invariant sound_start fun _ _ _ hsound _ hm => (hsound.move hm).1

/-- Whatever `main` and the tasks do, no function is entered twice, a slot is given to a new task
only after the function of its task has returned, and a `READY` slot that starts to run goes on at
the start of a function that was never entered or right after its own task's last `usched_yield`. -/
theorem slotReuse_safe (h : Reachable Traced.move start t) :
    t.scheduler.entered.Nodup ∧
      ∀ (call : SchedulerCall) (u : Traced), t.move call = some u → SafeStep t u :=
  ⟨(sound_of_reachable h).slots.once, fun _ _ hm => ((sound_of_reachable h).move hm).2⟩

/-- A task that adds another one and yields once, and a task that returns at once: the slot of the
second one is given to the added task, and the first one is about to go on after its yield. -/
def reuseRun : List SchedulerCall :=
  [.addToScheduler (.add .ret (.yield .ret)), .addToScheduler .ret, .runScheduler] ++
    List.replicate 7 .step

/-- The run gives slot 1 to a second task after the first one has returned. -/
theorem slotReuse_safe_reuseRun :
    ∃ t, execWhere Traced.move anyStep start reuseRun = some t ∧
      (t.scheduler.uthread 1).task = 2 ∧ t.scheduler.entered = [2, 0, 1] ∧
      t.scheduler.entered.Nodup ∧
      ∀ (call : SchedulerCall) (u : Traced), t.move call = some u → SafeStep t u := by
  have hsome : (execWhere Traced.move anyStep start reuseRun).isSome = true := by decide
  have hreach := Run.get_execWhere Traced.move anyStep start reuseRun hsome
  exact ⟨_, (Option.some_get hsome).symm, rfl, rfl, slotReuse_safe hreach⟩

end Traced

end OsLabs.Uthreadpool
