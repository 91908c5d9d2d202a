import OsLabs.Uthreadpool.Scheduler
import OsLabs.Uthreadpool.Alternation
import Mathlib.Data.List.GetD
import Mathlib.Data.List.Nodup
import Mathlib.Data.List.Induction

/-!
# When `run_scheduler` finishes every task

`Alternating s r others left` describes the scheduler while slot `r` runs: the unfinished slots are
`r` and `others`, nearest to the head first except that `r` may stand right behind the first of
them, and slot `i` of `others` waits with `left i` yields.  A yield and a return keep this form and
perform one step of `alternate`, so the run ends with everything finished exactly when `alternate`
says so.  For tasks added to a new scheduler the closed form of the answer is `leftover` of their
numbers of yields, last added first.
-/

namespace OsLabs.Uthreadpool

variable {s t : State} {r w x : ℕ} {others rest : List ℕ} {left : ℕ → ℕ}

/-- Slot `i` has started or is `READY`, and its function has not returned. -/
def unfinished (s : State) (i : ℕ) : Bool :=
  (s.uthread i).status = .ready ∨ (s.uthread i).status = .running

/-- Slot `i` is `READY` and its function still yields `k` times. -/
def Waits (s : State) (i k : ℕ) : Prop :=
  (s.uthread i).status = .ready ∧
    ((s.uthread i).context = .func (Func.yields k) ∨
      (s.uthread i).context = .wrapper ∧ (s.uthread i).func = Func.yields k)

/-- The flow of control is in the function of slot `r`, or about to enter it, with `x` yields
left. -/
def Enters (s : State) (r x : ℕ) : Prop :=
  s.control = .func r (Func.yields x) ∨
    s.control = .wrapper ∧ (s.uthread r).func = Func.yields x

/-- The shape of the scheduler while slot `r` runs and the slots `others` wait. -/
structure Alternating (s : State) (r : ℕ) (others : List ℕ) (left : ℕ → ℕ) : Prop where
  /-- No yield has ended the run. -/
  notFinished : s.isFinished = false
  /-- Slot `r` is the active one. -/
  active : s.activeUthread = some r
  /-- Slot `r` is running. -/
  running : (s.uthread r).status = .running
  /-- No slot is listed twice. -/
  nodup : s.nodes.Nodup
  /-- The other unfinished slots wait. -/
  waits : ∀ i ∈ others, Waits s i (left i)
  /-- The unfinished slots in the order of the node list. -/
  live : s.nodes.filter (unfinished s) = r :: others ∨
    ∃ w rest, others = w :: rest ∧ s.nodes.filter (unfinished s) = w :: r :: rest
  /-- Every slot was used once. -/
  task : ∀ i ∈ s.nodes, (s.uthread i).task = i
  /-- The finished tasks are those of the other slots. -/
  finished : ∀ i ∈ s.nodes, i ∈ s.finished ↔ unfinished s i = false

/-! ## Fuel -/

/-- One step before a run that returns. -/
lemma runFor_of_step {n : ℕ} {u : State} (hs : step s = some u) (h : runFor n u = some t) :
    runFor (n + 1) s = some t := by
  have hne : s.control ≠ .returned := by
    intro hc
    simp [step, hc] at hs
  rw [runFor, if_neg hne]
  simpa [hs] using h

/-- More fuel does not change the result. -/
lemma runFor_mono {n m : ℕ} (h : runFor n s = some t) (hle : n ≤ m) : runFor m s = some t := by
  induction n generalizing s m with
  | zero =>
    rw [runFor] at h
    split_ifs at h with hc
    cases m <;> rw [runFor, if_pos hc, h]
  | succ n ih =>
    rw [runFor] at h
    split_ifs at h with hc
    · cases m <;> rw [runFor, if_pos hc, h]
    · obtain ⟨m, rfl⟩ : ∃ m', m = m' + 1 := ⟨m - 1, by omega⟩
      obtain ⟨u, hu, hrun⟩ := Option.bind_eq_some_iff.mp h
      rw [runFor, if_neg hc]
      exact Option.bind_eq_some_iff.mpr ⟨u, hu, ih hrun (by omega)⟩

/-- When no thread is `READY`, a yield makes `run_scheduler` return at once. -/
lemma runFor_of_uschedYield_none (saved : Context) (hnone : s.firstWith .ready = none) :
    ∃ t, runFor 2 (uschedYield s saved) = some t ∧ t.finished = s.finished ∧ t.nodes = s.nodes := by
  refine ⟨{ s with isFinished := true, control := .returned }, ?_, rfl, rfl⟩
  have hy : uschedYield s saved = { s with isFinished := true, control := .initialContext } := by
    simp [uschedYield, hnone]
  rw [hy]
  exact runFor_of_step rfl rfl

/-! ## The shape of the scheduler -/

/-- The unfinished slots are listed without repetition. -/
lemma Alternating.nodup_live (h : Alternating s r others left) : (r :: others).Nodup := by
  have hnd := h.nodup.filter (unfinished s)
  rcases h.live with hl | ⟨w, rest, rfl, hl⟩
  · rwa [hl] at hnd
  · rw [hl] at hnd
    exact (List.Perm.swap r w rest).nodup hnd

/-- The unfinished slots belong to the node list. -/
lemma Alternating.mem_live (h : Alternating s r others left) {i : ℕ} :
    i ∈ s.nodes ∧ unfinished s i = true ↔ i ∈ r :: others := by
  rw [← List.mem_filter]
  rcases h.live with hl | ⟨w, rest, rfl, hl⟩
  · rw [hl]
  · rw [hl]
    simp only [List.mem_cons]
    tauto

/-- The running slot belongs to the node list. -/
lemma Alternating.mem_nodes (h : Alternating s r others left) : r ∈ s.nodes :=
  ((h.mem_live (i := r)).mpr List.mem_cons_self).1

/-- The search of a yield finds the first waiting slot. -/
lemma Alternating.firstWith_ready (h : Alternating s r others left) :
    s.firstWith .ready = others.head? := by
  have hfind : s.firstWith .ready =
      (s.nodes.filter (unfinished s)).find? fun i => (s.uthread i).status = .ready := by
    rw [List.find?_filter, State.firstWith]
    congr 1
    funext i
    cases hst : (s.uthread i).status <;> simp [unfinished, hst]
  have hr : (s.uthread r).status = .running := h.running
  rw [hfind]
  rcases h.live with hl | ⟨w, rest, rfl, hl⟩
  · rw [hl, List.find?_cons, hr]
    cases others with
    | nil => rfl
    | cons w rest =>
      have hw := (h.waits w List.mem_cons_self).1
      simp [hw]
  · have hw := (h.waits w List.mem_cons_self).1
    rw [hl]
    simp [hw]

/-- The state after a switch from slot `r` to slot `w`. -/
def switched (s : State) (r w : ℕ) (status : UthreadStatus) (saved : Context) : State :=
  let s₁ := s.setUthread r { s.uthread r with status := status, context := saved }
  { activate s₁ w with control := setContext (activate s₁ w) w }

/-- A yield with a waiting slot switches to it. -/
lemma uschedYield_eq_switched (saved : Context) (hw : s.firstWith .ready = some w)
    (hr : s.activeUthread = some r) :
    uschedYield s saved = switched s r w
      (if (s.uthread r).status = .terminated then .idle else .ready) saved := by
  simp [uschedYield, hw, hr, switched]

section Switched

variable {status : UthreadStatus} {saved : Context}

/-- A switch keeps the node list. -/
@[simp] lemma switched_nodes : (switched s r w status saved).nodes = s.nodes := rfl

/-- A switch does not end the run. -/
@[simp] lemma switched_isFinished : (switched s r w status saved).isFinished = s.isFinished := rfl

/-- A switch keeps the record of returned functions. -/
@[simp] lemma switched_finished : (switched s r w status saved).finished = s.finished := rfl

/-- The slot switched to is running. -/
lemma switched_uthread_self :
    ((switched s r w status saved).uthread w).status = .running := by
  simp [switched, activate, State.setUthread]

/-- The slot switched from has the new status and the saved context. -/
lemma switched_uthread_current (hne : w ≠ r) :
    (switched s r w status saved).uthread r =
      { s.uthread r with status := status, context := saved } := by
  simp [switched, activate, State.setUthread, Function.update_of_ne hne.symm]

/-- The other slots are as before. -/
lemma switched_uthread_of_ne {i : ℕ} (hr : i ≠ r) (hw : i ≠ w) :
    (switched s r w status saved).uthread i = s.uthread i := by
  simp [switched, activate, State.setUthread, Function.update_of_ne hr, Function.update_of_ne hw]

/-- A switch keeps the task of every slot. -/
lemma switched_task (i : ℕ) :
    ((switched s r w status saved).uthread i).task = (s.uthread i).task := by
  by_cases hw : i = w
  · subst hw
    by_cases hr : i = r
    · subst hr; simp [switched, activate, State.setUthread]
    · simp [switched, activate, State.setUthread, Function.update_of_ne hr]
  · by_cases hr : i = r
    · subst hr
      rw [switched_uthread_current (Ne.symm hw)]
    · rw [switched_uthread_of_ne hr hw]

/-- The slot switched to enters its function, or the wrapper around it. -/
lemma switched_enters {k : ℕ} (hne : w ≠ r) (hw : Waits s w k) :
    Enters (switched s r w status saved) w k := by
  have hfunc : ((switched s r w status saved).uthread w).func = (s.uthread w).func := by
    simp [switched, activate, State.setUthread, Function.update_of_ne hne]
  have hcontrol : (switched s r w status saved).control = setContext s w := by
    simp [switched, setContext, activate, State.setUthread, Function.update_of_ne hne]
  rcases hw.2 with hc | ⟨hc, hf⟩
  · exact Or.inl (by rw [hcontrol, setContext, hc])
  · exact Or.inr ⟨by rw [hcontrol, setContext, hc], by rw [hfunc, hf]⟩

/-- Slots other than the two of a switch keep waiting. -/
lemma switched_waits_of_ne {i k : ℕ} (hr : i ≠ r) (hw : i ≠ w) (h : Waits s i k) :
    Waits (switched s r w status saved) i k := by
  unfold Waits
  rwa [switched_uthread_of_ne hr hw]

end Switched

/-! ## One step of the alternation -/

/-- A yield with `w` waiting: `w` runs, and the slot that yielded is the first to wait. -/
lemma Alternating.yield (h : Alternating s r (w :: rest) left) :
    Alternating (switched s r w .ready (.func (Func.yields x))) w (r :: rest)
      (Function.update left r x) := by
  have hnd := h.nodup_live
  simp only [List.nodup_cons, List.mem_cons, not_or] at hnd
  obtain ⟨⟨hrw, hrrest⟩, hwrest, -⟩ := hnd
  have hunf : ∀ i, unfinished (switched s r w .ready (.func (Func.yields x))) i
      = unfinished s i := by
    intro i
    by_cases hiw : i = w
    · subst hiw
      have := (h.waits i List.mem_cons_self).1
      simp [unfinished, switched_uthread_self, this]
    · by_cases hir : i = r
      · subst hir
        simp [unfinished, switched_uthread_current (Ne.symm hrw), h.running]
      · simp [unfinished, switched_uthread_of_ne hir hiw]
  constructor
  case notFinished =>
    rw [switched_isFinished]
    exact h.notFinished
  case active => rfl
  case running => exact switched_uthread_self
  case nodup =>
    rw [switched_nodes]
    exact h.nodup
  case waits =>
    intro i hi
    rcases List.mem_cons.mp hi with rfl | hi
    · rw [Waits, switched_uthread_current (Ne.symm hrw), Function.update_self]
      exact ⟨rfl, Or.inl rfl⟩
    · have hir : i ≠ r := fun e => hrrest (e ▸ hi)
      have hiw : i ≠ w := fun e => hwrest (e ▸ hi)
      rw [Function.update_of_ne hir]
      exact switched_waits_of_ne hir hiw (h.waits i (List.mem_cons_of_mem _ hi))
  case live =>
    have hfilter : s.nodes.filter (unfinished (switched s r w .ready (.func (Func.yields x))))
        = s.nodes.filter (unfinished s) := List.filter_congr fun i _ => hunf i
    rw [switched_nodes, hfilter]
    rcases h.live with hl | ⟨w', rest', heq, hl⟩
    · exact Or.inr ⟨r, rest, rfl, hl⟩
    · obtain ⟨rfl, rfl⟩ := List.cons.inj heq
      exact Or.inl hl
  case task =>
    intro i hi
    rw [switched_nodes] at hi
    rw [switched_task]
    exact h.task i hi
  case finished =>
    intro i hi
    rw [switched_nodes] at hi
    rw [switched_finished, hunf]
    exact h.finished i hi

/-- The state in which the function of slot `r` has just returned. -/
def afterReturn (s : State) (r : ℕ) : State :=
  { s.setUthread r { s.uthread r with status := .terminated } with
    finished := (s.uthread r).task :: s.finished }

/-- A return keeps the node list. -/
@[simp] lemma afterReturn_nodes : (afterReturn s r).nodes = s.nodes := rfl

/-- A return does not end the run. -/
@[simp] lemma afterReturn_isFinished : (afterReturn s r).isFinished = s.isFinished := rfl

/-- A return is recorded. -/
@[simp] lemma afterReturn_finished :
    (afterReturn s r).finished = (s.uthread r).task :: s.finished := rfl

/-- After a return the search of the last yield finds the first waiting slot. -/
lemma Alternating.firstWith_ready_afterReturn (h : Alternating s r others left) :
    (afterReturn s r).firstWith .ready = others.head? := by
  rw [← h.firstWith_ready, State.firstWith, State.firstWith]
  congr 1
  funext i
  by_cases hi : i = r
  · subst hi; simp [afterReturn, State.setUthread, h.running]
  · simp [afterReturn, State.setUthread, Function.update_of_ne hi]

/-- A return with `w` waiting: `w` runs, and the slot that returned is done. -/
lemma Alternating.ret (h : Alternating s r (w :: rest) left) :
    Alternating (switched (afterReturn s r) r w .idle .wrapperEnd) w rest left := by
  have hnd := h.nodup_live
  simp only [List.nodup_cons, List.mem_cons, not_or] at hnd
  obtain ⟨⟨hrw, hrrest⟩, hwrest, -⟩ := hnd
  have hsame : ∀ i, i ≠ r → (afterReturn s r).uthread i = s.uthread i := by
    intro i hi
    simp [afterReturn, State.setUthread, Function.update_of_ne hi]
  have htr : (s.uthread r).task = r := h.task r h.mem_nodes
  have htask : ∀ i, ((afterReturn s r).uthread i).task = (s.uthread i).task := by
    intro i
    by_cases hi : i = r
    · subst hi; simp [afterReturn, State.setUthread]
    · rw [hsame i hi]
  have hunf : ∀ i, unfinished (switched (afterReturn s r) r w .idle .wrapperEnd) i
      = (unfinished s i && decide (i ≠ r)) := by
    intro i
    by_cases hiw : i = w
    · subst hiw
      have := (h.waits i List.mem_cons_self).1
      simp [unfinished, switched_uthread_self, this, Ne.symm hrw]
    · by_cases hir : i = r
      · subst hir
        simp [unfinished, switched_uthread_current (Ne.symm hrw)]
      · simp [unfinished, switched_uthread_of_ne hir hiw, hsame i hir, hir]
  constructor
  case notFinished =>
    rw [switched_isFinished, afterReturn_isFinished]
    exact h.notFinished
  case active => rfl
  case running => exact switched_uthread_self
  case nodup =>
    rw [switched_nodes, afterReturn_nodes]
    exact h.nodup
  case waits =>
    intro i hi
    have hir : i ≠ r := fun e => hrrest (e ▸ hi)
    have hiw : i ≠ w := fun e => hwrest (e ▸ hi)
    apply switched_waits_of_ne hir hiw
    unfold Waits
    rw [hsame i hir]
    exact h.waits i (List.mem_cons_of_mem _ hi)
  case live =>
    left
    have hdrop : ∀ i ∈ rest, ¬i = r := fun i hi e => hrrest (e ▸ hi)
    have hfilter : s.nodes.filter (unfinished (switched (afterReturn s r) r w .idle .wrapperEnd))
        = (s.nodes.filter (unfinished s)).filter (fun i => decide (i ≠ r)) := by
      rw [List.filter_filter]
      apply List.filter_congr
      intro i _
      rw [hunf, Bool.and_comm]
    rw [switched_nodes, afterReturn_nodes, hfilter]
    rcases h.live with hl | ⟨w', rest', heq, hl⟩
    · rw [hl]
      simpa [Ne.symm hrw] using hdrop
    · obtain ⟨rfl, rfl⟩ := List.cons.inj heq
      rw [hl]
      simpa [Ne.symm hrw] using hdrop
  case task =>
    intro i hi
    rw [switched_nodes, afterReturn_nodes] at hi
    rw [switched_task, htask]
    exact h.task i hi
  case finished =>
    intro i hi
    rw [switched_nodes, afterReturn_nodes] at hi
    rw [switched_finished, afterReturn_finished, htr, hunf, List.mem_cons, h.finished i hi]
    by_cases hir : i = r <;> simp [hir]

/-! ## The whole run -/

/-- From `s` the run returns, and every slot of the node list has finished exactly when `alternate`
says so. -/
def Decides (s : State) (x : ℕ) (ws : List ℕ) : Prop :=
  ∃ n t, runFor n s = some t ∧ ((∀ i ∈ s.nodes, i ∈ t.finished) ↔ alternate x ws = true)

/-- A slot that enters the wrapper is in its function one step later. -/
lemma Decides.of_enters {ws : List ℕ} (h : Alternating s r others left) (hx : Enters s r x)
    (hfunc : ∀ s' : State, s'.nodes = s.nodes → Alternating s' r others left →
      s'.control = .func r (Func.yields x) → Decides s' x ws) : Decides s x ws := by
  rcases hx with hc | ⟨hc, hf⟩
  · exact hfunc s rfl h hc
  · set s' : State := { s with
      control := .func r (Func.yields x), entered := (s.uthread r).task :: s.entered } with hs'
    have hstep : step s = some s' := by
      simp [step, hc, h.active, hf, hs']
    have hshape : Alternating s' r others left :=
      ⟨h.notFinished, h.active, h.running, h.nodup, h.waits, h.live, h.task, h.finished⟩
    obtain ⟨n, t, hrun, hiff⟩ := hfunc s' rfl hshape rfl
    exact ⟨n + 1, t, runFor_of_step hstep hrun, hiff⟩

/-- Some slot is unfinished: the running one. -/
lemma Alternating.not_mem_finished (h : Alternating s r others left) : r ∉ s.finished := by
  rw [h.finished r h.mem_nodes]
  simp [unfinished, h.running]

/-- When nobody waits, every other slot has finished. -/
lemma Alternating.mem_finished_of_nil (h : Alternating s r [] left) {i : ℕ} (hi : i ∈ s.nodes)
    (hne : i ≠ r) : i ∈ s.finished := by
  rw [h.finished i hi, ← Bool.not_eq_true]
  intro hu
  have := h.mem_live.mp ⟨hi, hu⟩
  simp only [List.mem_cons, List.not_mem_nil, or_false] at this
  exact hne this

/-- The run from a slot that has `x` yields left, with `others` waiting, returns, and finishes
everything exactly when `alternate` says so. -/
theorem Alternating.decides (ws : List ℕ) :
    ∀ (s : State) (r : ℕ) (others : List ℕ) (left : ℕ → ℕ), others.map left = ws →
      Alternating s r others left → s.control = .func r (Func.yields x) → Decides s x ws := by
  induction x, ws using alternate.induct with
  | case1 =>
    intro s r others left hmap h hc
    obtain rfl := List.map_eq_nil_iff.mp hmap
    have hstep : step s = some (uschedYield (afterReturn s r) .wrapperEnd) := by
      simp [step, hc, Func.yields, afterReturn]
    obtain ⟨t, hrun, hfin, -⟩ := runFor_of_uschedYield_none .wrapperEnd
      (h.firstWith_ready_afterReturn)
    refine ⟨3, t, runFor_of_step hstep hrun, ?_⟩
    simp only [alternate, iff_true]
    intro i hi
    rw [hfin, afterReturn_finished, h.task r h.mem_nodes, List.mem_cons]
    by_cases hne : i = r
    · exact Or.inl hne
    · exact Or.inr (h.mem_finished_of_nil hi hne)
  | case2 x =>
    intro s r others left hmap h hc
    obtain rfl := List.map_eq_nil_iff.mp hmap
    have hstep : step s = some (uschedYield s (.func (Func.yields x))) := by
      simp [step, hc, Func.yields]
    obtain ⟨t, hrun, hfin, -⟩ := runFor_of_uschedYield_none (.func (Func.yields x))
      h.firstWith_ready
    refine ⟨3, t, runFor_of_step hstep hrun, ?_⟩
    simp only [alternate, Bool.false_eq_true, iff_false]
    intro hall
    exact h.not_mem_finished (hfin ▸ hall r h.mem_nodes)
  | case3 k ws ih =>
    intro s r others left hmap h hc
    obtain ⟨w, rest, rfl, rfl, hrest⟩ := List.map_eq_cons_iff.mp hmap
    have hne : w ≠ r := by
      intro e
      have hnd := h.nodup_live
      simp [e] at hnd
    have hstep : step s = some (switched (afterReturn s r) r w .idle .wrapperEnd) := by
      have hterm : ((afterReturn s r).uthread r).status = .terminated := by
        simp [afterReturn, State.setUthread]
      have hy := uschedYield_eq_switched .wrapperEnd (r := r) (w := w)
        (h.firstWith_ready_afterReturn) h.active
      rw [if_pos hterm] at hy
      simpa [step, hc, Func.yields, afterReturn] using hy
    have hw : Waits (afterReturn s r) w (left w) := by
      have := h.waits w List.mem_cons_self
      unfold Waits
      rwa [show (afterReturn s r).uthread w = s.uthread w by
        simp [afterReturn, State.setUthread, Function.update_of_ne hne]]
    obtain ⟨n, t, hrun, hiff⟩ := Decides.of_enters h.ret (switched_enters hne hw)
      fun s' _ h' hc' => ih s' w rest left hrest h' hc'
    exact ⟨n + 1, t, runFor_of_step hstep hrun, by simpa [alternate] using hiff⟩
  | case4 x k ws ih =>
    intro s r others left hmap h hc
    obtain ⟨w, rest, rfl, rfl, hrest⟩ := List.map_eq_cons_iff.mp hmap
    have hnd := h.nodup_live
    simp only [List.nodup_cons, List.mem_cons, not_or] at hnd
    have hne : w ≠ r := Ne.symm hnd.1.1
    have hstep : step s = some (switched s r w .ready (.func (Func.yields x))) := by
      have hterm : (s.uthread r).status ≠ .terminated := by rw [h.running]; decide
      have hy := uschedYield_eq_switched (.func (Func.yields x)) (r := r) (w := w)
        h.firstWith_ready h.active
      rw [if_neg hterm] at hy
      simpa [step, hc, Func.yields] using hy
    have hleft : (r :: rest).map (Function.update left r x) = x :: ws := by
      rw [List.map_cons, Function.update_self, ← hrest]
      congr 1
      refine List.map_congr_left fun i hi => Function.update_of_ne ?_ _ _
      exact fun e => hnd.1.2 (e ▸ hi)
    obtain ⟨n, t, hrun, hiff⟩ := Decides.of_enters h.yield
      (switched_enters hne (h.waits w List.mem_cons_self))
      fun s' _ h' hc' => ih s' w (r :: rest) _ hleft h' hc'
    exact ⟨n + 1, t, runFor_of_step hstep hrun, by simpa [alternate] using hiff⟩

/-! ## From the added tasks to the run -/

/-- The scheduler after the tasks `funcs` were added to a new one: one fresh `READY` slot for each
task, last task first. -/
structure Added (s : State) (funcs : List Func) : Prop where
  /-- The node list. -/
  nodes : s.nodes = (List.range funcs.length).reverse
  /-- The next identifier. -/
  idGenerator : s.idGenerator = funcs.length
  /-- The number of tasks. -/
  tasks : s.tasks = funcs.length
  /-- No run has ended. -/
  notFinished : s.isFinished = false
  /-- No function has returned. -/
  finished : s.finished = []
  /-- The slot of each task. -/
  uthread : ∀ i (hi : i < funcs.length), s.uthread i = ⟨.ready, funcs[i], .wrapper, i⟩

/-- Adding one more task to a scheduler whose slots are all `READY` creates a slot for it. -/
lemma Added.addToScheduler {funcs : List Func} (h : Added s funcs) (func : Func) :
    Added (addToScheduler s func) (funcs ++ [func]) := by
  have hnone : s.firstWith .idle = none := by
    rw [State.firstWith, List.find?_eq_none]
    intro i hi
    rw [h.nodes, List.mem_reverse, List.mem_range] at hi
    simp [h.uthread i hi]
  have heq : Uthreadpool.addToScheduler s func
      = assignTask (createUthread s) s.idGenerator func := by
    simp [Uthreadpool.addToScheduler, hnone]
  rw [heq]
  refine ⟨?_, ?_, ?_, h.notFinished, h.finished, ?_⟩
  · simp [assignTask, createUthread, State.setUthread, h.nodes, h.idGenerator, List.range_succ]
  · simp [assignTask, createUthread, State.setUthread, h.idGenerator]
  · simp [assignTask, createUthread, State.setUthread, h.tasks]
  · intro i hi
    rw [List.length_append, List.length_singleton] at hi
    by_cases hlast : i = funcs.length
    · subst hlast
      simp [assignTask, createUthread, State.setUthread, h.idGenerator, h.tasks]
    · have hlt : i < funcs.length := by omega
      simp [assignTask, createUthread, State.setUthread, h.idGenerator,
        Function.update_of_ne hlast, h.uthread i hlt, List.getElem_append_left hlt]

/-- The scheduler after any list of tasks was added to a new one. -/
lemma added_addTasks (funcs : List Func) : Added (addTasks initScheduler funcs) funcs := by
  induction funcs using List.reverseRecOn with
  | nil => exact ⟨rfl, rfl, rfl, rfl, rfl, fun i hi => absurd hi (Nat.not_lt_zero i)⟩
  | append_singleton funcs func ih =>
    rw [addTasks, List.foldl_append, List.foldl_cons, List.foldl_nil]
    exact ih.addToScheduler func

/-- The first step of `run_scheduler` activates the task added last. -/
lemma Added.alternating {yields : List ℕ} {n : ℕ}
    (h : Added s (yields.map Func.yields)) (hn : yields.length = n + 1) :
    ∃ u, step (runScheduler s) = some u ∧ u.nodes = s.nodes ∧
      Enters u n (yields.getD n 0) ∧
      Alternating u n (List.range n).reverse (fun i => yields.getD i 0) := by
  have hlen : (yields.map Func.yields).length = n + 1 := by rw [List.length_map, hn]
  have hnodes : s.nodes = n :: (List.range n).reverse := by
    rw [h.nodes, hlen, List.range_succ, List.reverse_append]
    rfl
  have hu : ∀ i, i < n + 1 → s.uthread i = ⟨.ready, Func.yields (yields.getD i 0), .wrapper, i⟩ :=
    fun i hi => by
      rw [h.uthread i (by omega), List.getElem_map, List.getD_eq_getElem _ _ (by omega)]
  have hfirst : (runScheduler s).firstWith .ready = some n := by
    rw [State.firstWith, runScheduler, hnodes]
    simp [hu n (Nat.lt_succ_self n)]
  have hsame : ∀ i, i < n → (activate (runScheduler s) n).uthread i = s.uthread i := by
    intro i hi
    have hne : i ≠ n := by omega
    simp [activate, runScheduler, State.setUthread, Function.update_of_ne hne]
  have hself : (activate (runScheduler s) n).uthread n
      = ⟨.running, Func.yields (yields.getD n 0), .wrapper, n⟩ := by
    simp [activate, runScheduler, State.setUthread, hu n (Nat.lt_succ_self n)]
  have hunf : ∀ i ∈ s.nodes, unfinished (activate (runScheduler s) n) i = true := by
    intro i hi
    rw [hnodes, List.mem_cons, List.mem_reverse, List.mem_range] at hi
    rcases hi with rfl | hi
    · simp [unfinished, hself]
    · simp [unfinished, hsame i hi, hu i (by omega)]
  refine ⟨{ activate (runScheduler s) n with
    control := setContext (activate (runScheduler s) n) n }, ?_, rfl, ?_, ?_⟩
  · have hnf : (runScheduler s).isFinished = false := h.notFinished
    have hc : (runScheduler s).control = .initialContext := rfl
    simp [step, hnf, hc, hfirst]
  · exact Or.inr ⟨by simp [setContext, hself], by rw [hself]⟩
  · refine ⟨h.notFinished, rfl, by rw [hself], ?_, ?_, Or.inl ?_, ?_, ?_⟩
    · have : s.nodes.Nodup := by rw [h.nodes]; exact List.nodup_reverse.mpr List.nodup_range
      exact this
    · intro i hi
      rw [List.mem_reverse, List.mem_range] at hi
      rw [Waits, hsame i hi, hu i (by omega)]
      exact ⟨rfl, Or.inr ⟨rfl, rfl⟩⟩
    · have hfilter : s.nodes.filter (unfinished (activate (runScheduler s) n)) = s.nodes :=
        List.filter_eq_self.mpr hunf
      rw [← hnodes]
      exact hfilter
    · intro i hi
      have hi' : i ∈ n :: (List.range n).reverse := hnodes ▸ hi
      rw [List.mem_cons, List.mem_reverse, List.mem_range] at hi'
      rcases hi' with rfl | hi'
      · rw [hself]
      · rw [hsame i hi', hu i (by omega)]
    · intro i hi
      have hempty : s.finished = [] := h.finished
      have hu' : unfinished (activate (runScheduler s) n) i = true := hunf i hi
      exact ⟨fun hm => absurd (hempty ▸ hm) List.not_mem_nil,
        fun hf => absurd (hu'.symm.trans hf) (by decide)⟩

/-- For every list of tasks added to a new scheduler, `run_scheduler` returns, whatever the numbers
of their yields, and the function of every task has returned exactly when the fold of `pairLeft`
over these numbers, last added task first, leaves nothing. -/
theorem runScheduler_finishes_iff (yields : List ℕ) :
    ∃ n t, (∀ m, n ≤ m →
        runFor m (runScheduler (addTasks initScheduler (yields.map Func.yields))) = some t) ∧
      ((∀ i < yields.length, i ∈ t.finished) ↔ leftover yields.reverse = 0) := by
  have h := added_addTasks (yields.map Func.yields)
  set s := addTasks initScheduler (yields.map Func.yields) with hs
  rcases hlen : yields.length with _ | n
  · obtain rfl := List.length_eq_zero_iff.mp hlen
    refine ⟨2, { runScheduler s with control := .returned }, fun m hm => ?_, by simp [leftover]⟩
    exact runFor_mono (n := 2) rfl hm
  · obtain ⟨u, hstep, hnodes, henters, halt⟩ := h.alternating hlen
    obtain ⟨k, t, hrun, hiff⟩ := Decides.of_enters halt henters
      fun s' _ h' hc' => h'.decides _ s' n _ _ rfl hc'
    refine ⟨k + 1, t, fun m hm => runFor_mono (runFor_of_step hstep hrun) hm, ?_⟩
    have hmem : ∀ i, i ∈ u.nodes ↔ i < n + 1 := by
      intro i
      rw [hnodes, h.nodes, List.length_map, hlen, List.mem_reverse, List.mem_range]
    have hrev : yields.reverse =
        yields.getD n 0 :: (List.range n).reverse.map (fun i => yields.getD i 0) := by
      have hmap : yields = (List.range (n + 1)).map fun i => yields.getD i 0 := by
        rw [← hlen]
        exact List.ext_getElem (by simp) fun i hi _ => by
          rw [List.getElem_map, List.getElem_range, List.getD_eq_getElem _ _ hi]
      conv_lhs => rw [hmap]
      rw [List.range_succ, List.map_append, List.reverse_append, List.map_reverse]
      rfl
    rw [hrev, ← alternate_eq_true_iff, ← hiff]
    exact ⟨fun hall i hi => hall i ((hmem i).mp hi), fun hall i hi => hall i ((hmem i).mpr hi)⟩

/-- One task that yields once is abandoned: `run_scheduler` returns and the task's function has
not. -/
theorem runScheduler_abandons_single_yield :
    ∃ t, runFor 10 (runScheduler (addTasks initScheduler [Func.yields 1])) = some t ∧
      0 ∈ t.entered ∧ 0 ∉ t.finished :=
  ⟨_, rfl, by decide, by decide⟩

end OsLabs.Uthreadpool
