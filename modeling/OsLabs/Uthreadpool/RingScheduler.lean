import OsLabs.Foundation.Ring
import OsLabs.Uthreadpool.Scheduler

/-!
# The round-robin scheduler of `uthreadpool2.c`

`lab1/src/7/uthreadpool2.c` keeps its threads in a ring of nodes in memory. The functions are
modelled as far as the ring, the records of the threads and the choice of the next thread go; a
function that answers `none` has followed a pointer that leads nowhere. `head_uthread` is taken to
start as `NULL`, and the `getcontext` of `run_scheduler`, `makecontext` and `swapcontext` are taken
to succeed.

`usched_yield` looks for a `READY` thread from the active one on and takes the number of its steps
for the answer whether there is one, but the thread in front of the active one is found with the
last of them.
-/

namespace OsLabs.Uthreadpool

/-- `uthread_node_t`. -/
structure UthreadNode where
  next : Option ℕ
  prev : Option ℕ
  uthread : Option ℕ

/-- `uthread_t`; the function and its argument are one value. -/
structure UthreadRecord where
  status : UthreadStatus
  id : ℕ
  func : Option ℕ

/-- `uthread_scheduler_t` with the memory of its nodes and threads. -/
structure RingScheduler where
  isFinished : Bool
  idGenerator : ℕ
  size : ℕ
  headUthread : Option ℕ
  activeUthread : Option ℕ
  nodes : Heap UthreadNode
  uthreads : Heap UthreadRecord

/-- What the allocators answer to `__create_uthread`, and whether the `getcontext` of
`add_to_scheduler` succeeds. -/
structure UthreadAnswers where
  uthread : Option ℕ
  stack : Bool
  node : Option ℕ
  context : Bool

/-- Where `usched_yield` and `run_scheduler` go on. -/
inductive Jump
  | return_
  | initialContext
  | context (uthread : Option ℕ)
  deriving DecidableEq

namespace RingScheduler

/-- `init_scheduler`. -/
def initScheduler : RingScheduler where
  isFinished := false
  idGenerator := 0
  size := 0
  headUthread := none
  activeUthread := none
  nodes := Heap.empty
  uthreads := Heap.empty

/-- `node->uthread->status` with `node->next`. -/
def statusAt (s : RingScheduler) (node : Option ℕ) : Option (UthreadStatus × Option ℕ) :=
  (s.nodes.load node).bind fun n => (s.uthreads.load n.uthread).map fun u => (u.status, n.next)

/-- The new node is put behind the head of the ring. -/
def linkNode (s : RingScheduler) (node uthread : ℕ) : Option (Heap UthreadNode) :=
  match s.headUthread with
  | none => s.nodes.alloc node ⟨some node, some node, some uthread⟩
  | some head =>
    (s.nodes.cell head).bind fun h =>
      (s.nodes.alloc node ⟨h.next, some head, some uthread⟩).bind fun nodes =>
        (nodes.modify h.next fun n => { n with prev := some node }).bind fun nodes =>
          nodes.modify (some head) fun n => { n with next := some node }

/-- `__create_uthread`; the answer is whether it returns `0`. -/
def createUthread (s : RingScheduler) (answers : UthreadAnswers) : Option (RingScheduler × Bool) :=
  match answers.uthread with
  | none => some (s, false)
  | some uthread =>
    (s.uthreads.alloc uthread ⟨.idle, s.idGenerator, none⟩).bind fun uthreads =>
      let s := { s with idGenerator := s.idGenerator + 1, uthreads := uthreads }
      match answers.stack, answers.node with
      | true, some node =>
        (s.linkNode node uthread).map fun nodes =>
          ({ s with nodes := nodes, headUthread := some node, size := s.size + 1 }, true)
      | _, _ =>
        (s.uthreads.free (some uthread)).map fun uthreads =>
          ({ s with uthreads := uthreads }, false)

/-- The loop `while (cnt < scheduler->size && node->uthread->status != status)`; the first argument
is how many rounds there can be. -/
def searchLoop (s : RingScheduler) (status : UthreadStatus) :
    ℕ → Option ℕ → ℕ → Option (Option ℕ × ℕ)
  | 0, node, cnt => some (node, cnt)
  | rounds + 1, node, cnt =>
    (s.statusAt node).bind fun (found, next) =>
      if found = status then some (node, cnt) else searchLoop s status rounds next (cnt + 1)

/-- The end of `add_to_scheduler`, up to its `getcontext`. -/
def assignTask (s : RingScheduler) (node : Option ℕ) (func : ℕ) : Option RingScheduler :=
  (s.nodes.load node).bind fun n =>
    (s.uthreads.modify n.uthread fun u => { u with status := .ready, func := some func }).map
      fun uthreads => { s with uthreads := uthreads }

/-- `add_to_scheduler`; the answer is whether it returns `0`. When `getcontext` fails the thread
stays `READY`. -/
def addToScheduler (s : RingScheduler) (func : ℕ) (answers : UthreadAnswers) :
    Option (RingScheduler × Bool) :=
  (s.searchLoop .idle s.size s.headUthread 0).bind fun (node, cnt) =>
    if s.size ≤ cnt then
      (s.createUthread answers).bind fun (s, created) =>
        if created then (s.assignTask s.headUthread func).map fun s => (s, answers.context)
        else some (s, false)
    else (s.assignTask node func).map fun s => (s, answers.context)

/-- `run_scheduler`, from its `getcontext` on. -/
def runScheduler (s : RingScheduler) : Option (RingScheduler × Jump) :=
  if s.isFinished then some (s, .return_)
  else (s.searchLoop .ready s.size s.headUthread 0).bind fun (node, cnt) =>
    if s.size ≤ cnt then some (s, .return_)
    else (s.nodes.load node).bind fun n =>
      (s.uthreads.modify n.uthread fun u => { u with status := .running }).map fun uthreads =>
        ({ s with activeUthread := node, uthreads := uthreads }, .context n.uthread)

/-- The loop `while (node->uthread->status != READY && cnt < scheduler->size - 1)`; the first
argument is how many rounds there can be. -/
def yieldLoop (s : RingScheduler) : ℕ → Option ℕ → ℕ → Option (Option ℕ × ℕ)
  | 0, node, cnt => (s.statusAt node).map fun _ => (node, cnt)
  | rounds + 1, node, cnt =>
    (s.statusAt node).bind fun (found, next) =>
      if found = .ready then some (node, cnt) else yieldLoop s rounds next (cnt + 1)

/-- The status of the thread that gives up the processor. -/
def yieldedStatus (status : UthreadStatus) : UthreadStatus :=
  if status = .terminated then .idle else .ready

/-- `usched_yield`. -/
def uschedYield (s : RingScheduler) : Option (RingScheduler × Jump) :=
  let node := if s.activeUthread = none then s.headUthread else s.activeUthread
  (s.yieldLoop (s.size - 1) node 0).bind fun (node, cnt) =>
    if s.size - 1 ≤ cnt then some ({ s with isFinished := true }, .initialContext)
    else
      (s.nodes.load s.activeUthread).bind fun current =>
        (s.nodes.load node).bind fun n =>
          (s.uthreads.modify current.uthread fun u =>
            { u with status := yieldedStatus u.status }).bind fun uthreads =>
              (uthreads.modify n.uthread fun u => { u with status := .running }).map fun uthreads =>
                ({ s with activeUthread := node, uthreads := uthreads }, .context n.uthread)

/-! ## The ring -/

/-- A node of the ring with its thread. -/
structure RingThread where
  node : ℕ
  uthread : ℕ
  record : UthreadRecord

/-- The thread can be chosen. -/
def RingThread.isReady (t : RingThread) : Bool := t.record.status = .ready

/-- The memory holds a ring of threads, listed from the head on. -/
structure Holds (s : RingScheduler) (ring : List RingThread) : Prop where
  size : s.size = ring.length
  head : s.headUthread = ring.head?.map RingThread.node
  closed : s.nodes.Ring UthreadNode.next UthreadNode.prev UthreadNode.uthread
    (ring.map fun t => (t.node, some t.uthread))
  records : ∀ t ∈ ring, s.uthreads.cell t.uthread = some t.record
  nodup : (ring.map RingThread.uthread).Nodup

/-- The scheduler after the active thread has given the processor to another one. -/
def switched (s : RingScheduler) (active next : RingThread) : RingScheduler :=
  { s with
    activeUthread := some next.node
    uthreads := (s.uthreads.set active.uthread
      (some { active.record with status := yieldedStatus active.record.status })).set next.uthread
        (some { next.record with status := .running }) }

/-- `usched_yield` gives the processor to the first thread of the list that is `READY`, and finishes
the run if there is none. -/
def YieldsToFirst (s : RingScheduler) (active : RingThread) (others : List RingThread) : Prop :=
  match others.find? RingThread.isReady with
  | some next => s.uschedYield = some (s.switched active next, .context (some next.uthread))
  | none => s.uschedYield = some ({ s with isFinished := true }, .initialContext)

/-- Only the last thread of the list is `READY`. -/
def OnlyLastReady (others : List RingThread) : Prop :=
  ∃ front last, others = front ++ [last] ∧ last.isReady = true ∧
    ∀ t ∈ front, t.isReady = false

variable {s : RingScheduler} {front back others rest : List RingThread}
  {t active next : RingThread} {stop : Option ℕ}

/-- The thread of a node on a path, and where the path goes on. -/
lemma statusAt_of_path
    (hpath : s.nodes.Path UthreadNode.next UthreadNode.uthread (some t.node)
      ((t :: rest).map fun t => (t.node, some t.uthread)) stop)
    (hrecord : s.uthreads.cell t.uthread = some t.record) :
    ∃ node, s.nodes.cell t.node = some node ∧ node.uthread = some t.uthread ∧
      s.statusAt (some t.node) = some (t.record.status, node.next) ∧
      s.nodes.Path UthreadNode.next UthreadNode.uthread node.next
        (rest.map fun t => (t.node, some t.uthread)) stop := by
  obtain ⟨node, hnode, huthread, hrest⟩ := hpath.head
  refine ⟨node, hnode, huthread, ?_, hrest⟩
  rw [statusAt, Heap.load_some, hnode, Option.bind_some, huthread, Heap.load_some, hrecord,
    Option.map_some]

/-- A round of the loop. -/
lemma yieldLoop_succ {node next : Option ℕ} {found : UthreadStatus}
    (hstatus : s.statusAt node = some (found, next)) (rounds cnt : ℕ) :
    s.yieldLoop (rounds + 1) node cnt =
      if found = .ready then some (node, cnt) else s.yieldLoop rounds next (cnt + 1) := by
  rw [yieldLoop, hstatus]
  rfl

/-- The loop stops at the first `READY` thread of the list or at the last one. -/
lemma exists_yieldLoop
    (hpath : s.nodes.Path UthreadNode.next UthreadNode.uthread (some t.node)
      ((t :: rest).map fun t => (t.node, some t.uthread)) stop)
    (hrecords : ∀ u ∈ t :: rest, s.uthreads.cell u.uthread = some u.record) (cnt : ℕ) :
    ∃ front found back, t :: rest = front ++ found :: back ∧
      (∀ u ∈ front, u.isReady = false) ∧ (found.isReady = true ∨ back = []) ∧
      s.yieldLoop rest.length (some t.node) cnt = some (some found.node, cnt + front.length) := by
  induction rest generalizing t cnt with
  | nil =>
    obtain ⟨node, -, -, hstatus, -⟩ := statusAt_of_path hpath (hrecords t List.mem_cons_self)
    refine ⟨[], t, [], rfl, fun u hu => absurd hu List.not_mem_nil, Or.inr rfl, ?_⟩
    rw [List.length_nil, yieldLoop, hstatus]
    rfl
  | cons u rest ih =>
    obtain ⟨node, -, -, hstatus, hrest⟩ := statusAt_of_path hpath (hrecords t List.mem_cons_self)
    rw [List.length_cons, yieldLoop_succ hstatus]
    by_cases hready : t.record.status = .ready
    · refine ⟨[], t, u :: rest, rfl, fun u hu => absurd hu List.not_mem_nil,
        Or.inl (decide_eq_true hready), ?_⟩
      rw [if_pos hready]
      rfl
    · have hstart : node.next = some u.node := hrest.start_eq
      rw [hstart] at hrest
      obtain ⟨front, found, back, hsplit, hfront, hfound, hloop⟩ :=
        ih hrest (fun v hv => hrecords v (List.mem_cons_of_mem t hv)) (cnt + 1)
      refine ⟨t :: front, found, back, by rw [hsplit, List.cons_append], ?_, hfound, ?_⟩
      · exact List.forall_mem_cons.mpr ⟨decide_eq_false hready, hfront⟩
      · rw [if_neg hready, hstart, hloop, List.length_cons, Nat.add_assoc, Nat.add_comm 1]

/-- The ring from the active thread on. -/
lemma Holds.path (h : s.Holds (front ++ active :: back)) :
    s.nodes.Path UthreadNode.next UthreadNode.uthread (some active.node)
      ((active :: (back ++ front)).map fun t => (t.node, some t.uthread)) (some active.node) := by
  have hclosed := h.closed
  rw [List.map_append, List.map_cons] at hclosed
  have hpath := hclosed.path_of_append
  rwa [← List.map_append, ← List.map_cons (f := fun t : RingThread => (t.node, some t.uthread))]
    at hpath

/-- As many threads as the loop has rounds are not active. -/
lemma Holds.size_sub_one (h : s.Holds (front ++ active :: back)) :
    s.size - 1 = (back ++ front).length := by
  rw [h.size, List.length_append, List.length_append, List.length_cons]
  omega

/-- The other threads of the ring have other records. -/
lemma Holds.of_mem (h : s.Holds (front ++ active :: back)) (hmem : next ∈ back ++ front) :
    next.uthread ≠ active.uthread ∧ s.uthreads.cell next.uthread = some next.record ∧
      ∃ node, s.nodes.cell next.node = some node ∧ node.uthread = some next.uthread := by
  have hperm : (front ++ active :: back).Perm (active :: (back ++ front)) :=
    List.perm_middle.trans (List.Perm.cons active List.perm_append_comm)
  have hnodup := ((hperm.map RingThread.uthread).nodup_iff).mp h.nodup
  rw [List.map_cons, List.nodup_cons] at hnodup
  refine ⟨fun heq => hnodup.1 (heq ▸ List.mem_map_of_mem hmem), ?_, ?_⟩
  · exact h.records next (hperm.mem_iff.mpr (List.mem_cons_of_mem active hmem))
  · exact h.path.exists_cell (x := (next.node, some next.uthread))
      (List.mem_map_of_mem (List.mem_cons_of_mem active hmem))

/-- The node of the active thread and its record. -/
lemma Holds.of_active (h : s.Holds (front ++ active :: back)) :
    s.uthreads.cell active.uthread = some active.record ∧
      ∃ node, s.nodes.cell active.node = some node ∧ node.uthread = some active.uthread := by
  refine ⟨h.records active (List.mem_append_right _ List.mem_cons_self), ?_⟩
  exact h.path.exists_cell (x := (active.node, some active.uthread)) List.mem_cons_self

/-- When the loop has found another thread before its last round, that thread gets the
processor. -/
lemma uschedYield_of_lt (h : s.Holds (front ++ active :: back))
    (hactive : s.activeUthread = some active.node) (hmem : next ∈ back ++ front) {cnt : ℕ}
    (hcnt : cnt < s.size - 1)
    (hloop : s.yieldLoop (s.size - 1) (some active.node) 0 = some (some next.node, cnt)) :
    s.uschedYield = some (s.switched active next, .context (some next.uthread)) := by
  obtain ⟨hne, hrecord, node, hnode, huthread⟩ := h.of_mem hmem
  obtain ⟨hrecord', node', hnode', huthread'⟩ := h.of_active
  have hmodify := Heap.modify_of_cell hrecord' fun u => { u with status := yieldedStatus u.status }
  have hcell : (s.uthreads.set active.uthread (some { active.record with
      status := yieldedStatus active.record.status })).cell next.uthread = some next.record := by
    rw [Heap.cell_set_of_ne hne, hrecord]
  have hmodify' := Heap.modify_of_cell hcell fun u => { u with status := .running }
  have hnot : ¬ s.size - 1 ≤ cnt := Nat.not_le.mpr hcnt
  have hsome : (some active.node : Option ℕ) ≠ none := Option.some_ne_none _
  simp only [uschedYield, hactive, if_neg hsome, hloop, Option.bind_some, if_neg hnot,
    Heap.load_some, hnode', hnode, huthread', huthread, hmodify, hmodify', Option.map_some]
  rfl

/-- When the loop has made all its rounds, the run is finished. -/
lemma uschedYield_of_ge (hactive : s.activeUthread = some active.node) {node : Option ℕ} {cnt : ℕ}
    (hcnt : s.size - 1 ≤ cnt)
    (hloop : s.yieldLoop (s.size - 1) (some active.node) 0 = some (node, cnt)) :
    s.uschedYield = some ({ s with isFinished := true }, .initialContext) := by
  have hsome : (some active.node : Option ℕ) ≠ none := Option.some_ne_none _
  simp only [uschedYield, hactive, if_neg hsome, hloop, Option.bind_some, if_pos hcnt]

/-- A thread in front of which none is `READY` is the first one. -/
lemma find?_of_split (hsplit : others = front ++ next :: back)
    (hfront : ∀ t ∈ front, t.isReady = false) (hready : next.isReady = true) :
    others.find? RingThread.isReady = some next := by
  rw [List.find?_eq_some_iff_append]
  refine ⟨hready, front, back, hsplit, fun t ht => ?_⟩
  rw [hfront t ht, Bool.not_false]

/-- A `READY` thread with others behind it is not the only one at the end. -/
lemma not_onlyLastReady (hsplit : others = front ++ next :: back) (hready : next.isReady = true)
    (hback : back ≠ []) : ¬ OnlyLastReady others := by
  rintro ⟨front', last, hconcat, -, hfront'⟩
  obtain hnil | ⟨back', last', hback'⟩ := back.eq_nil_or_concat'
  · exact hback hnil
  · rw [hsplit, hback', ← List.cons_append, ← List.append_assoc] at hconcat
    obtain ⟨hfront, -⟩ := List.append_inj' hconcat rfl
    have hfalse := hfront' next (hfront ▸ List.mem_append_right _ List.mem_cons_self)
    rw [hready] at hfalse
    cases hfalse

/-- If the loop has found a `READY` thread, it gets the processor unless it is the last one. -/
lemma yieldsToFirst_iff_of_ready (h : s.Holds (front ++ active :: back))
    (hactive : s.activeUthread = some active.node) {before behind : List RingThread}
    {found : RingThread} (hsplit : back ++ front = before ++ found :: behind)
    (hbefore : ∀ t ∈ before, t.isReady = false) (hready : found.isReady = true)
    (hloop : s.yieldLoop (s.size - 1) (some active.node) 0 =
      some (some found.node, before.length + 1)) :
    s.YieldsToFirst active (back ++ front) ↔ ¬ OnlyLastReady (back ++ front) := by
  have hsize : s.size - 1 = before.length + (behind.length + 1) := by
    rw [h.size_sub_one, hsplit, List.length_append, List.length_cons]
  rw [YieldsToFirst, find?_of_split hsplit hbefore hready]
  by_cases hbehind : behind = []
  · rw [hbehind, List.length_nil, Nat.zero_add] at hsize
    rw [hbehind] at hsplit
    have hdone := uschedYield_of_ge hactive (Nat.le_of_eq hsize) hloop
    refine iff_of_false (fun hswitch => ?_) (not_not_intro ⟨before, found, hsplit, hready, hbefore⟩)
    have hjump := (Prod.mk.inj (Option.some.inj (hdone.symm.trans hswitch))).2
    cases hjump
  · have hpos := List.length_pos_iff.mpr hbehind
    refine iff_of_true ?_ (not_onlyLastReady hsplit hready hbehind)
    exact uschedYield_of_lt h hactive (hsplit ▸ by simp) (by omega) hloop

/-- If no other thread is `READY`, the run is finished after the last round of the loop. -/
lemma yieldsToFirst_iff_of_none (hactive : s.activeUthread = some active.node)
    (hnone : ∀ t ∈ others, t.isReady = false) {node : Option ℕ} {cnt : ℕ} (hcnt : s.size - 1 ≤ cnt)
    (hloop : s.yieldLoop (s.size - 1) (some active.node) 0 = some (node, cnt)) :
    s.YieldsToFirst active others ↔ ¬ OnlyLastReady others := by
  have hfind : others.find? RingThread.isReady = none := by
    rw [List.find?_eq_none]
    intro t ht
    rw [hnone t ht]
    exact Bool.false_ne_true
  rw [YieldsToFirst, hfind]
  refine iff_of_true (uschedYield_of_ge hactive hcnt hloop) ?_
  rintro ⟨front, last, hconcat, hlast, -⟩
  rw [hnone last (hconcat ▸ by simp)] at hlast
  cases hlast

/-- Called by an active thread that is not `READY`, at any place of a ring of any size,
`usched_yield` gives the processor to the first `READY` thread behind it, and finishes the run only
when there is none, if and only if the thread just in front of it is not the only one that is
`READY`. -/
theorem yieldsToFirst_iff (h : s.Holds (front ++ active :: back))
    (hactive : s.activeUthread = some active.node) (hnot : active.isReady = false) :
    s.YieldsToFirst active (back ++ front) ↔ ¬ OnlyLastReady (back ++ front) := by
  have hrecords : ∀ t ∈ active :: (back ++ front), s.uthreads.cell t.uthread = some t.record :=
    List.forall_mem_cons.mpr ⟨h.of_active.1, fun t ht => (h.of_mem ht).2.1⟩
  obtain ⟨before, found, behind, hsplit, hbefore, hfound, hloop⟩ :=
    exists_yieldLoop h.path hrecords 0
  rw [← h.size_sub_one, Nat.zero_add] at hloop
  by_cases hready : found.isReady = true
  · -- the active thread is not `READY`, so another one was found
    obtain ⟨-, hcons⟩ | ⟨before, rfl, hothers⟩ := List.cons_eq_append_iff.mp hsplit
    · rw [(List.cons.inj hcons).1, hnot] at hready
      exact absurd hready Bool.false_ne_true
    · exact yieldsToFirst_iff_of_ready h hactive hothers (List.forall_mem_cons.mp hbefore).2 hready
        hloop
  · -- no thread is `READY`
    rw [hfound.resolve_left hready] at hsplit
    refine yieldsToFirst_iff_of_none hactive (fun t ht => ?_) ?_ hloop
    · have hmem : t ∈ before ++ [found] := hsplit ▸ List.mem_cons_of_mem active ht
      rcases List.mem_append.mp hmem with hmem | hmem
      · exact hbefore t hmem
      · rw [List.mem_singleton.mp hmem]
        exact Bool.eq_false_iff.mpr hready
    · have hlength := congrArg List.length hsplit
      rw [List.length_cons, ← h.size_sub_one, List.length_append, List.length_singleton] at hlength
      exact Nat.le_of_eq (Nat.succ.inj hlength)

/-- `run_scheduler` after tasks were added to a new scheduler, with every allocation at the next
address. -/
def started (tasks : ℕ) : Option (RingScheduler × Jump) :=
  ((List.range tasks).foldlM (fun (s : RingScheduler) task =>
    (s.addToScheduler task ⟨some task, true, some task, true⟩).map Prod.fst) initScheduler).bind
      runScheduler

/-- The thread at an address with the task of that number. -/
def sampleThread (n : ℕ) (status : UthreadStatus) : RingThread := ⟨n, n, status, n, some n⟩

/-- A path through one more node. -/
lemma path_cons {link : UthreadNode → Option ℕ} {l : List (ℕ × Option ℕ)} {n : ℕ}
    {start uthread : Option ℕ} {node : UthreadNode} (hnode : s.nodes.cell n = some node)
    (hlink : link node = start) (huthread : node.uthread = uthread)
    (hrest : s.nodes.Path link UthreadNode.uthread start l stop) :
    s.nodes.Path link UthreadNode.uthread (some n) ((n, uthread) :: l) stop :=
  huthread ▸ .cons hnode (hlink ▸ hrest)

/-- The state in which the last of three tasks runs. -/
def threeStarted : RingScheduler where
  isFinished := false
  idGenerator := 3
  size := 3
  headUthread := some 2
  activeUthread := some 2
  nodes := ⟨[some ⟨some 1, some 2, some 0⟩, some ⟨some 2, some 0, some 1⟩,
    some ⟨some 0, some 1, some 2⟩]⟩
  uthreads := ⟨[some (sampleThread 0 .ready).record, some (sampleThread 1 .ready).record,
    some (sampleThread 2 .running).record]⟩

/-- Of three threads, the one behind the active one is chosen. -/
theorem yieldsToFirst_three : started 3 = some (threeStarted, .context (some 2)) ∧
    threeStarted.uschedYield = some (threeStarted.switched (sampleThread 2 .running)
      (sampleThread 0 .ready), .context (some 0)) := by
  have hholds : threeStarted.Holds ([] ++ sampleThread 2 .running ::
      [sampleThread 0 .ready, sampleThread 1 .ready]) := by
    refine ⟨rfl, rfl, ⟨?_, ?_, by decide⟩, ?_, by decide⟩
    · exact path_cons rfl rfl rfl (path_cons rfl rfl rfl
        (path_cons rfl rfl rfl (.nil _)))
    · exact path_cons rfl rfl rfl (path_cons rfl rfl rfl
        (path_cons rfl rfl rfl (.nil _)))
    · exact List.forall_mem_cons.mpr ⟨rfl, List.forall_mem_cons.mpr ⟨rfl,
        List.forall_mem_cons.mpr ⟨rfl, fun t ht => absurd ht List.not_mem_nil⟩⟩⟩
  have hsplit : [sampleThread 0 .ready, sampleThread 1 .ready] ++ [] =
      [] ++ sampleThread 0 .ready :: [sampleThread 1 .ready] := rfl
  refine ⟨rfl, (yieldsToFirst_iff hholds rfl rfl).mpr ?_⟩
  exact not_onlyLastReady hsplit rfl (List.cons_ne_nil _ _)

/-- The state in which the last of two tasks runs. -/
def twoStarted : RingScheduler where
  isFinished := false
  idGenerator := 2
  size := 2
  headUthread := some 1
  activeUthread := some 1
  nodes := ⟨[some ⟨some 1, some 1, some 0⟩, some ⟨some 0, some 0, some 1⟩]⟩
  uthreads := ⟨[some (sampleThread 0 .ready).record, some (sampleThread 1 .running).record]⟩

/-- Of two threads, the other one is never chosen: the run is finished instead. -/
theorem two_not_yieldsToFirst : started 2 = some (twoStarted, .context (some 1)) ∧
    twoStarted.Holds ([] ++ sampleThread 1 .running :: [sampleThread 0 .ready]) ∧
    twoStarted.uschedYield = some ({ twoStarted with isFinished := true }, .initialContext) ∧
    ¬ twoStarted.YieldsToFirst (sampleThread 1 .running) ([sampleThread 0 .ready] ++ []) := by
  refine ⟨rfl, ⟨rfl, rfl, ⟨?_, ?_, by decide⟩, ?_, by decide⟩, rfl, ?_⟩
  · exact path_cons rfl rfl rfl
      (path_cons rfl rfl rfl (.nil _))
  · exact path_cons rfl rfl rfl
      (path_cons rfl rfl rfl (.nil _))
  · exact List.forall_mem_cons.mpr ⟨rfl, List.forall_mem_cons.mpr ⟨rfl,
      fun t ht => absurd ht List.not_mem_nil⟩⟩
  · intro hswitch
    have hjump := congrArg (Option.map Prod.snd) hswitch
    cases hjump

end RingScheduler

end OsLabs.Uthreadpool
