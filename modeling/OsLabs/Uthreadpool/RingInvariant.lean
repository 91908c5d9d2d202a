import OsLabs.Foundation.Transition
import OsLabs.Uthreadpool.RingScheduler

/-!
# The ring of `uthreadpool2.c` over every sequence of additions

`add_to_scheduler` and `destroy_scheduler` go round the ring as often as `size` says, without
looking for an end.  `IsRing` says that the memory of the scheduler is one ring of `size` nodes
through `head_uthread`, each with its own thread, and that nothing else is allocated.  It holds
after every sequence of additions, whatever their thread creations answer and whatever the statuses
of the threads are in between, and in a memory of this form `destroy_scheduler` frees every node and
thread once.

A creation that fails changes nothing but `id_generator`.  The counters of the loops are taken to
fit: the stacks of `2 ^ 31` threads fit in no memory.
-/

namespace OsLabs.Uthreadpool.RingScheduler

open Transition

/-- The loop of `destroy_scheduler`; the first argument is how many rounds there are.  The stack of
a thread is unmapped through its record. -/
def destroyLoop : ℕ → Option ℕ → Heap UthreadNode → Heap UthreadRecord →
    Option (Heap UthreadNode × Heap UthreadRecord)
  | 0, _, nodes, uthreads => some (nodes, uthreads)
  | rounds + 1, node, nodes, uthreads =>
    (nodes.load node).bind fun n =>
      (uthreads.load n.uthread).bind fun _ =>
        (uthreads.free n.uthread).bind fun uthreads =>
          (nodes.free node).bind fun nodes => destroyLoop rounds n.next nodes uthreads

/-- `destroy_scheduler`: what it leaves of the nodes and the threads. -/
def destroyScheduler (s : RingScheduler) : Option (Heap UthreadNode × Heap UthreadRecord) :=
  destroyLoop s.size s.headUthread s.nodes s.uthreads

/-- What happens to the scheduler: a task is added, or a thread has another status. -/
inductive RingCall
  | addToScheduler (func : ℕ) (answers : UthreadAnswers)
  | setStatus (uthread : ℕ) (status : UthreadStatus)

/-- One call. -/
def move (s : RingScheduler) : RingCall → Option RingScheduler
  | .addToScheduler func answers => (s.addToScheduler func answers).map Prod.fst
  | .setStatus uthread status =>
    (s.uthreads.modify (some uthread) fun u => { u with status := status }).map
      fun uthreads => { s with uthreads := uthreads }

/-- The allocators answer addresses that are not in use. -/
def Unused (s : RingScheduler) (answers : UthreadAnswers) : Prop :=
  (s.uthreads.load answers.uthread).isNone = true ∧ (s.nodes.load answers.node).isNone = true

/-- What is taken for granted of a call. -/
def Allowed (s : RingScheduler) : RingCall → Prop
  | .addToScheduler _ answers => s.Unused answers
  | .setStatus _ _ => True

instance (s : RingScheduler) : (call : RingCall) → Decidable (s.Allowed call)
  | .addToScheduler _ _ => inferInstanceAs (Decidable (_ ∧ _))
  | .setStatus _ _ => isTrue trivial

/-- The task of the thread can be replaced. -/
def RingThread.isIdle (t : RingThread) : Bool := t.record.status = .idle

/-- The thread with a new task. -/
def RingThread.withTask (t : RingThread) (func : ℕ) : RingThread :=
  { t with record := { t.record with status := .ready, func := some func } }

/-- The memory holds a ring of threads and nothing else. -/
structure IsRing (s : RingScheduler) (ring : List RingThread) : Prop extends s.Holds ring where
  /-- Every allocated node is in the ring. -/
  nodes : ∀ n c, s.nodes.cell n = some c → n ∈ ring.map RingThread.node
  /-- Every allocated thread is in the ring. -/
  uthreads : ∀ n u, s.uthreads.cell n = some u → n ∈ ring.map RingThread.uthread

/-- `next` and `prev` of every node undo each other. -/
def NextPrevInverse (s : RingScheduler) : Prop :=
  ∀ n c, s.nodes.cell n = some c →
    (∃ d, s.nodes.load c.next = some d ∧ d.prev = some n) ∧
      ∃ d, s.nodes.load c.prev = some d ∧ d.next = some n

/-- What `add_to_scheduler` does to a ring of threads. -/
structure AddSound (s : RingScheduler) (ring : List RingThread) (func : ℕ)
    (answers : UthreadAnswers) : Prop where
  /-- The first idle thread gets the task, also when `getcontext` fails. -/
  reuse : ∀ front t back, ring = front ++ t :: back → (∀ u ∈ front, u.isIdle = false) →
    t.isIdle = true → ∃ u, s.addToScheduler func answers = some (u, answers.context) ∧
      u.IsRing (front ++ t.withTask func :: back)
  /-- Without an idle thread, a new node with the task becomes the head of the ring. -/
  grow : (∀ t ∈ ring, t.isIdle = false) → ∀ uthread node,
    answers.uthread = some uthread → answers.stack = true → answers.node = some node →
      ∃ u, s.addToScheduler func answers = some (u, answers.context) ∧
        u.IsRing (⟨node, uthread, .ready, s.idGenerator, some func⟩ ::
          (ring.drop 1 ++ ring.take 1))
  /-- If the thread cannot be created, the ring stays as it is. -/
  fail : (∀ t ∈ ring, t.isIdle = false) →
    answers.uthread = none ∨ answers.stack = false ∨ answers.node = none →
      ∃ u, s.addToScheduler func answers = some (u, false) ∧ u.IsRing ring

variable {s u : RingScheduler} {ring front back rest l : List RingThread} {t : RingThread}
  {start mid stop : Option ℕ} {node uthread m : ℕ} {c d : UthreadNode}

/-! ## The records of the threads -/

/-- The scheduler with another record at the address of a thread. -/
def setRecord (s : RingScheduler) (uthread : ℕ) (record : UthreadRecord) : RingScheduler :=
  { s with uthreads := s.uthreads.set uthread (some record) }

/-- A ring of threads depends only on what is found in memory. -/
lemma IsRing.of_cells (h : s.IsRing ring) (hsize : u.size = s.size)
    (hhead : u.headUthread = s.headUthread) (hnodes : u.nodes.cell = s.nodes.cell)
    (huthreads : u.uthreads.cell = s.uthreads.cell) : u.IsRing ring := by
  refine ⟨⟨hsize.trans h.size, hhead.trans h.head, ?_, ?_, h.nodup⟩, ?_, ?_⟩
  · exact h.closed.congr fun m _ a ha => ⟨a, by rw [hnodes, ha], rfl, rfl, rfl⟩
  · intro t ht
    rw [huthreads]
    exact h.records t ht
  · rw [hnodes]
    exact h.nodes
  · rw [huthreads]
    exact h.uthreads

/-- The record of a thread in the ring may be overwritten. -/
lemma IsRing.setRecord (h : s.IsRing (front ++ t :: back)) (record : UthreadRecord) :
    (s.setRecord t.uthread record).IsRing (front ++ { t with record := record } :: back) := by
  have hnode : (front ++ { t with record := record } :: back).map RingThread.node =
      (front ++ t :: back).map RingThread.node := by
    simp
  have huthread : (front ++ { t with record := record } :: back).map RingThread.uthread =
      (front ++ t :: back).map RingThread.uthread := by
    simp
  obtain ⟨hnot, -⟩ := Heap.nodup_map_middle h.nodup
  refine ⟨⟨?_, ?_, ?_, ?_, ?_⟩, ?_, ?_⟩
  · rw [← List.length_map (f := RingThread.node), hnode, List.length_map]
    exact h.size
  · rw [← List.head?_map, hnode, List.head?_map]
    exact h.head
  · have hpairs : (front ++ { t with record := record } :: back).map
        (fun t => (t.node, some t.uthread)) =
          (front ++ t :: back).map fun t => (t.node, some t.uthread) := by
      simp
    rw [hpairs]
    exact h.closed
  · intro v hv
    change (s.uthreads.set t.uthread (some record)).cell v.uthread = some v.record
    rw [List.mem_append, List.mem_cons, or_left_comm] at hv
    rcases hv with rfl | hv
    · rw [Heap.cell_set_self]
    · have hmem : v ∈ front ++ back := List.mem_append.mpr hv
      have hne : v.uthread ≠ t.uthread := fun heq => hnot (heq ▸ List.mem_map_of_mem hmem)
      rw [Heap.cell_set_of_ne hne]
      refine h.records v ?_
      rw [List.mem_append, List.mem_cons]
      exact hv.imp_right Or.inr
  · rw [huthread]
    exact h.nodup
  · rw [hnode]
    exact h.nodes
  · rw [huthread]
    intro n v hv
    change (s.uthreads.set t.uthread (some record)).cell n = some v at hv
    by_cases hn : n = t.uthread
    · rw [hn]
      simp
    · rw [Heap.cell_set_of_ne hn] at hv
      exact h.uthreads n v hv

/-- The way round the ring from the head. -/
lemma IsRing.path (h : s.IsRing ring) :
    s.nodes.Path UthreadNode.next UthreadNode.uthread s.headUthread
      (ring.map fun t => (t.node, some t.uthread)) s.headUthread := by
  have hhead : s.headUthread = (ring.map fun t => (t.node, some t.uthread)).head?.map Prod.fst := by
    rw [h.head, List.head?_map, Option.map_map]
    rfl
  rw [hhead]
  exact h.closed.forward

/-- Every thread of the ring has its node and its record in memory. -/
lemma IsRing.of_mem (h : s.IsRing ring) (ht : t ∈ ring) :
    s.uthreads.cell t.uthread = some t.record ∧
      ∃ c, s.nodes.cell t.node = some c ∧ c.uthread = some t.uthread :=
  ⟨h.records t ht,
    h.closed.forward.exists_cell (x := (t.node, some t.uthread)) (List.mem_map_of_mem ht)⟩

/-- A thread in memory is in the ring, and its status may be changed. -/
lemma IsRing.exists_setStatus (h : s.IsRing ring) {status : UthreadStatus}
    (hm : s.move (.setStatus uthread status) = some u) : ∃ ring, u.IsRing ring := by
  obtain ⟨uthreads, hmodify, rfl⟩ := Option.map_eq_some_iff.mp hm
  rw [Heap.modify] at hmodify
  obtain ⟨record, hrecord, rfl⟩ := Option.map_eq_some_iff.mp hmodify
  obtain ⟨t, ht, rfl⟩ := List.mem_map.mp (h.uthreads uthread record hrecord)
  obtain ⟨front, back, rfl⟩ := List.append_of_mem ht
  exact ⟨_, h.setRecord { record with status := status }⟩

/-! ## The search and the assignment -/

/-- The search passes threads with another status. -/
lemma searchLoop_append {status : UthreadStatus}
    (hpath : s.nodes.Path UthreadNode.next UthreadNode.uthread start
      (l.map fun t => (t.node, some t.uthread)) mid)
    (hrecords : ∀ t ∈ l, s.uthreads.cell t.uthread = some t.record)
    (hnone : ∀ t ∈ l, t.record.status ≠ status) (rounds cnt : ℕ) :
    s.searchLoop status (l.length + rounds) start cnt =
      s.searchLoop status rounds mid (cnt + l.length) := by
  induction l generalizing start cnt with
  | nil =>
    obtain rfl := hpath.eq_of_nil
    rw [List.length_nil, Nat.zero_add, Nat.add_zero]
  | cons t l ih =>
    obtain rfl : start = some t.node := hpath.start_eq
    obtain ⟨node, -, -, hstatus, hrest⟩ := statusAt_of_path hpath (hrecords t List.mem_cons_self)
    have hrounds : (t :: l).length + rounds = l.length + rounds + 1 := by
      rw [List.length_cons]
      omega
    have hround : s.searchLoop status (l.length + rounds + 1) (some t.node) cnt =
        s.searchLoop status (l.length + rounds) node.next (cnt + 1) := by
      rw [searchLoop, hstatus, Option.bind_some]
      exact if_neg (hnone t List.mem_cons_self)
    rw [hrounds, hround, ih hrest (fun u hu => hrecords u (List.mem_cons_of_mem t hu))
      (fun u hu => hnone u (List.mem_cons_of_mem t hu)), List.length_cons, Nat.add_assoc,
      Nat.add_comm 1]

/-- A thread that is not idle. -/
lemma status_ne_idle (h : t.isIdle = false) : t.record.status ≠ .idle :=
  of_decide_eq_false h

/-- Without an idle thread the search makes all its rounds. -/
lemma IsRing.search_none (h : s.IsRing ring) (hnone : ∀ t ∈ ring, t.isIdle = false) :
    ∃ node, s.searchLoop .idle s.size s.headUthread 0 = some (node, s.size) := by
  have hloop := searchLoop_append h.path h.records (fun t ht => status_ne_idle (hnone t ht)) 0 0
  rw [Nat.add_zero, Nat.zero_add, ← h.size] at hloop
  exact ⟨_, hloop⟩

/-- Otherwise it stops at the first idle thread. -/
lemma IsRing.search_idle (h : s.IsRing (front ++ t :: back))
    (hfront : ∀ u ∈ front, u.isIdle = false) (ht : t.isIdle = true) :
    s.searchLoop .idle s.size s.headUthread 0 = some (some t.node, front.length) := by
  have hring := h.path
  rw [List.map_append] at hring
  obtain ⟨mid, hpath, hrest⟩ := hring.split
  obtain rfl : mid = some t.node := hrest.start_eq
  obtain ⟨node, -, -, hstatus, -⟩ := statusAt_of_path hrest (h.records t (by simp))
  have hsize : s.size = front.length + (back.length + 1) := by
    rw [h.size, List.length_append, List.length_cons]
  rw [hsize, searchLoop_append hpath (fun u hu => h.records u (List.mem_append_left _ hu))
    (fun u hu => status_ne_idle (hfront u hu)), searchLoop, hstatus, Option.bind_some,
    Nat.zero_add]
  exact if_pos (of_decide_eq_true ht)

/-- The thread of a node gets the task. -/
lemma IsRing.assignTask (h : s.IsRing (front ++ t :: back)) (func : ℕ) :
    ∃ u, s.assignTask (some t.node) func = some u ∧
      u.IsRing (front ++ t.withTask func :: back) := by
  obtain ⟨hrecord, c, hc, huthread⟩ := h.of_mem (t := t) (by simp)
  refine ⟨_, ?_, h.setRecord { t.record with status := .ready, func := some func }⟩
  rw [RingScheduler.assignTask, Heap.load_some, hc, Option.bind_some, huthread,
    Heap.modify_of_cell hrecord]
  rfl

/-- The first idle thread gets the task. -/
lemma IsRing.reuse (h : s.IsRing (front ++ t :: back)) (hfront : ∀ u ∈ front, u.isIdle = false)
    (ht : t.isIdle = true) (func : ℕ) (answers : UthreadAnswers) :
    ∃ u, s.addToScheduler func answers = some (u, answers.context) ∧
      u.IsRing (front ++ t.withTask func :: back) := by
  obtain ⟨u, hassign, hring⟩ := h.assignTask func
  have hsize : ¬ s.size ≤ front.length := by
    rw [h.size, List.length_append, List.length_cons]
    omega
  refine ⟨u, ?_, hring⟩
  rw [addToScheduler, h.search_idle hfront ht, Option.bind_some]
  simp only [if_neg hsize, hassign, Option.map_some]

/-! ## A new node -/

/-- The memory after a node was put behind the head. -/
lemma exists_linkNode (hhead : s.headUthread = some t.node) (hc : s.nodes.cell t.node = some c)
    (hm : c.next = some m) (hd : s.nodes.cell m = some d) (hfree : s.nodes.cell node = none)
    (uthread : ℕ) :
    ∃ nodes, s.linkNode node uthread = some nodes ∧
      nodes.cell node = some ⟨some m, some t.node, some uthread⟩ ∧
      (∀ y b, s.nodes.cell y = some b → nodes.cell y = some
        { b with
          next := if y = t.node then some node else b.next
          prev := if y = m then some node else b.prev }) ∧
      ∀ y, y ≠ node → s.nodes.cell y = none → nodes.cell y = none := by
  have hne : ∀ y b, s.nodes.cell y = some b → y ≠ node := fun y b hy => Heap.ne_of_cell hy hfree
  have hcell : ∀ y b, s.nodes.cell y = some b →
      (s.nodes.set node (some ⟨some m, some t.node, some uthread⟩)).cell y = some b := by
    intro y b hy
    rw [Heap.cell_set_of_ne (hne y b hy), hy]
  have hnew : (s.nodes.set node (some ⟨some m, some t.node, some uthread⟩)).cell node =
      some ⟨some m, some t.node, some uthread⟩ := by
    rw [Heap.cell_set_self]
  obtain ⟨nodes₁, hmodify₁, hkeep₁, hnone₁⟩ :=
    Heap.exists_modify (hcell m d hd) fun n => { n with prev := some node }
  obtain ⟨nodes₂, hmodify₂, hkeep₂, hnone₂⟩ :=
    Heap.exists_modify (hkeep₁ t.node c (hcell t.node c hc)) fun n => { n with next := some node }
  refine ⟨nodes₂, ?_, ?_, fun y b hy => ?_, fun y hy hnone => ?_⟩
  · simp only [linkNode, hhead, hc, hm, Option.bind_some, Heap.alloc_of_free hfree, hmodify₁,
      hmodify₂]
  · rw [hkeep₂ node _ (hkeep₁ node _ hnew), if_neg (hne m d hd).symm,
      if_neg (hne t.node c hc).symm]
  · rw [hkeep₂ y _ (hkeep₁ y b (hcell y b hy))]
    split_ifs <;> rfl
  · refine hnone₂ y (hnone₁ y ?_)
    rw [Heap.cell_set_of_ne hy, hnone]

/-- A node is put into the ring, behind the head or alone. -/
lemma IsRing.linkNode (h : s.IsRing ring) (hfree : s.nodes.cell node = none) (uthread : ℕ) :
    ∃ nodes, s.linkNode node uthread = some nodes ∧
      nodes.Ring UthreadNode.next UthreadNode.prev UthreadNode.uthread
        ((node, some uthread) ::
          (ring.drop 1 ++ ring.take 1).map fun t => (t.node, some t.uthread)) ∧
      ∀ n c, nodes.cell n = some c → n = node ∨ ∃ c, s.nodes.cell n = some c := by
  cases ring with
  | nil =>
    have hhead : s.headUthread = none := h.head
    refine ⟨s.nodes.set node (some ⟨some node, some node, some uthread⟩), ?_, ?_, ?_⟩
    · rw [RingScheduler.linkNode, hhead]
      exact Heap.alloc_of_free hfree _
    · have hcell : (s.nodes.set node (some ⟨some node, some node, some uthread⟩)).cell node =
          some ⟨some node, some node, some uthread⟩ := by
        rw [Heap.cell_set_self]
      exact Heap.Ring.single hcell rfl rfl
    · intro n c hn
      by_cases heq : n = node
      · exact Or.inl heq
      · rw [Heap.cell_set_of_ne heq] at hn
        exact Or.inr ⟨c, hn⟩
  | cons t ring =>
    have hhead : s.headUthread = some t.node := h.head
    obtain ⟨-, c, hc, huthread⟩ := h.of_mem (t := t) List.mem_cons_self
    have hclosed := h.closed
    rw [List.map_cons] at hclosed
    obtain ⟨c', hc', -, hrest⟩ := hclosed.forward.head
    obtain rfl := Option.some.inj (hc.symm.trans hc')
    -- the cell behind the head may be the head itself
    obtain ⟨v, hv, hnext, hfirst⟩ : ∃ v ∈ t :: ring, c.next = some v.node ∧
        (ring ++ [t]).head? = some v := by
      cases ring with
      | nil => exact ⟨t, List.mem_cons_self, hrest.eq_of_nil, rfl⟩
      | cons v ring => exact ⟨v, by simp, hrest.start_eq, rfl⟩
    obtain ⟨-, d, hd, -⟩ := h.of_mem hv
    obtain ⟨nodes, hlink, hnew, hkeep, hnone⟩ := exists_linkNode hhead hc hnext hd hfree uthread
    have hhead' : (ring.map (fun t => (t.node, some t.uthread)) ++
        [(t.node, some t.uthread)]).head?.map Prod.fst = some v.node := by
      have hmap : ring.map (fun t => (t.node, some t.uthread)) ++ [(t.node, some t.uthread)] =
          (ring ++ [t]).map fun t => (t.node, some t.uthread) := by
        simp
      rw [hmap, List.head?_map, hfirst]
      rfl
    refine ⟨nodes, hlink, ?_, fun n e hn => ?_⟩
    · have hring := hclosed.insert hfree hnew hhead'.symm rfl
        (fun y _ b hb => ⟨_, hkeep y b hb, rfl, rfl, ?_⟩)
      · simpa using hring
      · rw [hhead']
        simp
    · by_cases heq : n = node
      · exact Or.inl heq
      · rcases Option.eq_none_or_eq_some (s.nodes.cell n) with hcell | ⟨b, hb⟩
        · rw [hnone n heq hcell] at hn
          cases hn
        · exact Or.inr ⟨b, hb⟩

/-- A successful creation puts an idle thread at the head of the ring. -/
lemma IsRing.createUthread (h : s.IsRing ring) (context : Bool)
    (huthread : s.uthreads.cell uthread = none) (hnode : s.nodes.cell node = none) :
    ∃ u, s.createUthread ⟨some uthread, true, some node, context⟩ = some (u, true) ∧
      u.headUthread = some node ∧
      u.IsRing (⟨node, uthread, .idle, s.idGenerator, none⟩ :: (ring.drop 1 ++ ring.take 1)) := by
  have hperm : (ring.drop 1 ++ ring.take 1).Perm ring := by
    have hcomm : (ring.drop 1 ++ ring.take 1).Perm (ring.take 1 ++ ring.drop 1) :=
      List.perm_append_comm
    rwa [List.take_append_drop] at hcomm
  obtain ⟨nodes, hlink, hring, hnodes⟩ := h.linkNode hnode uthread
  have hnot : uthread ∉ (ring.drop 1 ++ ring.take 1).map RingThread.uthread := by
    intro hmem
    obtain ⟨t, ht, rfl⟩ := List.mem_map.mp hmem
    have hrecord := h.records t (hperm.mem_iff.mp ht)
    rw [huthread] at hrecord
    cases hrecord
  refine ⟨{ s with
      idGenerator := s.idGenerator + 1
      uthreads := s.uthreads.set uthread (some ⟨.idle, s.idGenerator, none⟩)
      nodes := nodes
      headUthread := some node
      size := s.size + 1 }, ?_, rfl, ⟨?_, rfl, hring, ?_, ?_⟩, ?_, ?_⟩
  · simp only [RingScheduler.createUthread, Heap.alloc_of_free huthread, Option.bind_some]
    exact congrArg (Option.map _) hlink
  · rw [List.length_cons, hperm.length_eq, h.size]
  · intro t ht
    rcases List.mem_cons.mp ht with rfl | ht
    · rw [Heap.cell_set_self]
    · have hne : t.uthread ≠ uthread := fun heq => hnot (heq ▸ List.mem_map_of_mem ht)
      rw [Heap.cell_set_of_ne hne]
      exact h.records t (hperm.mem_iff.mp ht)
  · rw [List.map_cons, List.nodup_cons]
    exact ⟨hnot, (hperm.map RingThread.uthread).nodup_iff.mpr h.nodup⟩
  · intro n c hn
    rw [List.map_cons, List.mem_cons]
    refine (hnodes n c hn).imp_right fun hold => ?_
    obtain ⟨d, hd⟩ := hold
    exact (hperm.map RingThread.node).mem_iff.mpr (h.nodes n d hd)
  · intro n v hn
    rw [List.map_cons, List.mem_cons]
    by_cases heq : n = uthread
    · exact Or.inl heq
    · rw [Heap.cell_set_of_ne heq] at hn
      exact Or.inr ((hperm.map RingThread.uthread).mem_iff.mpr (h.uthreads n v hn))

/-- A creation that fails leaves the ring as it is. -/
lemma IsRing.createUthread_fail (h : s.IsRing ring) {answers : UthreadAnswers}
    (hunused : s.Unused answers)
    (hfail : answers.uthread = none ∨ answers.stack = false ∨ answers.node = none) :
    ∃ u, s.createUthread answers = some (u, false) ∧ u.IsRing ring := by
  obtain ⟨uthread, stack, node, context⟩ := answers
  cases uthread with
  | none => exact ⟨s, rfl, h⟩
  | some uthread =>
    have hfree : s.uthreads.cell uthread = none := Option.isNone_iff_eq_none.mp hunused.1
    have hcell : (s.uthreads.set uthread (some ⟨.idle, s.idGenerator, none⟩)).cell uthread =
        some ⟨.idle, s.idGenerator, none⟩ := by
      rw [Heap.cell_set_self]
    refine ⟨{ s with
      idGenerator := s.idGenerator + 1
      uthreads := (s.uthreads.set uthread (some ⟨.idle, s.idGenerator, none⟩)).set uthread none },
      ?_, h.of_cells rfl rfl rfl ?_⟩
    · simp only [RingScheduler.createUthread, Heap.alloc_of_free hfree, Option.bind_some,
        Heap.free_of_cell hcell, Option.map_some]
      split
      · simp at hfail
      · rfl
    · rw [Heap.cell_set, Heap.cell_set, Function.update_idem, ← hfree, Function.update_eq_self]

/-- A creation is tried when no thread is idle. -/
lemma IsRing.addToScheduler_of_none (h : s.IsRing ring) (hnone : ∀ t ∈ ring, t.isIdle = false)
    (func : ℕ) (answers : UthreadAnswers) :
    s.addToScheduler func answers = (s.createUthread answers).bind fun (s, created) =>
      if created then (s.assignTask s.headUthread func).map fun s => (s, answers.context)
      else some (s, false) := by
  obtain ⟨node, hloop⟩ := h.search_none hnone
  rw [addToScheduler, hloop, Option.bind_some]
  exact if_pos (Nat.le_refl _)

/-- `add_to_scheduler` does to the ring what it should. -/
lemma IsRing.addSound (h : s.IsRing ring) (func : ℕ) {answers : UthreadAnswers}
    (hunused : s.Unused answers) : AddSound s ring func answers := by
  refine ⟨?_, ?_, ?_⟩
  · rintro front t back rfl hfront ht
    exact h.reuse hfront ht func answers
  · intro hnone uthread node huthread hstack hnode
    obtain ⟨_, _, _, context⟩ := answers
    cases huthread
    cases hstack
    cases hnode
    obtain ⟨u, hcreate, hhead, hring⟩ := h.createUthread context
      (Option.isNone_iff_eq_none.mp hunused.1) (Option.isNone_iff_eq_none.mp hunused.2)
    rw [← List.nil_append (_ :: _)] at hring
    obtain ⟨v, hassign, hring'⟩ := hring.assignTask func
    refine ⟨v, ?_, hring'⟩
    rw [h.addToScheduler_of_none hnone, hcreate, Option.bind_some]
    simp only [if_true, hhead, hassign, Option.map_some]
  · intro hnone hfail
    obtain ⟨u, hcreate, hring⟩ := h.createUthread_fail hunused hfail
    refine ⟨u, ?_, hring⟩
    rw [h.addToScheduler_of_none hnone, hcreate, Option.bind_some]
    rfl

/-! ## Destruction -/

/-- The loop of `destroy_scheduler` frees the nodes and threads on its way, and finds each of them
allocated. -/
lemma exists_destroyLoop {nodes : Heap UthreadNode} {uthreads : Heap UthreadRecord}
    (hpath : nodes.Path UthreadNode.next UthreadNode.uthread start
      (l.map fun t => (t.node, some t.uthread)) stop)
    (hnodes : (l.map RingThread.node).Nodup) (huthreads : (l.map RingThread.uthread).Nodup)
    (hrecords : ∀ t ∈ l, uthreads.cell t.uthread = some t.record) :
    ∃ nodes' uthreads', destroyLoop l.length start nodes uthreads = some (nodes', uthreads') ∧
      (∀ n, nodes.cell n = none ∨ n ∈ l.map RingThread.node → nodes'.cell n = none) ∧
      ∀ n, uthreads.cell n = none ∨ n ∈ l.map RingThread.uthread → uthreads'.cell n = none := by
  induction l generalizing start nodes uthreads with
  | nil =>
    refine ⟨nodes, uthreads, rfl, fun n hn => ?_, fun n hn => ?_⟩
    · exact hn.resolve_right List.not_mem_nil
    · exact hn.resolve_right List.not_mem_nil
  | cons t l ih =>
    rw [List.map_cons, List.nodup_cons] at hnodes huthreads
    obtain rfl : start = some t.node := hpath.start_eq
    obtain ⟨c, hc, huthread, hrest⟩ := hpath.head
    have hrecord := hrecords t List.mem_cons_self
    have hnot : t.node ∉ (l.map fun t => (t.node, some t.uthread)).map Prod.fst := by
      rw [List.map_map]
      exact hnodes.1
    have hrecords' : ∀ v ∈ l, (uthreads.set t.uthread none).cell v.uthread = some v.record := by
      intro v hv
      have hne : v.uthread ≠ t.uthread := fun heq => huthreads.1 (heq ▸ List.mem_map_of_mem hv)
      rw [Heap.cell_set_of_ne hne]
      exact hrecords v (List.mem_cons_of_mem t hv)
    obtain ⟨nodes', uthreads', hloop, hnone, hnone'⟩ :=
      ih (hrest.set_of_notMem hnot none) hnodes.2 huthreads.2 hrecords'
    refine ⟨nodes', uthreads', ?_, fun n hn => hnone n ?_, fun n hn => hnone' n ?_⟩
    · simp only [List.length_cons, destroyLoop, Heap.load_some, hc, Option.bind_some, huthread,
        hrecord, Heap.free_of_cell hrecord, Heap.free_of_cell hc, hloop]
    · rw [List.map_cons, List.mem_cons, ← or_assoc] at hn
      exact hn.imp_left (nodes.cell_set_none ·)
    · rw [List.map_cons, List.mem_cons, ← or_assoc] at hn
      exact hn.imp_left (uthreads.cell_set_none ·)

/-- `destroy_scheduler` reads and frees only what is allocated, and nothing stays allocated. -/
lemma IsRing.destroyScheduler (h : s.IsRing ring) :
    ∃ nodes uthreads, s.destroyScheduler = some (nodes, uthreads) ∧
      (∀ n, nodes.cell n = none) ∧ ∀ n, uthreads.cell n = none := by
  have hnodup : (ring.map RingThread.node).Nodup := by
    have hnd := h.closed.nodup
    rwa [List.map_map] at hnd
  obtain ⟨nodes, uthreads, hloop, hnone, hnone'⟩ :=
    exists_destroyLoop h.path hnodup h.nodup h.records
  rw [← h.size] at hloop
  refine ⟨nodes, uthreads, hloop, fun n => hnone n ?_, fun n => hnone' n ?_⟩
  · exact (Option.eq_none_or_eq_some (s.nodes.cell n)).imp_right fun ⟨c, hc⟩ => h.nodes n c hc
  · exact (Option.eq_none_or_eq_some (s.uthreads.cell n)).imp_right fun ⟨v, hv⟩ =>
      h.uthreads n v hv

/-! ## Runs -/

/-- In a ring `next` and `prev` undo each other. -/
lemma IsRing.nextPrevInverse (h : s.IsRing ring) : s.NextPrevInverse := by
  intro n c hc
  have hmem := h.nodes n c hc
  refine h.closed.inverse ?_ hc
  rwa [List.map_map]

/-- The first idle thread of a ring, if it has one. -/
lemma exists_first_idle (ring : List RingThread) :
    (∀ t ∈ ring, t.isIdle = false) ∨ ∃ front t back, ring = front ++ t :: back ∧
      (∀ u ∈ front, u.isIdle = false) ∧ t.isIdle = true := by
  rcases Option.eq_none_or_eq_some (ring.find? RingThread.isIdle) with hnone | ⟨t, ht⟩
  · refine Or.inl fun t ht => ?_
    simpa using List.find?_eq_none.mp hnone t ht
  · obtain ⟨hidle, front, back, hsplit, hfront⟩ := List.find?_eq_some_iff_append.mp ht
    refine Or.inr ⟨front, t, back, hsplit, fun u hu => ?_, hidle⟩
    simpa using hfront u hu

/-- Every call keeps the ring. -/
lemma IsRing.move {call : RingCall} (h : s.IsRing ring) (hok : s.Allowed call)
    (hm : s.move call = some u) : ∃ ring, u.IsRing ring := by
  cases call with
  | setStatus uthread status => exact h.exists_setStatus hm
  | addToScheduler func answers =>
    have hadd := h.addSound func hok
    obtain ⟨⟨v, created⟩, hv, rfl⟩ := Option.map_eq_some_iff.mp hm
    have hexists : ∃ w b ring, s.addToScheduler func answers = some (w, b) ∧ w.IsRing ring := by
      rcases exists_first_idle ring with hnone | ⟨front, t, back, hsplit, hfront, ht⟩
      · obtain ⟨uthread, stack, node, context⟩ := answers
        match uthread, stack, node with
        | some uthread, true, some node =>
          obtain ⟨w, hw, hring⟩ := hadd.grow hnone uthread node rfl rfl rfl
          exact ⟨w, context, _, hw, hring⟩
        | none, stack, node =>
          obtain ⟨w, hw, hring⟩ := hadd.fail hnone (Or.inl rfl)
          exact ⟨w, false, _, hw, hring⟩
        | some uthread, false, node =>
          obtain ⟨w, hw, hring⟩ := hadd.fail hnone (Or.inr (Or.inl rfl))
          exact ⟨w, false, _, hw, hring⟩
        | some uthread, true, none =>
          obtain ⟨w, hw, hring⟩ := hadd.fail hnone (Or.inr (Or.inr rfl))
          exact ⟨w, false, _, hw, hring⟩
      · obtain ⟨w, hw, hring⟩ := hadd.reuse front t back hsplit hfront ht
        exact ⟨w, answers.context, _, hw, hring⟩
    obtain ⟨w, b, ring, hw, hring⟩ := hexists
    obtain rfl := (Prod.mk.inj (Option.some.inj (hv.symm.trans hw))).1
    exact ⟨ring, hring⟩

/-- The empty ring. -/
lemma isRing_initScheduler : initScheduler.IsRing [] := by
  refine ⟨⟨rfl, rfl, ⟨.nil _, .nil _, List.nodup_nil⟩, ?_, List.nodup_nil⟩, ?_, ?_⟩
  · exact fun t ht => absurd ht List.not_mem_nil
  · intro n c hc
    cases hc
  · intro n v hv
    cases hv

/-- After every sequence of additions, with any answers of the allocators and of `getcontext` and
any statuses of the threads in between, the memory is one ring of `size` nodes through
`head_uthread` whose `next` and `prev` undo each other; an addition gives the task to the first idle
thread or makes the ring longer by one node with the task; and `destroy_scheduler` frees everything
once and reads only what is allocated. -/
theorem ring_of_run (h : Run RingScheduler.move Allowed initScheduler s) :
    ∃ ring, s.IsRing ring ∧ s.NextPrevInverse ∧
      (∀ func answers, s.Unused answers → AddSound s ring func answers) ∧
      ∃ nodes uthreads, s.destroyScheduler = some (nodes, uthreads) ∧
        (∀ n, nodes.cell n = none) ∧ ∀ n, uthreads.cell n = none := by
  have hring : ∃ ring, s.IsRing ring := by
    refine h.invariant (I := fun s => ∃ ring, s.IsRing ring) ⟨[], isRing_initScheduler⟩ ?_
    rintro t call u ⟨ring, hring⟩ hok hm
    exact hring.move hok hm
  obtain ⟨ring, hring⟩ := hring
  exact ⟨ring, hring, hring.nextPrevInverse, fun func _ hunused => hring.addSound func hunused,
    hring.destroyScheduler⟩

/-- Two tasks, a failed creation, and a third task for the thread that became idle, with a failing
`getcontext`. -/
def sampleCalls : List RingCall :=
  [.addToScheduler 0 ⟨some 0, true, some 0, true⟩,
    .addToScheduler 1 ⟨some 1, true, some 1, true⟩,
    .addToScheduler 2 ⟨some 2, false, some 2, true⟩, .setStatus 0 .idle,
    .addToScheduler 3 ⟨none, true, none, false⟩]

/-- The sequence leaves a ring of two nodes. -/
theorem ring_of_run_sampleCalls :
    ∃ s, execWhere RingScheduler.move Allowed initScheduler sampleCalls = some s ∧ s.size = 2 ∧
      ∃ ring, s.IsRing ring ∧ s.NextPrevInverse ∧
        (∀ func answers, s.Unused answers → AddSound s ring func answers) ∧
        ∃ nodes uthreads, s.destroyScheduler = some (nodes, uthreads) ∧
          (∀ n, nodes.cell n = none) ∧ ∀ n, uthreads.cell n = none := by
  have hsome : (execWhere RingScheduler.move Allowed initScheduler sampleCalls).isSome = true := by
    decide
  have hrun := Run.get_execWhere RingScheduler.move Allowed initScheduler sampleCalls hsome
  exact ⟨_, (Option.some_get hsome).symm, rfl, ring_of_run hrun⟩

end OsLabs.Uthreadpool.RingScheduler
