import OsLabs.Foundation.Heap
import OsLabs.Foundation.MachineInt

/-!
# The linked list of the queues

The list part of `queue_t` of `lab2/src/2`, which the four implementations have in common: nodes in
memory, the pointers `first` and `last`, the number of elements and the two counters of type `long`.
`link` is the part of `queue_add` between the allocation of a node and the end of its update,
`takeFirst` the part of `queue_get` between the read of `first` and the end of its update.  Both
answer `none` where the code goes through a bad pointer.

`takeFirst` does not touch `last`: when it takes the only node, `last` keeps the address of a freed
node.  `Represents q l` says that `q` holds the values of `l`, in this order, in nodes at the
addresses of `l`; about `last` it says something only when `l` has an element.
-/

namespace OsLabs.BoundedQueue

/-- Why a call ends the program. -/
inductive Failure
  /-- An assertion does not hold. -/
  | assertion
  /-- A pointer is followed that is NULL or leads to freed memory. -/
  | badPointer
  /-- `malloc` has failed, and `abort` is called. -/
  | outOfMemory
  deriving DecidableEq, Repr

/-- What a thread does: it calls `queue_add` again and again, or `queue_get`. -/
inductive Role
  | producer
  | consumer
  deriving DecidableEq, Repr

/-- When each thread is at a place of its own function, this is so after one thread has moved. -/
lemma role_update {T P : Type} [DecidableEq T] {f : T → P} {roleOf : P → Option Role}
    {role : T → Role} {t : T} {p : P} (h : ∀ t r, roleOf (f t) = some r → role t = r)
    (hp : ∀ r, roleOf p = some r → role t = r) :
    ∀ u r, roleOf (Function.update f t p u) = some r → role u = r :=
  (Function.forall_update_iff f fun u q => ∀ r, roleOf q = some r → role u = r).mpr
    ⟨hp, fun u _ => h u⟩

/-- `qnode_t`. -/
structure QNode where
  val : ℤ
  next : Option ℕ

/-- The fields of `queue_t` that the list operations use, with the nodes in memory. -/
structure NodeList where
  nodes : Heap QNode
  first : Option ℕ
  last : Option ℕ
  count : ℤ
  /-- A `long`. -/
  addCount : ℤ
  /-- A `long`. -/
  getCount : ℤ

namespace NodeList

/-- The list that `queue_init` makes. -/
def initial : NodeList := ⟨Heap.empty, none, none, 0, 0, 0⟩

/-- The allocation of a node in `queue_add`: `malloc` answers the address `new`. -/
def allocate (q : NodeList) (new : ℕ) (val : ℤ) : Option NodeList :=
  (q.nodes.alloc new ⟨val, none⟩).map fun nodes => { q with nodes := nodes }

/-- From `if (!q->first)` to `q->add_count++` in `queue_add`. -/
def link (q : NodeList) (new : ℕ) : Option NodeList :=
  if q.first.isNone then
    some { q with first := some new, last := some new, count := q.count + 1,
                  addCount := wrap 64 (q.addCount + 1) }
  else do
    let nodes ← q.nodes.modify q.last fun node => { node with next := some new }
    let last ← nodes.load q.last
    some { q with nodes := nodes, last := last.next, count := q.count + 1,
                  addCount := wrap 64 (q.addCount + 1) }

/-- From `qnode_t *tmp = q->first` to `q->get_count++` in `queue_get`, with the value stored in
`*val`. -/
def takeFirst (q : NodeList) : Option (ℤ × NodeList) := do
  let tmp ← q.nodes.load q.first
  let nodes ← q.nodes.free q.first
  some (tmp.val, { q with nodes := nodes, first := tmp.next, count := q.count - 1,
                          getCount := wrap 64 (q.getCount + 1) })

/-- The list holds the given values at the given addresses. -/
structure Represents (q : NodeList) (l : List (ℕ × ℤ)) : Prop where
  /-- From `first` the links lead through the nodes. -/
  path : q.nodes.Path QNode.next QNode.val q.first l none
  /-- A last node is where `last` points to. -/
  last : ∀ x ∈ l.getLast?, q.last = some x.1
  count : q.count = l.length
  /-- The counters may have wrapped. -/
  counters : wrap 64 (q.addCount - q.getCount) = wrap 64 q.count

variable {q q' : NodeList} {l : List (ℕ × ℤ)} {x : ℕ × ℤ} {new : ℕ} {val : ℤ}

/-- The new list is empty. -/
lemma represents_initial : Represents initial [] :=
  ⟨.nil _, fun _ h => (Option.not_mem_none _ h).elim, rfl, rfl⟩

/-- `first` is NULL exactly for the empty list. -/
lemma Represents.first_isNone (h : Represents q l) : q.first.isNone = l.isEmpty := by
  cases l with
  | nil => rw [h.path.eq_of_nil]; rfl
  | cons x l => rw [h.path.start_eq]; rfl

/-- The counters of a list after an addition. -/
private lemma counters_succ (h : Represents q l) :
    wrap 64 (wrap 64 (q.addCount + 1) - q.getCount) = wrap 64 (q.count + 1) := by
  rw [wrap_wrap_sub, show q.addCount + 1 - q.getCount = q.addCount - q.getCount + 1 by omega]
  exact wrap_add_congr h.counters 1

/-- The counters of a list after a removal. -/
private lemma counters_pred (h : Represents q l) :
    wrap 64 (q.addCount - wrap 64 (q.getCount + 1)) = wrap 64 (q.count - 1) := by
  rw [wrap_sub_wrap, show q.addCount - (q.getCount + 1) = q.addCount - q.getCount + -1 by omega,
    wrap_add_congr h.counters (-1), Int.sub_eq_add_neg]

/-- An allocation keeps the list and puts the node at a free address. -/
lemma Represents.allocate (h : Represents q l) (hal : q.allocate new val = some q') :
    Represents q' l ∧ q.nodes.cell new = none ∧
      q'.nodes.cell = Function.update q.nodes.cell new (some ⟨val, none⟩) := by
  unfold NodeList.allocate at hal
  obtain ⟨nodes, hnodes, rfl⟩ := Option.map_eq_some_iff.mp hal
  obtain ⟨hfree, hcell⟩ := Heap.alloc_eq_some hnodes
  refine ⟨⟨h.path.congr fun n hn a ha => ⟨a, ?_, rfl, rfl⟩, h.last, h.count, h.counters⟩,
    hfree, hcell⟩
  rw [hcell, Function.update_of_ne (Heap.ne_of_cell ha hfree), ha]

/-- Every free address may be allocated. -/
lemma exists_allocate (val : ℤ) (hfree : q.nodes.cell new = none) :
    ∃ q', q.allocate new val = some q' :=
  ⟨_, by rw [allocate, Heap.alloc_of_free hfree]; rfl⟩

/-- An address in use is not allocated. -/
lemma allocate_of_used (val : ℤ) (hused : q.nodes.cell new ≠ none) :
    q.allocate new val = none := by
  rw [allocate, Heap.alloc, if_neg (by simpa using hused)]
  rfl

/-- A new node is linked behind the others; no other cell outside the list changes. -/
lemma Represents.link (h : Represents q l) (hnew : q.nodes.cell new = some ⟨val, none⟩)
    (hnot : new ∉ l.map Prod.fst) :
    ∃ q', q.link new = some q' ∧ Represents q' (l ++ [(new, val)]) ∧
      ∀ n ∉ l.map Prod.fst, q'.nodes.cell n = q.nodes.cell n := by
  have hlen : q.count + 1 = ((l ++ [(new, val)]).length : ℤ) := by
    rw [List.length_append, h.count]
    rfl
  rcases l.eq_nil_or_concat' with rfl | ⟨l, x, rfl⟩
  · have hnone : q.first.isNone = true := h.first_isNone
    refine ⟨_, by rw [NodeList.link, if_pos hnone], ⟨.cons hnew (.nil _), ?_, hlen, ?_⟩, ?_⟩
    · rintro _ ⟨⟩
      rfl
    · exact counters_succ h
    · exact fun n _ => rfl
  · have hfirst : q.first.isNone = false := by rw [h.first_isNone]; cases l <;> rfl
    have hlast : q.last = some x.1 := h.last x (by rw [List.getLast?_concat]; rfl)
    obtain ⟨a, ha, hval⟩ := h.path.exists_cell (List.mem_append_right l (List.mem_singleton_self x))
    have hnd := h.path.nodup
    rw [List.map_append, List.nodup_append] at hnd
    have hx : x.1 ∉ l.map Prod.fst := fun hmem => hnd.2.2 _ hmem x.1 (by simp) rfl
    have hne : new ≠ x.1 := fun heq => hnot (by simp [heq])
    -- the last node gets its link, and `last` follows it
    have hpath := h.path.relink hx (b := { a with next := some new }) hval
    refine ⟨{ q with nodes := q.nodes.set x.1 (some { a with next := some new }),
                     last := some new, count := q.count + 1,
                     addCount := wrap 64 (q.addCount + 1) }, ?_, ⟨?_, ?_, hlen, ?_⟩, ?_⟩
    · simp [NodeList.link, hfirst, hlast, Heap.modify_of_cell ha]
    · have hnew' : (q.nodes.set x.1 (some { a with next := some new })).cell new =
          some ⟨val, none⟩ := by rw [Heap.cell_set_of_ne hne, hnew]
      exact hpath.append (.cons hnew' (.nil _))
    · intro y hy
      rw [List.getLast?_concat, Option.mem_some_iff] at hy
      rw [← hy]
    · exact counters_succ h
    · intro n hn
      have hnx : n ≠ x.1 := fun heq => hn (by simp [heq])
      rw [Heap.cell_set_of_ne hnx]

/-- The first node is taken and freed; no other cell changes. -/
lemma Represents.takeFirst (h : Represents q (x :: l)) :
    ∃ q', q.takeFirst = some (x.2, q') ∧ Represents q' l ∧
      q'.nodes.cell = Function.update q.nodes.cell x.1 none := by
  obtain ⟨a, ha, hval, hrest⟩ := h.path.head
  have hfirst := h.path.start_eq
  have hnd := h.path.nodup
  rw [List.map_cons, List.nodup_cons] at hnd
  refine ⟨{ q with nodes := q.nodes.set x.1 none, first := a.next, count := q.count - 1,
                   getCount := wrap 64 (q.getCount + 1) }, ?_, ⟨?_, ?_, ?_, ?_⟩, ?_⟩
  · simp [NodeList.takeFirst, hfirst, ha, Heap.free_of_cell ha, hval]
  · exact hrest.set_of_notMem hnd.1 none
  · intro y hy
    refine h.last y ?_
    rw [Option.mem_def] at hy ⊢
    rw [List.getLast?_cons, hy]
    rfl
  · have hcount := h.count
    rw [List.length_cons] at hcount
    show q.count - 1 = (l.length : ℤ)
    omega
  · show wrap 64 (q.addCount - wrap 64 (q.getCount + 1)) = wrap 64 (q.count - 1)
    exact counters_pred h
  · rw [Heap.cell_set]

end NodeList

end OsLabs.BoundedQueue
