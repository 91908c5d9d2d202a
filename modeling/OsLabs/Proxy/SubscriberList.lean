import OsLabs.Foundation.DoublyLinked
import OsLabs.Proxy.SessionRun

/-!
# The list of subscribers

`subscribe`, `unsubscribe` and `finish_pending_chunks` of `lab3/src/chunk/subscription.c` keep the
subscribers of a manager in a doubly linked list.  The abstract list holds the address and the file
descriptor of each subscriber, first subscriber first; `linkedAfter` says what the calls make of it.

`ListOf` ties the memory of the manager to the abstract list: the links are those of a doubly linked
list of exactly these subscribers, `subscribers_count` is its length, and no other subscriber is
allocated.  Every call keeps this, and returns, so that it holds after every sequence of calls.
-/

namespace OsLabs.Proxy

/-- A call on a manager: `malloc` answers the address of a new subscriber. -/
inductive ListCall
  | subscribe (fd address : ℕ)
  | unsubscribe (subscriber : ℕ)
  | finishPendingChunks

namespace LockedManager

/-- A new manager. -/
def new : LockedManager := ⟨ManagerMemory.create, false⟩

/-- `unsubscribe` with the pointer of its caller: the manager, the pointer afterwards and the file
descriptors that are closed. -/
def unsubscribePointer (manager : LockedManager) (subscriber : Option ℕ) :
    Option (LockedManager × Option ℕ × List ℕ) :=
  subscriber.bind fun a =>
    (manager.unsubscribe a).map fun (manager, fd) => (manager, none, [fd])

/-- The manager after one call. -/
def call (manager : LockedManager) : ListCall → Option LockedManager
  | .subscribe fd address => manager.subscribe fd (some address)
  | .unsubscribe subscriber => (manager.unsubscribePointer (some subscriber)).map Prod.fst
  | .finishPendingChunks => manager.finishPendingChunks.map Prod.fst

/-- The manager after some calls. -/
def calls (manager : LockedManager) (cs : List ListCall) : Option LockedManager :=
  cs.foldlM call manager

/-- The subscribers after a call. -/
def linkedAfter (l : List (ℕ × ℕ)) : ListCall → List (ℕ × ℕ)
  | .subscribe fd address => l ++ [(address, fd)]
  | .unsubscribe subscriber => l.filter fun p => p.1 ≠ subscriber
  | .finishPendingChunks => []

/-- `malloc` answers an address that is not in use, and only a linked subscriber is unsubscribed. -/
def Permitted (l : List (ℕ × ℕ)) : ListCall → Prop
  | .subscribe _ address => address ∉ l.map Prod.fst
  | .unsubscribe subscriber => subscriber ∈ l.map Prod.fst
  | .finishPendingChunks => True

/-- Every call of a sequence is permitted when it is made. -/
def AllPermitted : List (ℕ × ℕ) → List ListCall → Prop
  | _, [] => True
  | l, c :: cs => Permitted l c ∧ AllPermitted (linkedAfter l c) cs

/-- The memory of the manager holds exactly the subscribers of the list. -/
structure ListOf (manager : LockedManager) (l : List (ℕ × ℕ)) : Prop where
  /-- No call holds the lock. -/
  free : manager.locked = false
  /-- The links of the subscribers and of the manager. -/
  linked : manager.memory.subscribers.Linked SubscriberNode.next SubscriberNode.prev
    SubscriberNode.fd manager.memory.firstSubscriber manager.memory.lastSubscriber l
  /-- `subscribers_count`. -/
  count : manager.memory.subscribersCount = l.length
  /-- Every allocated subscriber is in the list. -/
  owned : ∀ a node, manager.memory.subscribers.cell a = some node → a ∈ l.map Prod.fst

variable {manager : LockedManager} {m : ManagerMemory} {l l₁ l₂ : List (ℕ × ℕ)}
  {a fd rounds : ℕ} {c : SubscriberNode}

/-- A new manager has no subscriber. -/
lemma listOf_new : new.ListOf [] :=
  ⟨rfl, Heap.Linked.nil, rfl, fun _ _ hcell => nomatch hcell⟩

/-! ## One subscriber more -/

/-- The first subscriber of an empty list, and the last one of another list. -/
lemma ListOf.ends (h : manager.ListOf l) :
    manager.memory.firstSubscriber = l.head?.map Prod.fst ∧
      manager.memory.lastSubscriber = l.getLast?.map Prod.fst := by
  refine ⟨h.linked.forward.start_eq_of_null, ?_⟩
  rw [h.linked.backward.start_eq_of_null, List.head?_reverse]

/-- The body of `subscribe` puts a new subscriber at the end of the list. -/
lemma ListOf.exists_link (h : manager.ListOf l) (fd : ℕ)
    (hfree : manager.memory.subscribers.cell a = none) :
    ∃ m, manager.memory.link fd a = some m ∧
      m.subscribers.Linked SubscriberNode.next SubscriberNode.prev SubscriberNode.fd
        m.firstSubscriber m.lastSubscriber (l ++ [(a, fd)]) ∧
      m.subscribersCount = l.length + 1 ∧
      ∀ b, b ≠ a → manager.memory.subscribers.cell b = none → m.subscribers.cell b = none := by
  obtain ⟨hfirst, hlast⟩ := h.ends
  have hnew : (manager.memory.subscribers.set a
      (some ⟨fd, 0, none, manager.memory.lastSubscriber⟩)).cell a =
        some ⟨fd, 0, none, manager.memory.lastSubscriber⟩ := by
    rw [Heap.cell_set_self]
  rcases l.eq_nil_or_concat' with rfl | ⟨l, ⟨y, v⟩, rfl⟩
  · refine ⟨{ manager.memory with
      firstSubscriber := some a
      lastSubscriber := some a
      subscribersCount := manager.memory.subscribersCount + 1
      subscribers := manager.memory.subscribers.set a
        (some ⟨fd, 0, none, manager.memory.lastSubscriber⟩) }, ?_, ?_, ?_, fun b hb hnone => ?_⟩
    · simp only [ManagerMemory.link, Heap.alloc_of_free hfree, Option.bind_some, hfirst,
        List.head?_nil, Option.map_none]
    · exact Heap.Linked.single hnew rfl hlast
    · exact congrArg (· + 1) h.count
    · rw [Heap.cell_set_of_ne hb, hnone]
  · obtain ⟨node, hnode, -⟩ := h.linked.forward.exists_cell (x := (y, v)) (by simp)
    have hlast' : manager.memory.lastSubscriber = some y := by
      rw [hlast, List.getLast?_concat, Option.map_some]
    obtain ⟨first, hfirst'⟩ : ∃ first, manager.memory.firstSubscriber = some first := by
      rw [hfirst]
      cases l <;> exact ⟨_, rfl⟩
    have hne : y ≠ a := Heap.ne_of_cell hnode hfree
    have hnode' : (manager.memory.subscribers.set a
        (some ⟨fd, 0, none, manager.memory.lastSubscriber⟩)).cell y = some node := by
      rw [Heap.cell_set_of_ne hne, hnode]
    refine ⟨{ manager.memory with
      lastSubscriber := some a
      subscribersCount := manager.memory.subscribersCount + 1
      subscribers := (manager.memory.subscribers.set a
        (some ⟨fd, 0, none, manager.memory.lastSubscriber⟩)).set y
          (some { node with next := some a }) }, ?_, ?_, ?_, fun b hb hnone => ?_⟩
    · simp only [ManagerMemory.link, Heap.alloc_of_free hfree, Option.bind_some, hfirst']
      rw [hlast', Heap.modify_of_cell (hlast' ▸ hnode'), Option.map_some]
    · refine h.linked.append (a := ⟨fd, 0, none, manager.memory.lastSubscriber⟩)
        (c := { node with next := some a }) hnode hfree ?_ rfl rfl rfl ?_ rfl rfl
        fun b hb hb' => ?_
      · rw [Heap.cell_set_self]
      · rw [Heap.cell_set_of_ne hne.symm, hnew]
      · rw [Heap.cell_set_of_ne hb, Heap.cell_set_of_ne hb']
    · exact congrArg (· + 1) h.count
    · have hby : b ≠ y := (Heap.ne_of_cell hnode hnone).symm
      rw [Heap.cell_set_of_ne hby, Heap.cell_set_of_ne hb, hnone]

/-- `subscribe` puts a new subscriber at the end of the list. -/
lemma ListOf.subscribe (h : manager.ListOf l) (fd : ℕ) (ha : a ∉ l.map Prod.fst) :
    ∃ manager', manager.subscribe fd (some a) = some manager' ∧
      manager'.ListOf (l ++ [(a, fd)]) := by
  have hfree : manager.memory.subscribers.cell a = none :=
    Option.eq_none_iff_forall_ne_some.mpr fun node hcell => ha (h.owned a node hcell)
  obtain ⟨m, hlink, hlinked, hcount, hnone⟩ := h.exists_link fd hfree
  refine ⟨⟨m, false⟩, ?_, rfl, hlinked, ?_, fun b node hcell => ?_⟩
  · rw [LockedManager.subscribe, h.free, if_neg Bool.false_ne_true, hlink, Option.map_some]
  · rw [List.length_append, List.length_singleton]
    exact hcount
  · rw [List.map_append, List.mem_append]
    by_cases hba : b = a
    · exact Or.inr (by simp [hba])
    · rcases Option.eq_none_or_eq_some (manager.memory.subscribers.cell b) with hb | ⟨c, hb⟩
      · rw [hnone b hba hb] at hcell
        cases hcell
      · exact Or.inl (h.owned b c hb)

/-! ## One subscriber less -/

/-- The first half of `unsubscribe` gives `prev` to the next subscriber, or ends the list. -/
lemma exists_unlinkNext {next prev : Option ℕ} (hsome : next ≠ none ∨ prev ≠ none)
    (hnext : ∀ b, next = some b → ∃ node, m.subscribers.cell b = some node)
    (hprev : ∀ b, prev = some b → ∃ node, m.subscribers.cell b = some node) :
    ∃ m', m.unlinkNext next prev = some m' ∧ m'.subscribersCount = m.subscribersCount ∧
      m'.firstSubscriber = m.firstSubscriber ∧
      m'.lastSubscriber = (if next = none then prev else m.lastSubscriber) ∧
      (∀ b node, m.subscribers.cell b = some node → m'.subscribers.cell b = some
        { node with
          next := if next = none ∧ some b = prev then none else node.next
          prev := if some b = next then prev else node.prev }) ∧
      ∀ b, m.subscribers.cell b = none → m'.subscribers.cell b = none := by
  cases next with
  | none =>
    obtain ⟨p, rfl⟩ := Option.ne_none_iff_exists'.mp (hsome.resolve_left (not_not_intro rfl))
    obtain ⟨node, hnode⟩ := hprev p rfl
    obtain ⟨subscribers, hmodify, hkeep, hnone⟩ :=
      Heap.exists_modify hnode fun s => { s with next := none }
    refine ⟨{ m with lastSubscriber := some p, subscribers := subscribers }, ?_, rfl, rfl, rfl,
      fun b node hb => ?_, hnone⟩
    · rw [ManagerMemory.unlinkNext, hmodify, Option.map_some]
    · rw [hkeep b node hb]
      by_cases hbp : b = p <;> simp [hbp]
  | some n =>
    obtain ⟨node, hnode⟩ := hnext n rfl
    obtain ⟨subscribers, hmodify, hkeep, hnone⟩ :=
      Heap.exists_modify hnode fun s => { s with prev := prev }
    refine ⟨{ m with subscribers := subscribers }, ?_, rfl, rfl, rfl, fun b node hb => ?_, hnone⟩
    · rw [ManagerMemory.unlinkNext, hmodify, Option.map_some]
    · rw [hkeep b node hb]
      by_cases hbn : b = n <;> simp [hbn]

/-- The second half of `unsubscribe` gives `next` to the previous subscriber, or begins the list
with it. -/
lemma exists_unlinkPrev {next prev : Option ℕ} (hsome : next ≠ none ∨ prev ≠ none)
    (hnext : ∀ b, next = some b → ∃ node, m.subscribers.cell b = some node)
    (hprev : ∀ b, prev = some b → ∃ node, m.subscribers.cell b = some node) :
    ∃ m', m.unlinkPrev next prev = some m' ∧ m'.subscribersCount = m.subscribersCount ∧
      m'.firstSubscriber = (if prev = none then next else m.firstSubscriber) ∧
      m'.lastSubscriber = m.lastSubscriber ∧
      (∀ b node, m.subscribers.cell b = some node → m'.subscribers.cell b = some
        { node with
          next := if some b = prev then next else node.next
          prev := if prev = none ∧ some b = next then none else node.prev }) ∧
      ∀ b, m.subscribers.cell b = none → m'.subscribers.cell b = none := by
  cases prev with
  | none =>
    obtain ⟨n, rfl⟩ := Option.ne_none_iff_exists'.mp (hsome.resolve_right (not_not_intro rfl))
    obtain ⟨node, hnode⟩ := hnext n rfl
    obtain ⟨subscribers, hmodify, hkeep, hnone⟩ :=
      Heap.exists_modify hnode fun s => { s with prev := none }
    refine ⟨{ m with firstSubscriber := some n, subscribers := subscribers }, ?_, rfl, rfl, rfl,
      fun b node hb => ?_, hnone⟩
    · rw [ManagerMemory.unlinkPrev, hmodify, Option.map_some]
    · rw [hkeep b node hb]
      by_cases hbn : b = n <;> simp [hbn]
  | some p =>
    obtain ⟨node, hnode⟩ := hprev p rfl
    obtain ⟨subscribers, hmodify, hkeep, hnone⟩ :=
      Heap.exists_modify hnode fun s => { s with next := next }
    refine ⟨{ m with subscribers := subscribers }, ?_, rfl, rfl, rfl, fun b node hb => ?_, hnone⟩
    · rw [ManagerMemory.unlinkPrev, hmodify, Option.map_some]
    · rw [hkeep b node hb]
      by_cases hbp : b = p <;> simp [hbp]

/-- The neighbours of a subscriber are linked to each other, or to the manager. -/
lemma exists_unlink (hc : m.subscribers.cell a = some c)
    (hnext : ∀ b, c.next = some b → ∃ node, m.subscribers.cell b = some node)
    (hprev : ∀ b, c.prev = some b → ∃ node, m.subscribers.cell b = some node) :
    ∃ m', m.unlink (some a) = some m' ∧ m'.subscribersCount = m.subscribersCount ∧
      m'.firstSubscriber = (if c.prev = none then c.next else m.firstSubscriber) ∧
      m'.lastSubscriber = (if c.next = none then c.prev else m.lastSubscriber) ∧
      (∀ b node, m.subscribers.cell b = some node → m'.subscribers.cell b = some
        { node with
          next := if some b = c.prev then c.next else node.next
          prev := if some b = c.next then c.prev else node.prev }) ∧
      ∀ b, m.subscribers.cell b = none → m'.subscribers.cell b = none := by
  rw [ManagerMemory.unlink, Heap.load_some, hc, Option.bind_some]
  by_cases honly : c.next = none ∧ c.prev = none
  · rw [if_pos honly, honly.1, honly.2]
    refine ⟨_, rfl, rfl, rfl, rfl, fun b node hb => ?_, fun b hb => hb⟩
    simpa using hb
  · rw [if_neg honly]
    have hsome : c.next ≠ none ∨ c.prev ≠ none := not_and_or.mp honly
    obtain ⟨m₁, hm₁, hcount₁, hfirst₁, hlast₁, hkeep₁, hnone₁⟩ :=
      exists_unlinkNext hsome hnext hprev
    have hlinked : ∀ b, (∃ node, m.subscribers.cell b = some node) →
        ∃ node, m₁.subscribers.cell b = some node := by
      rintro b ⟨node, hb⟩
      exact ⟨_, hkeep₁ b node hb⟩
    obtain ⟨m₂, hm₂, hcount₂, hfirst₂, hlast₂, hkeep₂, hnone₂⟩ :=
      exists_unlinkPrev (m := m₁) hsome (fun b hb => hlinked b (hnext b hb))
        fun b hb => hlinked b (hprev b hb)
    refine ⟨m₂, ?_, hcount₂.trans hcount₁, ?_, hlast₂.trans hlast₁, fun b node hb => ?_,
      fun b hb => hnone₂ b (hnone₁ b hb)⟩
    · rw [hm₁, Option.bind_some, hm₂]
    · rw [hfirst₂, hfirst₁]
    · rw [hkeep₂ b _ (hkeep₁ b node hb)]
      -- the second half repeats what the first one has done
      congr 2
      · split_ifs <;> simp_all
      · split_ifs <;> simp_all

/-- `unsubscribe` takes its subscriber out of the list and closes its file descriptor. -/
lemma ListOf.unsubscribe (h : manager.ListOf (l₁ ++ (a, fd) :: l₂)) :
    ∃ manager', manager.unsubscribe a = some (manager', fd) ∧ manager'.ListOf (l₁ ++ l₂) := by
  obtain ⟨c, hc, hfd⟩ := h.linked.forward.exists_cell (x := (a, fd)) (by simp)
  obtain ⟨hnot, -⟩ := Heap.nodup_map_middle h.linked.forward.nodup
  obtain ⟨m, hm, hcount, hfirst, hlast, hkeep, hnone⟩ := exists_unlink hc
    (fun b hb => h.linked.exists_neighbour hc (Or.inl hb))
    fun b hb => h.linked.exists_neighbour hc (Or.inr hb)
  refine ⟨⟨{ m with
    subscribersCount := m.subscribersCount - 1
    subscribers := m.subscribers.set a none }, false⟩, ?_, rfl, ?_, ?_, fun b node hcell => ?_⟩
  · simp only [LockedManager.unsubscribe, h.free, Bool.false_eq_true, if_false, hc,
      Option.bind_some, hm, ManagerMemory.discard, Heap.free_of_cell (hkeep a c hc),
      Option.map_some]
    rw [show c.fd = fd from hfd]
  · show (m.subscribers.set a none).Linked _ _ _ _ _ _
    rw [hfirst, hlast]
    refine h.linked.remove hc fun b hb node hnode => ?_
    have hne : b ≠ a := fun heq => hnot (heq ▸ hb)
    refine ⟨{ node with
      next := if some b = c.prev then c.next else node.next
      prev := if some b = c.next then c.prev else node.prev }, ?_, rfl, rfl, rfl⟩
    rw [Heap.cell_set_of_ne hne, hkeep b node hnode]
  · change m.subscribersCount - 1 = (l₁ ++ l₂).length
    rw [hcount, h.count, List.length_append, List.length_append, List.length_cons]
    omega
  · have hne : b ≠ a := by
      rintro rfl
      simp at hcell
    rw [Heap.cell_set_of_ne hne] at hcell
    rcases Option.eq_none_or_eq_some (manager.memory.subscribers.cell b) with hb | ⟨d, hb⟩
    · rw [hnone b hb] at hcell
      cases hcell
    · have hmem := h.owned b d hb
      rw [List.map_append, List.map_cons, List.mem_append, List.mem_cons] at hmem
      rw [List.map_append, List.mem_append]
      exact hmem.imp_right fun hmem => hmem.resolve_left hne

/-! ## No subscriber left -/

/-- The loop of `finish_pending_chunks` unsubscribes one subscriber after the other. -/
lemma ListOf.unsubscribeLoop (h : manager.ListOf l) (hrounds : l.length ≤ rounds) :
    ∃ manager', LockedManager.unsubscribeLoop rounds (l.head?.map Prod.fst) manager =
        some (manager', l.map Prod.snd) ∧ manager'.ListOf [] := by
  induction l generalizing manager rounds with
  | nil => exact ⟨manager, unsubscribeLoop_none rounds manager, h⟩
  | cons x l ih =>
    obtain ⟨a, fd⟩ := x
    obtain ⟨rounds, rfl⟩ := Nat.exists_eq_add_one.mpr (Nat.lt_of_lt_of_le (Nat.succ_pos _) hrounds)
    rw [← List.nil_append ((a, fd) :: l)] at h
    obtain ⟨c, hc, -⟩ := h.linked.forward.exists_cell (x := (a, fd)) (by simp)
    have hnext : c.next = l.head?.map Prod.fst := (h.linked.neighbours hc).1
    obtain ⟨manager₁, hunsubscribe, h₁⟩ := h.unsubscribe
    obtain ⟨manager₂, hloop, h₂⟩ := ih h₁ (Nat.le_of_succ_le_succ hrounds)
    refine ⟨manager₂, ?_, h₂⟩
    simp only [List.head?_cons, Option.map_some, LockedManager.unsubscribeLoop, hc,
      Option.bind_some, hunsubscribe, hnext, hloop, List.map_cons]

/-- `finish_pending_chunks` returns, closes every file descriptor and leaves no subscriber. -/
lemma ListOf.finishPendingChunks (h : manager.ListOf l) :
    ∃ manager', manager.finishPendingChunks = some (manager', l.map Prod.snd) ∧
      manager'.ListOf [] := by
  rw [LockedManager.finishPendingChunks, h.ends.1]
  exact h.unsubscribeLoop h.linked.forward.length_le

/-! ## Sequences of calls -/

/-- The caller of `unsubscribe` is left with a `NULL` pointer. -/
lemma ListOf.unsubscribePointer (h : manager.ListOf (l₁ ++ (a, fd) :: l₂)) :
    ∃ manager', manager.unsubscribePointer (some a) = some (manager', none, [fd]) ∧
      manager'.ListOf (l₁ ++ l₂) := by
  obtain ⟨manager', hunsubscribe, h'⟩ := h.unsubscribe
  refine ⟨manager', ?_, h'⟩
  rw [LockedManager.unsubscribePointer, Option.bind_some, hunsubscribe, Option.map_some]

/-- A subscriber that is taken out leaves the others in their order. -/
lemma linkedAfter_unsubscribe (hnodup : ((l₁ ++ (a, fd) :: l₂).map Prod.fst).Nodup) :
    linkedAfter (l₁ ++ (a, fd) :: l₂) (.unsubscribe a) = l₁ ++ l₂ := by
  obtain ⟨hnot, -⟩ := Heap.nodup_map_middle hnodup
  have hkeep : ∀ p ∈ l₁ ++ l₂, p.1 ≠ a := by
    rintro p hp rfl
    exact hnot (List.mem_map.mpr ⟨p, hp, rfl⟩)
  rw [linkedAfter, List.filter_append, List.filter_cons_of_neg (by simp), ← List.filter_append,
    List.filter_eq_self]
  exact fun p hp => decide_eq_true (hkeep p hp)

/-- Every permitted call returns and does to the memory what it does to the list. -/
lemma ListOf.call {c : ListCall} (h : manager.ListOf l) (hc : Permitted l c) :
    ∃ manager', manager.call c = some manager' ∧ manager'.ListOf (linkedAfter l c) := by
  cases c with
  | subscribe fd address => exact h.subscribe fd hc
  | unsubscribe a =>
    obtain ⟨⟨a, fd⟩, hmem, rfl⟩ := List.mem_map.mp hc
    obtain ⟨l₁, l₂, rfl⟩ := List.append_of_mem hmem
    obtain ⟨manager', hunsubscribe, h'⟩ := h.unsubscribePointer
    refine ⟨manager', ?_, ?_⟩
    · rw [LockedManager.call, hunsubscribe, Option.map_some]
    · rw [linkedAfter_unsubscribe h.linked.forward.nodup]
      exact h'
  | finishPendingChunks =>
    obtain ⟨manager', hfinish, h'⟩ := h.finishPendingChunks
    refine ⟨manager', ?_, h'⟩
    rw [LockedManager.call, hfinish, Option.map_some]

/-- So does every sequence of permitted calls. -/
lemma ListOf.calls {cs : List ListCall} (h : manager.ListOf l) (hcs : AllPermitted l cs) :
    ∃ manager', manager.calls cs = some manager' ∧ manager'.ListOf (cs.foldl linkedAfter l) := by
  induction cs generalizing manager l with
  | nil => exact ⟨manager, rfl, h⟩
  | cons c cs ih =>
    obtain ⟨manager₁, hcall, h₁⟩ := h.call hcs.1
    obtain ⟨manager₂, hcalls, h₂⟩ := ih h₁ hcs.2
    refine ⟨manager₂, ?_, h₂⟩
    rw [LockedManager.calls, List.foldlM_cons, hcall]
    exact hcalls

/-- After every sequence of calls on a new manager, all of which return, the memory is one doubly
linked list of the subscribers in the order of their subscriptions, with `subscribers_count` its
length.  Unsubscribing any of them takes out this one, closes its file descriptor and leaves its
caller with a `NULL` pointer, and `finish_pending_chunks` returns, closes every file descriptor in
the list once and leaves no subscriber. -/
theorem listOf_calls {cs : List ListCall} (hcs : AllPermitted [] cs) :
    ∃ manager, new.calls cs = some manager ∧ manager.ListOf (cs.foldl linkedAfter []) ∧
      (∀ l₁ a fd l₂, cs.foldl linkedAfter [] = l₁ ++ (a, fd) :: l₂ →
        ∃ manager', manager.unsubscribePointer (some a) = some (manager', none, [fd]) ∧
          manager'.ListOf (l₁ ++ l₂)) ∧
      ∃ manager', manager.finishPendingChunks =
          some (manager', (cs.foldl linkedAfter []).map Prod.snd) ∧
        manager'.memory.firstSubscriber = none ∧ manager'.memory.lastSubscriber = none ∧
        manager'.memory.subscribersCount = 0 := by
  obtain ⟨manager, hcalls, h⟩ := listOf_new.calls hcs
  obtain ⟨manager', hfinish, h'⟩ := h.finishPendingChunks
  refine ⟨manager, hcalls, h, fun l₁ a fd l₂ hsplit => ?_, manager', hfinish, h'.ends.1,
    h'.ends.2, h'.count⟩
  exact (hsplit ▸ h).unsubscribePointer

/-- Three subscriptions, of which the second one ends first, and a fourth one at its address. -/
def reusedAddress : List ListCall :=
  [.subscribe 5 0, .subscribe 6 1, .subscribe 7 2, .unsubscribe 1, .subscribe 8 1]

/-- The later subscription is the last one. -/
theorem listOf_calls_reusedAddress :
    reusedAddress.foldl linkedAfter [] = [(0, 5), (2, 7), (1, 8)] ∧
      ∃ manager, new.calls reusedAddress = some manager ∧
        manager.ListOf (reusedAddress.foldl linkedAfter []) ∧
        (∀ l₁ a fd l₂, reusedAddress.foldl linkedAfter [] = l₁ ++ (a, fd) :: l₂ →
          ∃ manager', manager.unsubscribePointer (some a) = some (manager', none, [fd]) ∧
            manager'.ListOf (l₁ ++ l₂)) ∧
        ∃ manager', manager.finishPendingChunks =
            some (manager', (reusedAddress.foldl linkedAfter []).map Prod.snd) ∧
          manager'.memory.firstSubscriber = none ∧ manager'.memory.lastSubscriber = none ∧
          manager'.memory.subscribersCount = 0 := by
  refine ⟨rfl, listOf_calls ?_⟩
  simp [reusedAddress, AllPermitted, Permitted, linkedAfter]

end LockedManager

end OsLabs.Proxy
