import OsLabs.SwapList.Steps

/-!
# The coupling invariant

In every reachable state there is an abstract list `L`, a permutation of the initial nodes, such
that every thread stands at a position of `L`: its iteration number `k` is the position of `prev`,
and `cur` and `next` come right behind it.  The `next` pointer of a node is the one of `L`, except
for the nodes that a swap in progress has still to write.  `L` changes in one step of a swap, the
write of `prev->next`, which exchanges the positions `k + 1` and `k + 2`; these are held by the
swapping thread, and a thread that holds the node of a position keeps that position and the next
one.
-/

namespace OsLabs.SwapList

open Transition LinkedList

variable {N : Type*} {kind : LockKind} {first : N} {r : Routine} {pc pc' : Pc N} {op : Op N}
  {a : Answer N} {next next' : N → Option N} {L L' : List N} {k : ℕ}

/-! ## The position of one thread -/

/-- The local variables of a thread in its iteration `k` are at the positions from `k` on, and a
swap in progress knows the node behind its three nodes. -/
def Pc.At (next : N → Option N) (L : List N) (k : ℕ) : Pc N → Prop
  | .loop | .lockFirst | .exited => True
  | .test prev => L[k]? = some prev
  | .needsSwap prev | .readCur prev _ => L[k]? = some prev ∧ k + 1 < L.length
  | .lockCur prev cur _ | .unlockPrev prev cur | .readNext prev cur =>
    L[k]? = some prev ∧ L[k + 1]? = some cur
  | .unlockSwap prev cur => L[k]? = some prev ∧ L[k + 1]? = some cur ∧ k + 2 = L.length
  | .compare cur => L[k + 1]? = some cur
  | .lockNext prev cur nxt | .writePrev prev cur nxt =>
    L[k]? = some prev ∧ L[k + 1]? = some cur ∧ L[k + 2]? = some nxt
  | .releasePrev prev cur nxt =>
    L[k]? = some prev ∧ L[k + 1]? = some nxt ∧ L[k + 2]? = some cur ∧ next nxt = L[k + 3]?
  | .readTail cur nxt => L[k + 1]? = some nxt ∧ L[k + 2]? = some cur ∧ next nxt = L[k + 3]?
  | .writeCur cur nxt tail => L[k + 1]? = some nxt ∧ L[k + 2]? = some cur ∧ tail = L[k + 3]?
  | .releaseCur cur nxt | .writeNext cur nxt => L[k + 1]? = some nxt ∧ L[k + 2]? = some cur
  | .unlockLast _ | .count => k + 1 = L.length
  | .fault _ => False

/-- The nodes that a thread holds are distinct. -/
lemma Pc.At.nodup_held (h : pc.At next L k) (hL : L.Nodup) : pc.held.Nodup := by
  have hne : ∀ {i j : ℕ} {x y : N}, L[i]? = some x → L[j]? = some y → i ≠ j → x ≠ y :=
    fun hx hy hij hxy => hij (index_unique hL hx (hxy ▸ hy))
  cases pc <;> simp only [Pc.At] at h <;>
    simp only [Pc.held, List.nodup_cons, List.mem_cons, List.not_mem_nil, not_or, List.nodup_nil,
      not_false_eq_true, and_true, or_false] <;> grind

/-- A thread keeps its place in a list in which the nodes that it holds keep their positions and
their followers. -/
lemma Pc.At.stable (h : pc.At next L k) (hlen : L'.length = L.length)
    (hpos : ∀ i x, L[i]? = some x → x ∈ pc.held → L'[i]? = L[i]? ∧ L'[i + 1]? = L[i + 1]?)
    (hnext : ∀ x ∈ pc.held, next' x = next x) : pc.At next' L' k := by
  cases pc <;> simp only [Pc.At, Pc.held] at h hpos hnext ⊢ <;> grind

/-- In an exchange of the positions behind position `k`, a node elsewhere keeps its position and its
follower. -/
lemma getElem?_exchange_of_other {p c n x : N} {i : ℕ} (hp : L[k]? = some p)
    (hc : L[k + 1]? = some c) (hn : L[k + 2]? = some n) (hx : L[i]? = some x) (hxp : x ≠ p)
    (hxc : x ≠ c) (hxn : x ≠ n) :
    (exchange L (k + 1))[i]? = L[i]? ∧ (exchange L (k + 1))[i + 1]? = L[i + 1]? := by
  have hik : i ≠ k := by rintro rfl; exact hxp (Option.some.inj (hx.symm.trans hp))
  have hik' : i ≠ k + 1 := by rintro rfl; exact hxc (Option.some.inj (hx.symm.trans hc))
  have hik'' : i ≠ k + 2 := by rintro rfl; exact hxn (Option.some.inj (hx.symm.trans hn))
  exact ⟨getElem?_exchange_of_ne L (by omega) (by omega),
    getElem?_exchange_of_ne L (by omega) (by omega)⟩

/-- A pass of `__compare_routine` has visited the nodes up to its position and has compared one pair
less. -/
def Thread.Visits (L : List N) (thread : Thread N) : Prop :=
  match thread.pc with
  | .loop | .lockFirst | .exited => True
  | _ => thread.visited.Perm (L.take (thread.iterations + 1)) ∧
      thread.comparisons = thread.iterations

/-- A thread that holds neither of two neighbouring nodes has not visited just the first one. -/
lemma Pc.At.iterations_ne (h : pc.At next L k) {i : ℕ} {c n : N} (hc : L[i + 1]? = some c)
    (hn : L[i + 2]? = some n) (hcheld : c ∉ pc.held) (hnheld : n ∉ pc.held) :
    pc = .loop ∨ pc = .lockFirst ∨ pc = .exited ∨ k ≠ i + 1 := by
  cases pc <;> simp only [Pc.At, Pc.held] at h hcheld hnheld <;> grind

/-- A pass keeps its account when two nodes that its thread does not hold are exchanged. -/
lemma Thread.Visits.exchange {thread : Thread N} (h : thread.Visits L)
    (hat : thread.pc.At next L thread.iterations) {i : ℕ} {c n : N} (hc : L[i + 1]? = some c)
    (hn : L[i + 2]? = some n) (hcheld : c ∉ thread.pc.held) (hnheld : n ∉ thread.pc.held) :
    thread.Visits (exchange L (i + 1)) := by
  obtain ⟨pc, visited, comparisons, k⟩ := thread
  have hne : pc = .loop ∨ pc = .lockFirst ∨ pc = .exited ∨ k ≠ i + 1 :=
    hat.iterations_ne hc hn hcheld hnheld
  cases pc with
  | loop | lockFirst | exited => trivial
  | _ =>
    have hk : k + 1 ≠ i + 1 + 1 := by simpa using hne
    exact ⟨h.1.trans (take_exchange_perm L hk).symm, h.2⟩

/-- The positions that only `swap_routine` has. -/
def Pc.swapOnly : Pc N → Bool
  | .needsSwap _ | .readNext .. | .unlockSwap .. | .lockNext .. | .writePrev .. | .releasePrev ..
  | .readTail .. | .writeCur .. | .releaseCur .. | .writeNext .. => true
  | _ => false

/-- Only swappers have pointers to write. -/
lemma Pc.swapOnly_of_unwritten {x : N} (h : x ∈ pc.unwritten) : pc.swapOnly = true := by
  cases pc <;> first | rfl | cases h

/-- Only a swapper gets to the positions of a swap. -/
lemma Goes.role (h : Goes kind first a r pc op pc') (hpc : pc'.swapOnly = true) : r = .swap := by
  cases h <;> first | rfl | cases hpc

/-- A thread waits for a lock that it does not hold. -/
lemma Goes.lock_not_held {mode : LockMode} {x : N} (h : Goes kind first a r pc (.lock mode x) pc')
    (hat : pc.At next L k) (hL : L.Nodup) : x ∉ pc.held := by
  have hne : ∀ {i j : ℕ} {y : N}, L[i]? = some x → L[j]? = some y → i ≠ j → x ≠ y :=
    fun hx hy hij hxy => hij (index_unique hL hx (hxy ▸ hy))
  cases h with
  | lockFirst => exact List.not_mem_nil
  | lockCur | lockSwap =>
    rw [Pc.held, List.mem_singleton]
    exact hne hat.2 hat.1 (by omega)
  | lockNext =>
    rw [Pc.held, List.mem_cons, List.mem_singleton, not_or]
    exact ⟨hne hat.2.2 hat.1 (by omega), hne hat.2.2 hat.2.1 (by omega)⟩

/-- A step that writes no pointer changes nothing about the pointers still to write. -/
lemma Goes.unwritten_eq (h : Goes kind first a r pc op pc')
    (hwrite : ∀ x value, op ≠ .writeNext x value) : pc'.unwritten = pc.unwritten := by
  cases h <;> first | rfl | exact absurd rfl (hwrite _ _)

/-! ## One step of the thread itself -/

/-- A step of a thread leads to its new position. -/
@[simp] lemma Thread.pc_advance (thread : Thread N) (pc : Pc N) :
    (thread.advance r first pc).pc = pc := by
  unfold Thread.advance
  split <;> rfl

/-- A step that writes no pointer takes a thread from its place to a place again. -/
lemma Goes.at {thread : Thread N} (h : Goes kind first a r thread.pc op pc')
    (hat : thread.pc.At next L thread.iterations) (hhead : L[0]? = some first)
    (hwrite : ∀ x value, op ≠ .writeNext x value)
    (hread : ∀ x, op = .readNext x → a.next = next x)
    (hlink : ∀ x ∈ thread.pc.held, x ∉ thread.pc.unwritten → ∀ i, L[i]? = some x →
      next x = L[i + 1]?) :
    pc'.At next L (thread.advance r first pc').iterations := by
  obtain ⟨pc, visited, comparisons, k⟩ := thread
  dsimp only at h hat hlink
  have hlt : ∀ {i : ℕ} {x : N}, L[i]? = some x → i < L.length := fun hx =>
    (List.getElem?_eq_some_iff.mp hx).1
  -- What is read behind a node that is held is the next node of the list.
  have hbehind : ∀ {x : N} {i : ℕ}, op = .readNext x → x ∈ pc.held → x ∉ pc.unwritten →
      L[i]? = some x → a.next = L[i + 1]? := fun hop hheld hun hx =>
    (hread _ hop).trans (hlink _ hheld hun _ hx)
  cases h with
  | stop | begin | count => trivial
  | lockFirst => exact hhead
  | moreCompare hnext | moreSwap hnext =>
    have hval := hbehind rfl List.mem_cons_self List.not_mem_nil hat
    rw [hval, Option.isSome_iff_ne_none, ne_eq, List.getElem?_eq_none_iff] at hnext
    exact ⟨hat, Nat.lt_of_not_le hnext⟩
  | last hnext =>
    have hval := hbehind rfl List.mem_cons_self List.not_mem_nil hat
    rw [hnext, eq_comm, List.getElem?_eq_none_iff] at hval
    exact Nat.le_antisymm (hlt hat) hval
  | choose => exact hat
  | null hnext =>
    have hval := hbehind rfl List.mem_cons_self List.not_mem_nil hat.1
    rw [hnext, eq_comm, List.getElem?_eq_none_iff] at hval
    exact absurd hat.2 (Nat.not_lt.mpr hval)
  | cur hnext =>
    have hval := hbehind rfl List.mem_cons_self List.not_mem_nil hat.1
    exact ⟨hat.1, hval.symm.trans hnext⟩
  | lockCur => exact hat
  | lockSwap => exact hat
  | unlockCompare => exact hat.2
  | unlockPrev => exact hat.2
  | compare => exact hat
  | noNext hnext =>
    have hval := hbehind rfl (List.mem_cons_of_mem _ List.mem_cons_self) List.not_mem_nil hat.2
    rw [hnext, eq_comm, List.getElem?_eq_none_iff] at hval
    exact ⟨hat.1, hat.2, Nat.le_antisymm (hlt hat.2) hval⟩
  | next hnext =>
    have hval := hbehind rfl (List.mem_cons_of_mem _ List.mem_cons_self) List.not_mem_nil hat.2
    exact ⟨hat.1, hat.2, hval.symm.trans hnext⟩
  | unlockSwap => exact hat.2.2
  | lockNext => exact hat
  | writePrev | writeCur | writeNext => exact absurd rfl (hwrite _ _)
  | releasePrev => exact hat.2
  | readTail => exact ⟨hat.1, hat.2.1, (hread _ rfl).trans hat.2.2⟩
  | releaseCur => exact hat
  | unlockLast => exact hat

/-- A step of a compare routine keeps the account of its visits. -/
lemma Goes.visits {thread : Thread N} {type : CompareType}
    (h : Goes kind first a (.compare type) thread.pc op pc')
    (hat : thread.pc.At next L thread.iterations) (hhead : L[0]? = some first)
    (hvisits : thread.Visits L) :
    (thread.advance (.compare type) first pc').Visits L := by
  obtain ⟨pc, visited, comparisons, k⟩ := thread
  dsimp only at h hat
  cases h with
  | lockFirst =>
    have htake : L.take 1 = [first] := by
      rw [List.take_add_one, hhead]
      rfl
    exact ⟨htake ▸ List.Perm.refl _, rfl⟩
  | @compare _ cur =>
    obtain ⟨hperm, hcount⟩ := hvisits
    have hcur : L[k + 1]? = some cur := hat
    have htake : L.take (k + 1 + 1) = L.take (k + 1) ++ [cur] := by
      rw [List.take_add_one, hcur, Option.toList_some]
    have hall : (cur :: visited).Perm (L.take (k + 1 + 1)) := by
      rw [htake]
      exact (hperm.cons cur).trans (List.perm_append_singleton cur _).symm
    exact ⟨hall, congrArg (· + 1) hcount⟩
  | stop | begin | count => trivial
  | moreCompare | last | null | cur | lockCur | unlockCompare | unlockLast => exact hvisits

end OsLabs.SwapList
