import OsLabs.SwapList.Coupling

/-!
# No node is lost

After the pointer writes that remain of the swaps in progress, the list that starts at `ll->first`
has every initial node once.  The remaining writes of different swaps concern different nodes, so
they can be made one thread after the other.
-/

namespace OsLabs.SwapList

open Transition LinkedList

namespace ListState

variable {N : Type*} [DecidableEq N] {m : ℕ} {kind : LockKind} {routine : Fin m → Routine}
  {first : N} {rest : List N} {s : ListState N m} {L : List N} {pc : Pc N}
  {next f : N → Option N} {k : ℕ}

/-- The remaining writes of a swap leave the other nodes alone. -/
lemma finishSwap_of_not_mem {x : N} (hx : x ∉ pc.unwritten) : finishSwap f pc x = f x := by
  cases pc <;> simp only [finishSwap, Pc.unwritten, List.mem_cons, List.not_mem_nil, or_false,
    not_or] at hx ⊢
  case releasePrev | readTail | writeCur =>
    rw [Function.update_of_ne hx.2, Function.update_of_ne hx.1]
  case releaseCur | writeNext => rw [Function.update_of_ne hx]

/-- The writes of `cur->next` and `next->next` link the two nodes as the list says. -/
lemma update_pair (hL : L.Nodup) {cur nxt x : N} {value : Option N} (hn : L[k + 1]? = some nxt)
    (hcur : L[k + 2]? = some cur) (hvalue : value = L[k + 3]?) (hx : x ∈ [cur, nxt]) {i : ℕ}
    (hi : L[i]? = some x) :
    Function.update (Function.update f cur value) nxt (some cur) x = L[i + 1]? := by
  rcases List.mem_pair.mp hx with rfl | rfl
  · obtain rfl := index_unique hL hi hcur
    have hne : x ≠ nxt := by
      rintro rfl
      have := index_unique hL hn hcur
      omega
    rw [Function.update_of_ne hne, Function.update_self, hvalue]
  · obtain rfl := index_unique hL hi hn
    rw [Function.update_self, hcur]

/-- The remaining writes of a swap link its nodes as the list says. -/
lemma finishSwap_of_mem (hL : L.Nodup) (hat : pc.At next L k)
    (hf : ∀ x ∈ pc.unwritten, f x = next x) {x : N} (hx : x ∈ pc.unwritten) {i : ℕ}
    (hi : L[i]? = some x) : finishSwap f pc x = L[i + 1]? := by
  cases pc with
  | releasePrev prev cur nxt =>
    obtain ⟨-, hn, hcur, htail⟩ := hat
    exact update_pair hL hn hcur ((hf nxt (by simp [Pc.unwritten])).trans htail) hx hi
  | readTail cur nxt =>
    obtain ⟨hn, hcur, htail⟩ := hat
    exact update_pair hL hn hcur ((hf nxt (by simp [Pc.unwritten])).trans htail) hx hi
  | writeCur cur nxt tail =>
    obtain ⟨hn, hcur, htail⟩ := hat
    exact update_pair hL hn hcur htail hx hi
  | releaseCur cur nxt | writeNext cur nxt =>
    obtain ⟨hn, hcur⟩ := hat
    obtain rfl := List.mem_singleton.mp hx
    obtain rfl := index_unique hL hi hn
    rw [finishSwap, Function.update_self, hcur]
  | _ => cases hx

/-- The remaining writes of some threads link their nodes as the list says, from pointers that are
right everywhere else. -/
lemma foldl_finishSwap (hc : Coupled routine first rest s L) (hl : Locked routine s)
    (hL : L.Nodup) {threads : List (Fin m)} (hthreads : threads.Nodup)
    (hf : ∀ t ∈ threads, ∀ x ∈ (s.thread t).pc.unwritten, f x = s.next x)
    (hrest : ∀ i x, L[i]? = some x → (∀ t ∈ threads, x ∉ (s.thread t).pc.unwritten) →
      f x = L[i + 1]?) {i : ℕ} {x : N} (hi : L[i]? = some x) :
    threads.foldl (fun next t => finishSwap next (s.thread t).pc) f x = L[i + 1]? := by
  induction threads generalizing f with
  | nil => exact hrest i x hi fun t ht => absurd ht List.not_mem_nil
  | cons t threads ih =>
    obtain ⟨hnot, hnodup⟩ := List.nodup_cons.mp hthreads
    refine ih hnodup (fun t' ht' y hy => ?_) fun j y hj hun => ?_
    · -- Another swap in progress does not write this node.
      have hy' : y ∉ (s.thread t).pc.unwritten := by
        intro h
        obtain rfl := hl.unwritten_self (Pc.held_of_unwritten hy) h
        exact hnot ht'
      exact (finishSwap_of_not_mem hy').trans (hf t' (List.mem_cons_of_mem _ ht') y hy)
    · by_cases hy : y ∈ (s.thread t).pc.unwritten
      · exact finishSwap_of_mem hL (hc.placed t) (hf t List.mem_cons_self) hy hj
      · refine (finishSwap_of_not_mem hy).trans (hrest j y hj fun t' ht' => ?_)
        rcases List.mem_cons.mp ht' with rfl | ht'
        · exact hy
        · exact hun t' ht'

/-- After the remaining writes of all swaps in progress, the pointers are those of the list. -/
theorem completed_eq (hc : Coupled routine first rest s L) (hl : Locked routine s) (hL : L.Nodup)
    {i : ℕ} {x : N} (hi : L[i]? = some x) : s.completed x = L[i + 1]? :=
  foldl_finishSwap hc hl hL (List.nodup_finRange m) (fun _ _ _ _ => rfl)
    (fun j y hj hun => hc.link j y hj fun t => hun t (List.mem_finRange t)) hi

/-- In every reachable state, after the remaining pointer writes of the swaps in progress, following
`next` from the first node visits every initial node exactly once and then ends. -/
theorem nodes_visited_once (hnodup : (first :: rest).Nodup)
    (hrun : Reachable (step kind routine first) (initial m first rest) s) :
    ∃ L, L.Perm (first :: rest) ∧ Visits s.completed (some first) L := by
  obtain ⟨hl, L, hc⟩ := coupled_of_reachable hnodup hrun
  have hL : L.Nodup := hc.perm.nodup_iff.mpr hnodup
  have hvisits := visits_of_next fun i x hi => completed_eq hc hl hL hi
  rw [List.head?_eq_getElem?, hc.head] at hvisits
  exact ⟨L, hc.perm, hvisits⟩

/-- Steps of one thread, with the answer of `__needs_swap`. -/
def threadSteps (t : Fin m) (needsSwap : Bool) (n : ℕ) : List (ListEvent m) :=
  List.replicate n (.run t needsSwap)

/-- Two swappers and a reader on three nodes. -/
def twoSwappers (t : Fin 3) : Routine := if t = 2 then .compare .asc else .swap

/-- The first swapper has exchanged the last two of three nodes but for its last write, and the
reader waits behind it: the nodes are all there. -/
theorem nodes_visited_once_in_swap :
    ∃ s, Reachable (step .rwlock twoSwappers 0) (initial 3 0 [1, 2]) s ∧
      (s.thread 0).pc = .writeNext 1 2 ∧ s.next 1 = none ∧ s.next 2 = none ∧
      ∃ L : List ℕ, L.Perm [0, 1, 2] ∧ Visits s.completed (some 0) L := by
  have hrun := Run.get_execWhere (step .rwlock twoSwappers 0) anyStep (initial 3 0 [1, 2])
    (threadSteps 0 true 13 ++ threadSteps 2 false 4) (by decide +kernel)
  exact ⟨_, hrun, by decide +kernel, by decide +kernel, by decide +kernel,
    nodes_visited_once (by decide) hrun⟩

end ListState

end OsLabs.SwapList
