import OsLabs.SwapList.Passes

/-!
# Lock coupling does not deadlock

The nodes are locked in the order of the list, and the swappers change this order.  But a thread
that waits stands at a position of the abstract list: the node that it waits for lies behind all the
nodes that it holds.  Along threads that wait for each other this position grows, in whatever list
the swappers have made by then.
-/

namespace OsLabs.SwapList

open Transition LinkedList

section Positions

variable {N : Type*} {kind : LockKind} {first : N} {r : Routine} {pc pc' : Pc N} {a : Answer N}
  {next : N → Option N} {L : List N} {k : ℕ} {mode : LockMode} {x y : N}

/-- The position of the node that a thread is about to lock in its iteration `k`. -/
def Pc.lockIndex (k : ℕ) : Pc N → ℕ
  | .lockCur .. => k + 1
  | .lockNext .. => k + 2
  | _ => 0

/-- A thread is about to lock the node at that position. -/
lemma Goes.lockIndex (h : Goes kind first a r pc (.lock mode x) pc') (hat : pc.At next L k)
    (hhead : L[0]? = some first) : L[pc.lockIndex k]? = some x := by
  cases h with
  | lockFirst => exact hhead
  | lockCur | lockSwap => exact hat.2
  | lockNext => exact hat.2.2

/-- The nodes that it holds are in front of that position. -/
lemma Goes.held_before (h : Goes kind first a r pc (.lock mode x) pc') (hat : pc.At next L k)
    (hy : y ∈ pc.held) : ∃ i < pc.lockIndex k, L[i]? = some y := by
  cases h with
  | lockFirst => cases hy
  | lockCur | lockSwap =>
    obtain rfl := List.mem_singleton.mp hy
    exact ⟨k, Nat.lt_succ_self k, hat.1⟩
  | lockNext =>
    rcases List.mem_pair.mp hy with rfl | rfl
    · exact ⟨k, Nat.lt_add_of_pos_right Nat.two_pos, hat.1⟩
    · exact ⟨k + 1, Nat.lt_succ_self _, hat.2.1⟩

/-- Between two passes a thread holds no node. -/
lemma Pc.held_of_not_inPass (h : pc.inPass = false ∨ pc.passEnded = true) : pc.held = [] := by
  cases pc <;> first | rfl | simp [Pc.inPass, Pc.passEnded] at h

end Positions

namespace ListState

variable {N : Type*} {m : ℕ} {kind : LockKind} {routine : Fin m → Routine} {first : N}
  {rest : List N} {s : ListState N m} {L : List N} {t t' t'' : Fin m} {op : Op N}

/-- The next access of a thread. -/
def nextOp (kind : LockKind) (routine : Fin m → Routine) (first : N) (s : ListState N m)
    (t : Fin m) : Option (Op N) :=
  ((routine t).program kind first (s.thread t).pc).map Prod.fst

/-- The thread `t` is about to lock a node that `t'` holds, in whatever mode: it has to wait for
`t'`, or it can have to where a lock prefers writers. -/
def WaitsFor (kind : LockKind) (routine : Fin m → Routine) (first : N) (s : ListState N m)
    (t t' : Fin m) : Prop :=
  ∃ mode x, s.nextOp kind routine first t = some (.lock mode x) ∧ t' ∈ (s.lock x).holders

/-- The next access of a thread is one of its steps. -/
lemma goes_of_nextOp (h : s.nextOp kind routine first t = some op) (a : Answer N) :
    ∃ pc', Goes kind first a (routine t) (s.thread t).pc op pc' := by
  obtain ⟨⟨op', f⟩, hprog, rfl⟩ := Option.map_eq_some_iff.mp h
  exact ⟨f a, goes_of_program hprog⟩

/-- The position that is waited for grows along waiting threads. -/
lemma WaitsFor.lockIndex_lt (hl : Locked routine s) (hc : Coupled routine first rest s L)
    (hL : L.Nodup) (h : s.WaitsFor kind routine first t t')
    (h' : s.WaitsFor kind routine first t' t'') :
    (s.thread t).pc.lockIndex (s.thread t).iterations <
      (s.thread t').pc.lockIndex (s.thread t').iterations := by
  obtain ⟨mode, x, hop, hx⟩ := h
  obtain ⟨mode', x', hop', -⟩ := h'
  obtain ⟨_, hgo⟩ := goes_of_nextOp hop ⟨none, false⟩
  obtain ⟨_, hgo'⟩ := goes_of_nextOp hop' ⟨none, false⟩
  have hindex := hgo.lockIndex (hc.placed t) hc.head
  obtain ⟨i, hi, hix⟩ := hgo'.held_before (hc.placed t') ((hl.holders t' x).mp hx)
  rwa [index_unique hL hindex hix]

variable [DecidableEq N]

/-- In every reachable state no threads wait for each other in a cycle, no thread is about to lock a
node that it holds or to unlock one that it does not hold, and a thread that has ended its pass, or
is not in one, holds no lock. -/
theorem deadlock_free (hnodup : (first :: rest).Nodup)
    (hrun : Reachable (step kind routine first) (initial m first rest) s) (t : Fin m) :
    ¬ Relation.TransGen (s.WaitsFor kind routine first) t t ∧
    (∀ mode x, s.nextOp kind routine first t = some (.lock mode x) → t ∉ (s.lock x).holders) ∧
    (∀ x, s.nextOp kind routine first t = some (.unlock x) → t ∈ (s.lock x).holders) ∧
    ((s.thread t).pc.inPass = false ∨ (s.thread t).pc.passEnded = true →
      ∀ x, t ∉ (s.lock x).holders) := by
  obtain ⟨hl, L, hc⟩ := coupled_of_reachable hnodup hrun
  have hL : L.Nodup := hc.perm.nodup_iff.mpr hnodup
  refine ⟨?_, ?_, ?_, ?_⟩
  · have hrank : ∀ t t' t'', s.WaitsFor kind routine first t t' →
        s.WaitsFor kind routine first t' t'' →
        (s.thread t).pc.lockIndex (s.thread t).iterations <
          (s.thread t').pc.lockIndex (s.thread t').iterations := fun t t' t'' h h' =>
      WaitsFor.lockIndex_lt hl hc hL h h'
    exact LockState.waitsFor_acyclic _ hrank t
  · intro mode x hop hmem
    obtain ⟨_, hgo⟩ := goes_of_nextOp hop ⟨none, false⟩
    exact hgo.lock_not_held (hc.placed t) hL ((hl.holders t x).mp hmem)
  · intro x hop
    obtain ⟨_, hgo⟩ := goes_of_nextOp hop ⟨none, false⟩
    exact (hl.holders t x).mpr hgo.held_unlock.1
  · intro hpass x hmem
    have hheld := (hl.holders t x).mp hmem
    rw [Pc.held_of_not_inPass hpass] at hheld
    cases hheld

/-- The reader waits for the first swapper, which is about to lock the last node: nobody holds
that one. -/
theorem deadlock_free_in_swap :
    ∃ s, Reachable (step .rwlock twoSwappers 0) (initial 3 0 [1, 2]) s ∧
      s.WaitsFor .rwlock twoSwappers 0 2 0 ∧
      s.nextOp .rwlock twoSwappers 0 0 = some (.lock .exclusive 2) ∧
      ¬ Relation.TransGen (s.WaitsFor .rwlock twoSwappers 0) 2 2 ∧
      0 ∉ (s.lock 2).holders := by
  have hrun := Run.get_execWhere (step .rwlock twoSwappers 0) anyStep (initial 3 0 [1, 2])
    (threadSteps 0 true 7 ++ threadSteps 2 false 1) (by decide +kernel)
  exact ⟨_, hrun, ⟨.shared, 0, rfl, by decide +kernel⟩, rfl,
    (deadlock_free (by decide) hrun 2).1, (deadlock_free (by decide) hrun 0).2.1 .exclusive 2 rfl⟩

end ListState

end OsLabs.SwapList
