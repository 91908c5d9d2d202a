import OsLabs.SwapList.Integrity

/-!
# A pass sees every node once

The iteration number of a thread is its position in the abstract list, whatever the swappers do in
front of it, behind it and right next to it.  A pass therefore ends after as many iterations as the
list has nodes behind the first one, and a pass of `__compare_routine` has then visited all nodes.
-/

namespace OsLabs.SwapList

open Transition LinkedList

/-- The iterations that have begun and not ended: one inside the body of the loop. -/
def Pc.begun {N : Type*} : Pc N → ℕ
  | .loop | .lockFirst | .test _ | .unlockLast _ | .count | .exited | .fault _ => 0
  | _ => 1

/-- The thread is in a pass: it has locked the first node, and it has not yet counted the pass. -/
def Pc.inPass {N : Type*} : Pc N → Bool
  | .loop | .lockFirst | .exited => false
  | _ => true

/-- The thread has ended a pass and unlocked its last node. -/
def Pc.passEnded {N : Type*} : Pc N → Bool
  | .count => true
  | _ => false

namespace ListState

variable {N : Type*} [DecidableEq N] {m : ℕ} {kind : LockKind} {routine : Fin m → Routine}
  {first : N} {rest : List N} {s : ListState N m} {L : List N} {pc : Pc N} {next : N → Option N}
  {k : ℕ}

omit [DecidableEq N] in
/-- The iterations of a pass, ended or begun, are fewer than the nodes. -/
lemma At.begun_lt (h : pc.At next L k) (hpass : pc.inPass = true) : k + pc.begun < L.length := by
  have hlt : ∀ {i : ℕ} {x : N}, L[i]? = some x → i < L.length := fun hx =>
    (List.getElem?_eq_some_iff.mp hx).1
  cases pc <;> simp only [Pc.At] at h <;> simp only [Pc.begun] <;> grind [Pc.inPass]

/-- The second read of `prev->next` never answers `NULL`: what the test of the loop has seen stays
true as long as the thread holds `prev`. -/
theorem cur_exists (hnodup : (first :: rest).Nodup)
    (hrun : Reachable (step kind routine first) (initial m first rest) s) (t : Fin m) (prev : N) :
    (s.thread t).pc ≠ .fault prev := by
  obtain ⟨-, L, hc⟩ := coupled_of_reachable hnodup hrun
  intro hpc
  have hat := hc.placed t
  rwa [hpc] at hat

/-- When a pass of a compare thread has ended, it has visited every node exactly once and has
compared one pair less than there are nodes; a pass of `swap_routine` begins at most one iteration
less than there are nodes. -/
theorem passes_exact (hnodup : (first :: rest).Nodup)
    (hrun : Reachable (step kind routine first) (initial m first rest) s) (t : Fin m) :
    (∀ type, routine t = .compare type → (s.thread t).pc.passEnded = true →
      (s.thread t).visited.Perm (first :: rest) ∧ (s.thread t).comparisons = rest.length) ∧
    (routine t = .swap → (s.thread t).pc.inPass = true →
      (s.thread t).iterations + (s.thread t).pc.begun ≤ rest.length) := by
  obtain ⟨hl, L, hc⟩ := coupled_of_reachable hnodup hrun
  have hlen : L.length = rest.length + 1 := hc.perm.length_eq
  have hat := hc.placed t
  refine ⟨fun type hr hend => ?_, fun hr hpass => ?_⟩
  · have hpc : (s.thread t).pc = .count := by
      cases h : (s.thread t).pc <;> first | rfl | (rw [h] at hend; cases hend)
    have hvisits := hc.visits t type hr
    rw [Thread.Visits, hpc] at hvisits
    rw [hpc] at hat
    obtain ⟨hperm, hcount⟩ := hvisits
    have hall : (s.thread t).iterations + 1 = L.length := hat
    rw [hall, List.take_length] at hperm
    exact ⟨hperm.trans hc.perm, by omega⟩
  · have hlt := At.begun_lt hat hpass
    omega

/-- A reader that enters while the swapper exchanges the nodes behind the first one completes its
pass over the three nodes in their new order. -/
theorem passes_exact_during_swap :
    ∃ s, Reachable (step .rwlock twoSwappers 0) (initial 3 0 [1, 2]) s ∧
      (s.thread 2).pc.passEnded = true ∧ (s.thread 2).visited = [1, 2, 0] ∧
      (s.thread 2).visited.Perm [0, 1, 2] ∧ (s.thread 2).comparisons = [1, 2].length := by
  have hrun := Run.get_execWhere (step .rwlock twoSwappers 0) anyStep (initial 3 0 [1, 2])
    (threadSteps 0 true 11 ++ threadSteps 2 false 4 ++ threadSteps 0 true 10 ++
      threadSteps 2 false 10) (by decide +kernel)
  exact ⟨_, hrun, by decide +kernel, by decide +kernel,
    (passes_exact (by decide) hrun 2).1 .asc rfl (by decide +kernel)⟩

end ListState

end OsLabs.SwapList
