import OsLabs.Foundation.Census
import OsLabs.SwapList.Deadlock

/-!
# The end of the program of task 3

`main` of `lab2/src/3/main.c` sets `ll->stop`, joins the threads and calls `linked_list_destroy`.
Three things make it come to its end.  As long as a thread has not returned, one of them can go on:
the position that a thread waits for grows along threads that wait for each other
(`exists_canStep`).  After `ll->stop` is set, every step of a thread brings it nearer to the end of
its pass, which is at most one iteration for every node away (`Pc.stepsLeft`).  And when all threads
have returned, no swap is in progress, so that `linked_list_destroy` goes through the whole list.
-/

namespace OsLabs.SwapList

open Transition LinkedList

variable {N : Type*} {kind : LockKind} {first : N} {r : Routine} {pc pc' : Pc N} {op : Op N}
  {a : Answer N} {next : N → Option N} {L l : List N} {k n : ℕ} {x : N}

/-! ## The steps that are left -/

/-- A bound for the steps of a thread until it returns, when `ll->stop` is set: the list has `n`
nodes behind the first one, and the thread has ended `k` iterations. -/
def Pc.stepsLeft (n k : ℕ) : Pc N → ℕ
  | .exited | .fault _ => 0
  | .loop => 1
  | .count => 2
  | .unlockLast _ => 3
  | .lockFirst => 12 * n + 5
  | .test _ => 12 * (n - k) + 4
  | .needsSwap _ => 12 * (n - k - 1) + 15
  | .readCur .. => 12 * (n - k - 1) + 14
  | .lockCur .. => 12 * (n - k - 1) + 13
  | .unlockPrev .. | .readNext .. => 12 * (n - k - 1) + 12
  | .compare _ | .unlockSwap .. | .lockNext .. => 12 * (n - k - 1) + 11
  | .writePrev .. => 12 * (n - k - 1) + 10
  | .releasePrev .. => 12 * (n - k - 1) + 9
  | .readTail .. => 12 * (n - k - 1) + 8
  | .writeCur .. => 12 * (n - k - 1) + 7
  | .releaseCur .. => 12 * (n - k - 1) + 6
  | .writeNext .. => 12 * (n - k - 1) + 5

/-- The bound for a thread. -/
def Thread.stepsLeft (n : ℕ) (thread : Thread N) : ℕ := thread.pc.stepsLeft n thread.iterations

/-- No thread has more steps left than a pass and a bit. -/
lemma Thread.stepsLeft_le (n : ℕ) (thread : Thread N) : thread.stepsLeft n ≤ 12 * n + 15 := by
  obtain ⟨pc, visited, comparisons, k⟩ := thread
  cases pc <;> simp only [Thread.stepsLeft, Pc.stepsLeft] <;> omega

/-- Every step lowers the bound, unless a new pass begins. -/
lemma Goes.stepsLeft_lt {thread : Thread N} (h : Goes kind first a r thread.pc op pc')
    (hloop : thread.pc = .loop → pc' = .exited) (hlength : L.length = n + 1)
    (hat : pc'.At next L (thread.advance r first pc').iterations) :
    (thread.advance r first pc').stepsLeft n < thread.stepsLeft n := by
  obtain ⟨pc, visited, comparisons, k⟩ := thread
  dsimp only at h hloop
  cases h with
  | begin => cases hloop rfl
  | moreCompare | moreSwap =>
    have hlt : k + 1 < L.length := hat.2
    simp only [Thread.stepsLeft, Thread.advance, Pc.stepsLeft]
    omega
  | _ =>
    simp only [Thread.stepsLeft, Thread.advance, Pc.stepsLeft]
    omega

/-- `ll->stop` is set. -/
def ListEvent.isStop {m : ℕ} : ListEvent m → Bool
  | .setStop => true
  | .run _ _ => false

/-! ## Destruction -/

/-- `linked_list_destroy` from `cur` on: the nodes that it frees, after those that were freed
before; `none` if it would read a node that was freed.  The first argument bounds the rounds. -/
def linkedListDestroy [DecidableEq N] (next : N → Option N) : ℕ → N → List N → Option (List N)
  | 0, _, _ => none
  | rounds + 1, cur, freed =>
    if cur ∈ freed then none
    else
      match next cur with
      | none => some (freed ++ [cur])
      | some tmp => linkedListDestroy next rounds tmp (freed ++ [cur])

/-- Along a list without repetitions every node is freed once. -/
lemma linkedListDestroy_eq [DecidableEq N] {freed : List N}
    (hvisits : Visits next (some x) (x :: l)) (hnodup : (freed ++ x :: l).Nodup) :
    linkedListDestroy next (x :: l).length x freed = some (freed ++ x :: l) := by
  induction l generalizing x freed with
  | nil =>
    have hnot : x ∉ freed := fun hmem =>
      (List.nodup_append.mp hnodup).2.2 x hmem x List.mem_cons_self rfl
    have hlast : next x = none := by
      cases hvisits with
      | cons hrest =>
        generalize next x = p at hrest
        cases hrest
        rfl
    rw [List.length_singleton, linkedListDestroy, if_neg hnot, hlast]
  | cons y l ih =>
    have hnot : x ∉ freed := fun hmem =>
      (List.nodup_append.mp hnodup).2.2 x hmem x List.mem_cons_self rfl
    cases hvisits with
    | cons hrest =>
      have hnext : next x = some y := by
        generalize next x = p at hrest
        cases hrest
        rfl
      rw [hnext] at hrest
      rw [← List.singleton_append, ← List.append_assoc] at hnodup
      rw [List.length_cons, linkedListDestroy, if_neg hnot, hnext]
      change linkedListDestroy next (y :: l).length y (freed ++ [x]) = _
      rw [ih hrest hnodup, List.append_assoc, List.singleton_append]

namespace ListState

variable {m : ℕ} {routine : Fin m → Routine} {rest : List N} {s s' : ListState N m} {t : Fin m}
  {needsSwap : Bool} {es : List (ListEvent m)}

/-! ## Somebody can go on -/

/-- A thread that compares runs a compare routine, and a shared lock is shared by somebody. -/
structure Tidy (routine : Fin m → Routine) (s : ListState N m) : Prop where
  comparing : ∀ t cur, (s.thread t).pc = .compare cur → routine t ≠ .swap
  shared : ∀ x, s.lock x ≠ .shared []

/-- A thread that has not returned has a next access. -/
lemma exists_program (hpc : pc ≠ .exited) (hfault : ∀ prev, pc ≠ .fault prev)
    (hswap : pc.swapOnly = true → r = .swap) (hcompare : ∀ cur, pc = .compare cur → r ≠ .swap) :
    ∃ op f, r.program kind first pc = some (op, f) := by
  cases r with
  | compare type =>
    cases pc with
    | exited => exact absurd rfl hpc
    | fault prev => exact absurd rfl (hfault prev)
    | needsSwap | readNext | unlockSwap | lockNext | writePrev | releasePrev | readTail | writeCur
      | releaseCur | writeNext => cases hswap rfl
    | _ => exact ⟨_, _, rfl⟩
  | swap =>
    cases pc with
    | exited => exact absurd rfl hpc
    | fault prev => exact absurd rfl (hfault prev)
    | compare cur => exact absurd rfl (hcompare cur rfl)
    | _ => exact ⟨_, _, rfl⟩

variable [DecidableEq N]

/-- An access leaves no lock shared by nobody. -/
lemma shared_access {s₁ : ListState N m} (h : ∀ x, s.lock x ≠ .shared [])
    (hs₁ : s.access t op = some s₁) (x : N) : s₁.lock x ≠ .shared [] := by
  have hchange : ∀ y l, l ≠ .shared [] → Function.update s.lock y l x ≠ .shared [] := by
    intro y l hl
    rw [Function.update_apply]
    split_ifs
    · exact hl
    · exact h x
  cases op with
  | lock mode y =>
    obtain ⟨l, hl, rfl⟩ := Option.map_eq_some_iff.mp hs₁
    apply hchange
    rintro rfl
    cases LockState.holders_acquire hl
  | unlock y =>
    cases hs₁
    apply hchange
    unfold LockState.release
    split
    · split_ifs with herase
      · nofun
      · exact fun heq => herase (LockState.shared.inj heq)
    · nofun
    · nofun
  | readStop | readNext | writeNext | internal =>
    cases hs₁
    exact h x

/-- Every step keeps this. -/
lemma Tidy.step {e : ListEvent m} (h : Tidy routine s)
    (hst : s.step kind routine first e = some s') : Tidy routine s' := by
  cases e with
  | setStop =>
    cases hst
    exact ⟨h.comparing, h.shared⟩
  | run u needsSwap =>
    obtain ⟨op, pc', s₁, hgo, hs₁, rfl⟩ := step_run hst
    refine ⟨fun t cur hpc => ?_, fun x => shared_access h.shared hs₁ x⟩
    rw [pc_step routine first pc' hs₁] at hpc
    split_ifs at hpc with htu
    · rw [hpc] at hgo
      rw [htu]
      generalize routine u = r at hgo
      generalize (s.thread u).pc = pc at hgo
      cases hgo
      exact Routine.noConfusion
    · exact h.comparing t cur hpc

/-- What is known in every reachable state. -/
lemma tidy_of_reachable (hrun : Reachable (step kind routine first) (initial m first rest) s) :
    Tidy routine s := by
  apply hrun.invariant (I := Tidy routine)
  · refine ⟨fun t cur hpc => ?_, fun x => nofun⟩
    cases hpc
  · intro s e s' hs _ hst
    exact hs.step hst

/-- The thread can go on, whatever `__needs_swap` answers. -/
def CanStep (kind : LockKind) (routine : Fin m → Routine) (first : N) (s : ListState N m)
    (t : Fin m) : Prop :=
  ∀ needsSwap, (s.step kind routine first (.run t needsSwap)).isSome = true

/-- A lock that cannot be taken has a holder. -/
lemma exists_holder {mode : LockMode} {lock : LockState (Fin m)}
    (h : lock.acquire mode t = none) (hne : lock ≠ .shared []) : ∃ t', t' ∈ lock.holders := by
  cases lock with
  | free => cases mode <;> cases h
  | exclusive t' => exact ⟨t', List.mem_singleton.mpr rfl⟩
  | shared threads =>
    cases threads with
    | nil => exact absurd rfl hne
    | cons t' threads => exact ⟨t', List.mem_cons_self⟩

/-- A thread that has not returned can go on, or waits for one that has not returned either. -/
lemma canStep_or_waitsFor (hl : Locked routine s) (hc : Coupled routine first rest s L)
    (htidy : Tidy routine s) (hpc : (s.thread t).pc ≠ .exited) :
    CanStep kind routine first s t ∨
      ∃ t', s.WaitsFor kind routine first t t' ∧ (s.thread t').pc ≠ .exited := by
  have hfault : ∀ prev, (s.thread t).pc ≠ .fault prev := by
    intro prev heq
    have hat := hc.placed t
    rwa [heq] at hat
  obtain ⟨op, f, hprog⟩ : ∃ op f, (routine t).program kind first (s.thread t).pc = some (op, f) :=
    exists_program hpc hfault (hl.role t) (htidy.comparing t)
  cases haccess : s.access t op with
  | some s₁ =>
    refine Or.inl fun needsSwap => ?_
    simp only [step, hprog, haccess, Option.map_some, Option.isSome_some]
  | none =>
    -- only a lock call can fail
    cases op with
    | lock mode x =>
      obtain ⟨t', ht'⟩ := exists_holder (Option.map_eq_none_iff.mp haccess) (htidy.shared x)
      refine Or.inr ⟨t', ⟨mode, x, by rw [nextOp, hprog, Option.map_some], ht'⟩, fun hexit => ?_⟩
      have hheld := (hl.holders t' x).mp ht'
      rw [hexit] at hheld
      cases hheld
    | readStop | readNext | unlock | writeNext | internal => cases haccess

/-- As long as some thread has not returned, one of these can go on. -/
lemma exists_canStep (hl : Locked routine s) (hc : Coupled routine first rest s L) (hL : L.Nodup)
    (htidy : Tidy routine s) (hpc : (s.thread t).pc ≠ .exited) :
    ∃ u, (s.thread u).pc ≠ .exited ∧ CanStep kind routine first s u := by
  have hrank : ∀ t t' t'', s.WaitsFor kind routine first t t' →
      s.WaitsFor kind routine first t' t'' →
      (s.thread t).pc.lockIndex (s.thread t).iterations <
        (s.thread t').pc.lockIndex (s.thread t').iterations :=
    fun _ _ _ h h' => h.lockIndex_lt hl hc hL h'
  have hbound : ∀ t t', s.WaitsFor kind routine first t t' →
      (s.thread t).pc.lockIndex (s.thread t).iterations < L.length := by
    rintro t t' ⟨mode, x, hop, -⟩
    obtain ⟨_, hgo⟩ := goes_of_nextOp hop ⟨none, false⟩
    exact (List.getElem?_eq_some_iff.mp (hgo.lockIndex (hc.placed t) hc.head)).1
  exact LockState.exists_free_of_rank _ hrank hbound
    (fun _ ht => canStep_or_waitsFor hl hc htidy ht) hpc

/-! ## After `ll->stop` is set -/

/-- An access does not change `ll->stop`. -/
lemma stop_access {s₁ : ListState N m} (h : s.access t op = some s₁) : s₁.stop = s.stop := by
  cases op with
  | lock mode x =>
    obtain ⟨l, -, rfl⟩ := Option.map_eq_some_iff.mp h
    rfl
  | readStop | readNext | unlock | writeNext | internal =>
    cases h
    rfl

/-- A thread that finds `ll->stop` set returns. -/
lemma exited_of_stop (hst : s.step kind routine first (.run t needsSwap) = some s')
    (hstop : s.stop = true) (hpc : (s.thread t).pc = .loop) : (s'.thread t).pc = .exited := by
  have hprog : (routine t).program kind first .loop =
      some (.readStop, fun a => if a.flag then .exited else .lockFirst) := by
    cases routine t <;> rfl
  rw [step, hpc, hprog] at hst
  obtain ⟨s₁, hs₁, rfl⟩ := Option.map_eq_some_iff.mp hst
  rw [pc_step routine first _ hs₁, if_pos rfl]
  exact if_pos hstop

/-- What is known after `ll->stop` was set. -/
structure Stopping (routine : Fin m → Routine) (first : N) (rest : List N) (s : ListState N m) :
    Prop where
  stop : s.stop = true
  locked : Locked routine s
  coupled : ∃ L, Coupled routine first rest s L

/-- Setting `ll->stop` brings no thread nearer to its end. -/
def stopSlack (_ : ListState N m) (e : ListEvent m) : ℕ := if e = .setStop then 1 else 0

omit [DecidableEq N] in
/-- Only these steps are granted something. -/
lemma stopSlack_le (s : ListState N m) (e : ListEvent m) :
    stopSlack s e ≤ 1 * e.isStop.toNat := by
  cases e with
  | setStop => exact Nat.le_refl 1
  | run => exact Nat.zero_le _

/-- Every step but setting `ll->stop` again brings the threads nearer to their ends. -/
lemma Stopping.step {e : ListEvent m} (hnodup : (first :: rest).Nodup)
    (h : Stopping routine first rest s) (hst : s.step kind routine first e = some s') :
    Stopping routine first rest s' ∧
      total s'.thread (Thread.stepsLeft rest.length) + 1 ≤
        total s.thread (Thread.stepsLeft rest.length) + stopSlack s e := by
  obtain ⟨hl', hc'⟩ := coupled_step hnodup h.coupled h.locked hst
  cases e with
  | setStop =>
    cases hst
    exact ⟨⟨rfl, hl', hc'⟩, Nat.le_refl _⟩
  | run t needsSwap =>
    have hloop := exited_of_stop hst h.stop
    obtain ⟨op, pc', s₁, hgo, hs₁, rfl⟩ := step_run hst
    obtain ⟨L, hcL⟩ := hc'
    refine ⟨⟨(stop_access hs₁).trans h.stop, hl', L, hcL⟩, ?_⟩
    have hthread : (s₁.advance routine first t pc').thread =
        Function.update s.thread t ((s.thread t).advance (routine t) first pc') := by
      rw [← thread_access hs₁]
      rfl
    have hat := hcL.placed t
    rw [hthread, Function.update_self] at hat hloop
    rw [Thread.pc_advance] at hat hloop
    have hlt := hgo.stepsLeft_lt hloop hcL.perm.length_eq hat
    have htotal := total_update s.thread (Thread.stepsLeft rest.length) t
      ((s.thread t).advance (routine t) first pc')
    rw [hthread, stopSlack, if_neg nofun]
    omega

/-- After `ll->stop` was set, the threads have a bounded number of steps left. -/
lemma Stopping.length_le (hnodup : (first :: rest).Nodup) (h : Stopping routine first rest s)
    (hexec : execWhere (ListState.step kind routine first) anyStep s es = some s') :
    es.length ≤ m * (12 * rest.length + 15) + es.countP ListEvent.isStop := by
  have hstep : ∀ s e t, Stopping routine first rest s → anyStep s e →
      s.step kind routine first e = some t → Stopping routine first rest t ∧
        total t.thread (Thread.stepsLeft rest.length) + 1 ≤
          total s.thread (Thread.stepsLeft rest.length) + stopSlack s e :=
    fun _ _ _ hs _ hst => hs.step hnodup hst
  have hlength := length_le_of_potential h hstep hexec
  have hgranted : granted (ListState.step kind routine first) stopSlack s es ≤
      1 * es.countP ListEvent.isStop := granted_le stopSlack_le s es
  have htotal : total s.thread (Thread.stepsLeft rest.length) ≤
      Fintype.card (Fin m) * (12 * rest.length + 15) := total_le (Thread.stepsLeft_le rest.length)
  rw [Fintype.card_fin] at htotal
  omega

omit [DecidableEq N] in
/-- When all threads have returned, `next` leads through the whole list. -/
lemma Coupled.visits_of_exited (hc : Coupled routine first rest s L)
    (hexited : ∀ t, (s.thread t).pc = .exited) : Visits s.next (some first) L := by
  have hnext : ∀ i x, L[i]? = some x → s.next x = L[i + 1]? := by
    intro i x hi
    apply hc.link i x hi
    intro t
    rw [hexited t]
    exact List.not_mem_nil
  have hvisits := visits_of_next hnext
  rwa [List.head?_eq_getElem?, hc.head] at hvisits

/-- Any number of threads that swap and compare, in every interleaving and for each kind of lock: as
long as some thread has not returned, one of these can go on; after `ll->stop` was set, they have
boundedly many steps left, so that all of them return; and when they have returned,
`linked_list_destroy` reads no node that it has freed and frees every node of the list once. -/
theorem list_program_ends (hnodup : (first :: rest).Nodup)
    (hrun : Reachable (step kind routine first) (initial m first rest) s) :
    ((∃ t, (s.thread t).pc ≠ .exited) →
      ∃ t, (s.thread t).pc ≠ .exited ∧ CanStep kind routine first s t) ∧
    (s.stop = true → ∀ es s', execWhere (step kind routine first) anyStep s es = some s' →
      es.length ≤ m * (12 * rest.length + 15) + es.countP ListEvent.isStop) ∧
    ((∀ t, (s.thread t).pc = .exited) → ∃ freed : List N,
      linkedListDestroy s.next (first :: rest).length first [] = some freed ∧
        freed.Perm (first :: rest)) := by
  obtain ⟨hl, L, hc⟩ := coupled_of_reachable hnodup hrun
  have hL : L.Nodup := hc.perm.nodup_iff.mpr hnodup
  refine ⟨?_, fun hstop es s' hexec => ?_, fun hexited => ?_⟩
  · rintro ⟨t, ht⟩
    exact exists_canStep hl hc hL (tidy_of_reachable hrun) ht
  · exact Stopping.length_le hnodup ⟨hstop, hl, L, hc⟩ hexec
  · have hvisits := hc.visits_of_exited hexited
    cases L with
    | nil => cases hc.head
    | cons x l =>
      obtain rfl := Option.some.inj hc.head
      refine ⟨x :: l, ?_, hc.perm⟩
      rw [← hc.perm.length_eq]
      exact linkedListDestroy_eq hvisits hL

/-- A swapper exchanges two nodes, `ll->stop` is set, all three threads return, and the nodes are
freed in their new order. -/
theorem list_program_ends_swapped : ∃ s : ListState ℕ 3,
    Reachable (step .rwlock twoSwappers 0) (initial 3 0 [1, 2]) s ∧
    (∀ t, (s.thread t).pc = .exited) ∧ ∃ freed : List ℕ,
      linkedListDestroy s.next [0, 1, 2].length 0 [] = some freed ∧ freed.Perm [0, 1, 2] := by
  have hrun := Run.get_execWhere (step .rwlock twoSwappers 0) anyStep (initial 3 0 [1, 2])
    (threadSteps 0 true 22 ++ [.setStop] ++ threadSteps 0 true 1 ++ threadSteps 1 false 1 ++
      threadSteps 2 false 1) (by decide +kernel)
  exact ⟨_, hrun, by decide +kernel,
    (list_program_ends (by decide) hrun).2.2 (by decide +kernel)⟩

end ListState

end OsLabs.SwapList
