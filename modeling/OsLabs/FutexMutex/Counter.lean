import OsLabs.Foundation.LockedCounter
import OsLabs.Foundation.MachineInt
import OsLabs.FutexMutex.Mutex

/-!
# The test of the two locks

`lab2/src/4/test.c`: threads that add one to `counter` again and again, behind the spinlock of
`spinlock/spinlock.c` (`increment_with_spinlock`) or behind the futex mutex of `mutex/mutex.c`
(`increment_with_mutex`).  `counter++` reads and writes in two steps.

Both locks keep the promises of a `LockSpec`, so the loops lose no increment under any schedule.
The spinlock bounds the work up to compare-exchanges that fail, the mutex up to wake-ups that come
for no reason: without these the mutex needs no fairness of the scheduler.
-/

namespace OsLabs.FutexMutex

open Transition LockedCounter

/-! ## The spinlock -/

/-- Where a thread is with respect to the functions of the spinlock. -/
inductive SpinPc
  /-- Outside both functions. -/
  | outside
  /-- At the compare-exchange of `spinlock_lock`. -/
  | lockCas
  /-- At the compare-exchange of `spinlock_unlock`. -/
  | unlockCas
  deriving DecidableEq, Repr

/-- The spinlock and the positions of all threads.  `holder` is not in the source: it records whose
compare-exchange has locked the word. -/
structure Spinlock (T : Type) where
  word : Status
  pc : T → SpinPc
  holder : Option T

namespace Spinlock

variable {T : Type}

/-- `spinlock_init`. -/
def init : Spinlock T := ⟨.unlock, fun _ => .outside, none⟩

variable [DecidableEq T]

/-- The thread is at another place. -/
def goTo (s : Spinlock T) (t : T) (pc : SpinPc) : Spinlock T :=
  { s with pc := Function.update s.pc t pc }

/-- The next step of `spinlock_lock` in a thread: `expected` is `STATUS_UNLOCK` in each round. -/
def spinlockLock (s : Spinlock T) (t : T) : Spinlock T :=
  if s.word = .unlock then { s.goTo t .outside with word := .lock, holder := some t } else s

/-- The step of `spinlock_unlock` in a thread, which ignores the answer. -/
def spinlockUnlock (s : Spinlock T) (t : T) : Spinlock T :=
  if s.word = .lock then { s.goTo t .outside with word := .unlock, holder := none }
  else s.goTo t .outside

/-- A thread makes a step inside of a function. -/
def step (s : Spinlock T) (t : T) (_ : Unit) : Option (Spinlock T) :=
  match s.pc t with
  | .outside => none
  | .lockCas => some (s.spinlockLock t)
  | .unlockCas => some (s.spinlockUnlock t)

/-- How the test uses the spinlock. -/
def calls : LockCalls T (Spinlock T) Unit where
  callLock s t := s.goTo t .lockCas
  callUnlock s t := s.goTo t .unlockCas
  step := step
  returned s t := decide (s.pc t = .outside)

/-- One if the next step of the thread is a compare-exchange of `spinlock_lock` that fails. -/
def failure (s : Spinlock T) (t : T) (_ : Unit) : ℕ :=
  if s.pc t = .lockCas ∧ s.word = .lock then 1 else 0

/-- What the positions say. -/
structure Sound (s : Spinlock T) : Prop where
  locked : s.word = .lock ↔ s.holder.isSome = true
  lockCas : ∀ t, s.pc t = .lockCas → s.holder ≠ some t
  unlockCas : ∀ t, s.pc t = .unlockCas → s.holder = some t

/-- The phase of a thread. -/
def phase (s : Spinlock T) (t : T) : Phase :=
  match s.pc t with
  | .outside => if s.holder = some t then .holding else .outside
  | .lockCas => .locking
  | .unlockCas => .unlocking

variable {s s' : Spinlock T} {t : T}

omit [DecidableEq T] in
/-- The word has one of two values. -/
lemma word_eq_lock (h : s.word ≠ .unlock) : s.word = .lock := by
  cases hword : s.word with
  | lock => rfl
  | unlock => exact absurd hword h

/-- A phase says where the thread is. -/
lemma phase_eq_iff : (s.phase t = .outside ↔ s.pc t = .outside ∧ s.holder ≠ some t) ∧
    (s.phase t = .holding ↔ s.pc t = .outside ∧ s.holder = some t) ∧
    (s.phase t = .locking ↔ s.pc t = .lockCas) ∧
    (s.phase t = .unlocking ↔ s.pc t = .unlockCas) := by
  unfold phase
  cases s.pc t with
  | lockCas => simp
  | unlockCas => simp
  | outside =>
    by_cases hholds : s.holder = some t
    · simp [hholds]
    · simp [hholds]

/-- The phases of the other threads depend on their positions and on whether they hold. -/
lemma phase_congr {u : T} (hpc : s'.pc u = s.pc u)
    (hholder : s'.holder = some u ↔ s.holder = some u) : s'.phase u = s.phase u := by
  unfold Spinlock.phase
  rw [hpc]
  simp only [hholder]

/-- The phases after the thread has moved while the holder is the same. -/
lemma phase_goTo {pc : SpinPc} {phase : Phase} (hphase : (s.goTo t pc).phase t = phase) :
    (s.goTo t pc).phase = Function.update s.phase t phase := by
  funext u
  rcases eq_or_ne u t with rfl | hne
  · rw [hphase, Function.update_self]
  · rw [Function.update_of_ne hne]
    exact phase_congr (Function.update_of_ne hne ..) Iff.rfl

namespace Sound

omit [DecidableEq T] in
/-- A new spinlock. -/
lemma init : Sound (Spinlock.init : Spinlock T) where
  locked := ⟨fun h => Status.noConfusion h, fun h => Bool.noConfusion h⟩
  lockCas := fun _ h => SpinPc.noConfusion h
  unlockCas := fun _ h => SpinPc.noConfusion h

/-- The thread moves while the holder is the same. -/
lemma goTo (h : s.Sound) {pc : SpinPc} (hlock : pc = .lockCas → s.holder ≠ some t)
    (hunlock : pc = .unlockCas → s.holder = some t) : (s.goTo t pc).Sound where
  locked := h.locked
  lockCas u hu := by
    rcases eq_or_ne u t with rfl | hne
    · exact hlock ((Function.update_self ..).symm.trans hu)
    · exact h.lockCas u ((Function.update_of_ne hne ..).symm.trans hu)
  unlockCas u hu := by
    rcases eq_or_ne u t with rfl | hne
    · exact hunlock ((Function.update_self ..).symm.trans hu)
    · exact h.unlockCas u ((Function.update_of_ne hne ..).symm.trans hu)

omit [DecidableEq T] in
/-- Nobody holds a free spinlock. -/
lemma holder_eq_none (h : s.Sound) (hword : s.word = .unlock) : s.holder = none := by
  rw [← Option.not_isSome_iff_eq_none, ← h.locked, hword]
  exact Status.noConfusion

/-- A compare-exchange of `spinlock_lock`. -/
lemma spinlockLock (h : s.Sound) (ht : s.pc t = .lockCas) : (s.spinlockLock t).Sound := by
  unfold Spinlock.spinlockLock
  split_ifs with hword
  · have hnone := h.holder_eq_none hword
    refine ⟨iff_of_true rfl rfl, fun u hu heq => ?_, fun u hu => ?_⟩
    · obtain rfl := Option.some.inj heq
      cases (Function.update_self ..).symm.trans hu
    · rcases eq_or_ne u t with rfl | hne
      · cases (Function.update_self ..).symm.trans hu
      · have hholds := h.unlockCas u ((Function.update_of_ne hne ..).symm.trans hu)
        cases hnone.symm.trans hholds
  · exact h

/-- A compare-exchange of `spinlock_unlock`. -/
lemma spinlockUnlock (h : s.Sound) (ht : s.pc t = .unlockCas) : (s.spinlockUnlock t).Sound := by
  have hholds := h.unlockCas t ht
  unfold Spinlock.spinlockUnlock
  rw [if_pos (h.locked.mpr (hholds ▸ rfl))]
  refine ⟨iff_of_false Status.noConfusion Bool.noConfusion, fun u _ heq => ?_, fun u hu => ?_⟩
  · cases heq
  · rcases eq_or_ne u t with rfl | hne
    · cases (Function.update_self ..).symm.trans hu
    · have hholds' := h.unlockCas u ((Function.update_of_ne hne ..).symm.trans hu)
      exact absurd (Option.some.inj (hholds'.symm.trans hholds)) hne

end Sound

/-- A step inside of a function: the phases, and the compare-exchange that locks is repeated if it
fails. -/
lemma phase_of_step (h : s.Sound) {c : Unit} (hst : s.step t c = some s') :
    s'.Sound ∧ (∀ u, u ≠ t → s'.phase u = s.phase u ∧ s'.pc u = s.pc u) ∧
    (s.pc t = .lockCas ∧ (s' = s ∧ s.failure t c = 1 ∨
        s'.phase t = .holding ∧ s'.pc t = .outside ∧ s.failure t c = 0) ∨
      s.pc t = .unlockCas ∧ s'.phase t = .outside ∧ s'.pc t = .outside ∧ s.failure t c = 0) := by
  unfold step at hst
  have hself : ∀ pc, Function.update s.pc t pc t = pc := fun pc => Function.update_self ..
  cases hpc : s.pc t with
  | outside =>
    rw [hpc] at hst
    cases hst
  | lockCas =>
    rw [hpc] at hst
    cases hst
    refine ⟨h.spinlockLock hpc, ?_⟩
    unfold spinlockLock failure
    split_ifs with hword hfail hfail
    · cases hword.symm.trans hfail.2
    · have hnone := h.holder_eq_none hword
      refine ⟨fun u hu => ⟨phase_congr (Function.update_of_ne hu ..) ?_,
        Function.update_of_ne hu ..⟩, Or.inl ⟨rfl, Or.inr ⟨?_, hself _, rfl⟩⟩⟩
      · rw [hnone]
        exact iff_of_false (fun heq => hu (Option.some.inj heq).symm) (Option.some_ne_none u).symm
      · exact phase_eq_iff.2.1.mpr ⟨hself _, rfl⟩
    · exact ⟨fun u _ => ⟨rfl, rfl⟩, Or.inl ⟨rfl, Or.inl ⟨rfl, rfl⟩⟩⟩
    · exact absurd ⟨hpc, word_eq_lock hword⟩ hfail
  | unlockCas =>
    rw [hpc] at hst
    cases hst
    have hholds := h.unlockCas t hpc
    refine ⟨h.spinlockUnlock hpc, ?_⟩
    unfold spinlockUnlock failure
    rw [if_pos (h.locked.mpr (hholds ▸ rfl)), if_neg fun hfail => by cases hpc.symm.trans hfail.1]
    refine ⟨fun u hu => ⟨phase_congr (Function.update_of_ne hu ..) ?_,
      Function.update_of_ne hu ..⟩, Or.inr ⟨rfl, ?_, hself _, rfl⟩⟩
    · rw [hholds]
      exact iff_of_false (Option.some_ne_none u).symm fun heq => hu (Option.some.inj heq).symm
    · exact phase_eq_iff.1.mpr ⟨hself _, (Option.some_ne_none t).symm⟩

/-- The price of a position: a compare-exchange. -/
def weight : SpinPc → ℕ
  | .outside => 0
  | .lockCas | .unlockCas => 1

variable [Fintype T]

/-- The spinlock keeps the promises of a lock; it works in vain where a compare-exchange fails. -/
def spec : LockSpec (calls : LockCalls T (Spinlock T) Unit) failure where
  Inv := Sound
  phase := phase
  cost s := total s.pc weight
  lockPrice := 1
  unlockPrice := 1
  returned_iff := by
    intro s t hs
    rw [phase_eq_iff.1, phase_eq_iff.2.1, ← and_or_left]
    exact decide_eq_true_iff.trans (and_iff_left (ne_or_eq ..)).symm
  unique := by
    intro s t u hs ht hu
    exact Option.some.inj
      ((phase_eq_iff.2.1.mp ht).2.symm.trans (phase_eq_iff.2.1.mp hu).2)
  callLock := by
    intro s t hs ht
    obtain ⟨hpc, hholder⟩ := phase_eq_iff.1.mp ht
    refine ⟨hs.goTo (fun _ => hholder) SpinPc.noConfusion,
      phase_goTo (phase_eq_iff.2.2.1.mpr (Function.update_self ..)), ?_⟩
    have hcost := total_update s.pc weight t .lockCas
    rw [hpc] at hcost
    exact hcost.le
  callUnlock := by
    intro s t hs ht
    obtain ⟨hpc, hholder⟩ := phase_eq_iff.2.1.mp ht
    refine ⟨hs.goTo SpinPc.noConfusion (fun _ => hholder),
      phase_goTo (phase_eq_iff.2.2.2.mpr (Function.update_self ..)), ?_⟩
    have hcost := total_update s.pc weight t .unlockCas
    rw [hpc] at hcost
    exact hcost.le
  step := by
    intro s t c s' hs hst
    obtain ⟨hs', hothers, hphase⟩ := phase_of_step hs hst
    have hcost : ∀ pc, s'.pc t = pc → total s'.pc weight + weight (s.pc t) =
        total s.pc weight + weight pc := by
      rintro pc rfl
      have hpc : s'.pc = Function.update s.pc t (s'.pc t) := by
        funext u
        rcases eq_or_ne u t with rfl | hne
        · rw [Function.update_self]
        · rw [Function.update_of_ne hne, (hothers u hne).2]
      rw [hpc, total_update, Function.update_self]
    refine ⟨hs', fun u hu => (hothers u hu).1, ?_, ?_⟩
    · rcases hphase with ⟨hpc, ⟨rfl, -⟩ | ⟨hholds, -, -⟩⟩ | ⟨hpc, hout, -, -⟩
      · exact Or.inl ⟨phase_eq_iff.2.2.1.mpr hpc, Or.inl (phase_eq_iff.2.2.1.mpr hpc)⟩
      · exact Or.inl ⟨phase_eq_iff.2.2.1.mpr hpc, Or.inr hholds⟩
      · exact Or.inr ⟨phase_eq_iff.2.2.2.mpr hpc, Or.inr hout⟩
    · rcases hphase with ⟨hpc, ⟨rfl, hfail⟩ | ⟨-, hpc', hfail⟩⟩ | ⟨hpc, -, hpc', hfail⟩
      · rw [hfail]
      · have hle := hcost _ hpc'
        rw [hpc] at hle
        rw [hfail]
        exact hle.le
      · have hle := hcost _ hpc'
        rw [hpc] at hle
        rw [hfail]
        exact hle.le
  progress := by
    intro s t hs ht hnobody
    -- who holds the spinlock is about to release it
    have hholder : ∀ u, s.holder = some u → s.pc u = .unlockCas := by
      intro u hu
      cases hpc : s.pc u with
      | outside => exact absurd (phase_eq_iff.2.1.mpr ⟨hpc, hu⟩) (hnobody u)
      | lockCas => exact absurd hu (hs.lockCas u hpc)
      | unlockCas => rfl
    cases hword : s.word with
    | lock =>
      obtain ⟨u, hu⟩ := Option.isSome_iff_exists.mp (hs.locked.mp hword)
      refine ⟨u, (), s.spinlockUnlock u, ?_, if_neg fun hfail => ?_⟩
      · show step s u () = _
        rw [step, hholder u hu]
      · cases (hholder u hu).symm.trans hfail.1
    | unlock =>
      refine ⟨t, (), ?_⟩
      rcases ht with ht | ht
      · refine ⟨s.spinlockLock t, ?_, if_neg fun hfail => Status.noConfusion
          (hword.symm.trans hfail.2)⟩
        show step s t () = _
        rw [step, phase_eq_iff.2.2.1.mp ht]
      · have hholds := hs.unlockCas t (phase_eq_iff.2.2.2.mp ht)
        cases (hs.holder_eq_none hword).symm.trans hholds

end Spinlock

/-! ## The mutex as a lock of the test -/

/-- The phase of a thread at a position. -/
def Pc.phase (holds : Bool) : Pc → Phase
  | .outside => if holds then .holding else .outside
  | .lockCas | .futexWait | .asleep | .writeTid => .locking
  | .checkTid | .unlockCas | .futexWake => .unlocking

/-- A phase says whether the thread is in one of the functions, and if not, whether it holds. -/
lemma Pc.phase_eq_iff {holds : Bool} {pc : Pc} :
    (pc.phase holds = .outside ↔ pc = .outside ∧ holds = false) ∧
    (pc.phase holds = .holding ↔ pc = .outside ∧ holds = true) := by
  cases pc <;> cases holds <;> decide

/-- A wake-up does not change the phase. -/
lemma Pc.phase_wake (holds : Bool) (pc : Pc) : pc.wake.phase holds = pc.phase holds := by
  cases pc <;> rfl

namespace Mutex

variable {T : Type} [DecidableEq T] [Fintype T] {m m' : Mutex T} {t : T} {choice : Choice T}

instance : Inhabited (Choice T) := ⟨.go⟩

/-- How the test uses the mutex. -/
def calls : LockCalls T (Mutex T) (Choice T) where
  callLock m t := m.goTo t .lockCas
  callUnlock m t := m.goTo t .checkTid
  step m t choice := if m.pc t = .outside then none else m.step (t, choice)
  returned m t := decide (m.pc t = .outside)

/-- The phase of a thread. -/
def phase (m : Mutex T) (t : T) : Phase := (m.pc t).phase (m.holds t)

/-- The price of a position.  A release wakes a thread and lets each of the others, of which there
are less than `n`, look at the word once more. -/
def weight (n : ℕ) (word : Status) : Pc → ℕ
  | .outside | .asleep => 0
  | .lockCas => 2
  | .futexWait => if word = .lock then 1 else 3
  | .writeTid => 1
  | .checkTid => 2 * n + 5
  | .unlockCas => 2 * n + 4
  | .futexWake => 3

/-- What is to be paid for all threads. -/
def cost (m : Mutex T) : ℕ := total m.pc (weight (Fintype.card T) m.lock)

/-- A wake-up for no reason is granted what it costs. -/
def straySlack (_ : Mutex T) (_ : T) (choice : Choice T) : ℕ :=
  if choice = .wakeUp then 3 else 0

/-- A move to a cheaper position, up to what is granted. -/
lemma cost_goTo_le {pc pc' : Pc} {granted : ℕ} (ht : m.pc t = pc)
    (hle : weight (Fintype.card T) m.lock pc' + 1 ≤
      weight (Fintype.card T) m.lock pc + granted) :
    (m.goTo t pc').cost + 1 ≤ m.cost + granted := by
  have hpaid : (m.goTo t pc').cost + weight (Fintype.card T) m.lock (m.pc t) =
      m.cost + weight (Fintype.card T) m.lock pc' := total_update ..
  rw [ht] at hpaid
  omega

/-- A call costs no more than its first position. -/
lemma cost_goTo_of_outside (ht : m.pc t = .outside) (pc : Pc) :
    (m.goTo t pc).cost ≤ m.cost + weight (Fintype.card T) m.lock pc := by
  have hpaid := total_update m.pc (weight (Fintype.card T) m.lock) t pc
  rw [ht] at hpaid
  exact hpaid.le

/-- A free word costs no less than a locked one, and at most two more for each thread. -/
lemma weight_le (n : ℕ) (pc : Pc) : weight n .lock pc ≤ weight n .unlock pc ∧
    weight n .unlock pc ≤ weight n .lock pc + 2 := by
  cases pc <;> simp [weight]

/-- A wake-up costs two. -/
lemma weight_wake (n : ℕ) (word : Status) (pc : Pc) :
    weight n word pc.wake ≤ weight n word pc + 2 := by
  cases pc <;> simp [weight, Pc.wake]

/-- Every step inside of a function is paid for. -/
lemma cost_of_effect (h : Effect m t choice m') (ht : m.pc t ≠ .outside) :
    m'.cost + 1 ≤ m.cost + straySlack m t choice := by
  cases h with
  | callLock hpc => exact absurd hpc ht
  | callUnlock hpc => exact absurd hpc ht
  | win hpc hlock =>
    have hpaid := total_update m.pc (weight (Fintype.card T) .unlock) t .writeTid
    have hle : total (Function.update m.pc t .writeTid) (weight (Fintype.card T) .lock) ≤
        total (Function.update m.pc t .writeTid) (weight (Fintype.card T) .unlock) + _ * 0 :=
      total_le_add fun pc => (weight_le _ pc).1
    rw [hpc] at hpaid
    show total (Function.update m.pc t .writeTid) (weight (Fintype.card T) .lock) + 1 ≤
      total m.pc (weight (Fintype.card T) m.lock) + 0
    rw [hlock]
    simp only [weight] at hpaid hle ⊢
    omega
  | lose hpc hlock => exact cost_goTo_le hpc (by rw [hlock]; rfl)
  | sleep hpc hlock => exact cost_goTo_le hpc (by rw [hlock]; rfl)
  | again hpc hlock => exact cost_goTo_le hpc (by rw [hlock]; rfl)
  | stray hpc => exact cost_goTo_le hpc le_rfl
  | own hpc => exact cost_goTo_le hpc le_rfl
  | pass hpc htid => exact cost_goTo_le hpc le_rfl
  | refuse hpc htid => exact cost_goTo_le hpc (Nat.le_add_left 1 _)
  | release hpc hlock =>
    have hpaid := total_update m.pc (weight (Fintype.card T) .lock) t .futexWake
    have hle : total (Function.update m.pc t .futexWake) (weight (Fintype.card T) .unlock) ≤
        total (Function.update m.pc t .futexWake) (weight (Fintype.card T) .lock) +
          Fintype.card T * 2 := total_le_add fun pc => (weight_le _ pc).2
    rw [hpc] at hpaid
    show total (Function.update m.pc t .futexWake) (weight (Fintype.card T) .unlock) + 1 ≤
      total m.pc (weight (Fintype.card T) m.lock) + 0
    rw [hlock]
    simp only [weight] at hpaid hle ⊢
    omega
  | fail hpc hlock => exact cost_goTo_le hpc (Nat.le_add_left 1 _)
  | @wake hpc target htarget =>
    have hpaid := total_update m.pc (weight (Fintype.card T) m.lock) t .outside
    rw [hpc] at hpaid
    have hwoken : total (deliver Pc.wake (Function.update m.pc t .outside) target)
        (weight (Fintype.card T) m.lock) ≤
        total (Function.update m.pc t .outside) (weight (Fintype.card T) m.lock) + 2 := by
      cases target with
      | none => exact Nat.le_add_right _ _
      | some u =>
        have hpaid := total_update (Function.update m.pc t .outside)
          (weight (Fintype.card T) m.lock) u (Function.update m.pc t .outside u).wake
        have hle := weight_wake (Fintype.card T) m.lock (Function.update m.pc t .outside u)
        show total (Function.update (Function.update m.pc t .outside) u
          (Function.update m.pc t .outside u).wake) (weight (Fintype.card T) m.lock) ≤ _
        omega
    show total (deliver Pc.wake (Function.update m.pc t .outside) target) _ + 1 ≤
      total m.pc (weight (Fintype.card T) m.lock) + 0
    simp only [weight] at hpaid hwoken ⊢
    omega

omit [Fintype T] in
/-- The phases after one thread has gone to another position. -/
lemma phase_goTo {pc : Pc} {phase : Phase} (hphase : pc.phase (m.holds t) = phase) :
    (m.goTo t pc).phase = Function.update m.phase t phase := by
  funext u
  show (Function.update m.pc t pc u).phase (m.holds u) = Function.update m.phase t phase u
  rcases eq_or_ne u t with rfl | hne
  · rw [Function.update_self, Function.update_self, hphase]
  · rw [Function.update_of_ne hne, Function.update_of_ne hne]
    rfl

omit [Fintype T] in
/-- A move of one thread, as the phases see it. -/
lemma phases_of_move {pc pc' : Pc} (ht : m.pc t = pc) (hpc : m'.pc = Function.update m.pc t pc')
    (hholds : ∀ u, u ≠ t → m'.holds u = m.holds u)
    (hphase : pc.phase (m.holds t) = .locking ∧
        (pc'.phase (m'.holds t) = .locking ∨ pc'.phase (m'.holds t) = .holding) ∨
      pc.phase (m.holds t) = .unlocking ∧
        (pc'.phase (m'.holds t) = .unlocking ∨ pc'.phase (m'.holds t) = .outside)) :
    (∀ u, u ≠ t → m'.phase u = m.phase u) ∧
    (m.phase t = .locking ∧ (m'.phase t = .locking ∨ m'.phase t = .holding) ∨
      m.phase t = .unlocking ∧ (m'.phase t = .unlocking ∨ m'.phase t = .outside)) := by
  unfold phase
  refine ⟨fun u hu => ?_, ?_⟩
  · rw [hpc, Function.update_of_ne hu, hholds u hu]
  · rwa [hpc, Function.update_self, ht]

omit [Fintype T] in
/-- A wake-up is delivered, as the phases see it. -/
lemma phase_deliver (f : T → Pc) (holds : T → Bool) (target : Option T) (u : T) :
    (deliver Pc.wake f target u).phase (holds u) = (f u).phase (holds u) := by
  rcases deliver_eq Pc.wake f target u with h | h
  · rw [h]
  · rw [h, Pc.phase_wake]

/-- A step inside of a function, as the phases see it. -/
lemma phase_of_effect (hm : m.Exclusive) (h : Effect m t choice m') (ht : m.pc t ≠ .outside) :
    (∀ u, u ≠ t → m'.phase u = m.phase u) ∧
    (m.phase t = .locking ∧ (m'.phase t = .locking ∨ m'.phase t = .holding) ∨
      m.phase t = .unlocking ∧ (m'.phase t = .unlocking ∨ m'.phase t = .outside)) := by
  have hfits := hm.fits t
  unfold Fits at hfits
  cases h with
  | callLock hpc => exact absurd hpc ht
  | callUnlock hpc => exact absurd hpc ht
  | win hpc hlock =>
    exact phases_of_move hpc rfl (fun _ hu => Function.update_of_ne hu ..)
      (Or.inl ⟨rfl, Or.inl rfl⟩)
  | lose hpc hlock => exact phases_of_move hpc rfl (fun _ _ => rfl) (Or.inl ⟨rfl, Or.inl rfl⟩)
  | sleep hpc hlock => exact phases_of_move hpc rfl (fun _ _ => rfl) (Or.inl ⟨rfl, Or.inl rfl⟩)
  | again hpc hlock => exact phases_of_move hpc rfl (fun _ _ => rfl) (Or.inl ⟨rfl, Or.inl rfl⟩)
  | stray hpc => exact phases_of_move hpc rfl (fun _ _ => rfl) (Or.inl ⟨rfl, Or.inl rfl⟩)
  | own hpc =>
    rw [hpc] at hfits
    have hholds : m.holds t = true := hfits
    exact phases_of_move hpc rfl (fun _ _ => rfl) (Or.inl ⟨rfl, Or.inr (if_pos hholds)⟩)
  | pass hpc htid => exact phases_of_move hpc rfl (fun _ _ => rfl) (Or.inr ⟨rfl, Or.inl rfl⟩)
  | refuse hpc htid =>
    -- the owner is never refused
    rw [hpc] at hfits
    exact absurd hfits.2 htid
  | release hpc hlock =>
    exact phases_of_move hpc rfl (fun _ hu => Function.update_of_ne hu ..)
      (Or.inr ⟨rfl, Or.inl rfl⟩)
  | fail hpc hlock =>
    refine phases_of_move hpc rfl (fun _ hu => Function.update_of_ne hu ..)
      (Or.inr ⟨rfl, Or.inr (if_neg ?_)⟩)
    show ¬ Function.update m.holds t false t = true
    rw [Function.update_self]
    exact Bool.false_ne_true
  | @wake hpc target htarget =>
    rw [hpc] at hfits
    have hholds : m.holds t = false := hfits
    have hsame : ∀ u, phase { m with
        pc := deliver Pc.wake (Function.update m.pc t .outside) target } u =
        (m.goTo t .outside).phase u := fun u => phase_deliver ..
    simp only [hsame]
    refine phases_of_move hpc rfl (fun _ _ => rfl) (Or.inr ⟨rfl, Or.inr (if_neg ?_)⟩)
    show ¬ m.holds t = true
    rw [hholds]
    exact Bool.false_ne_true

/-- Unless somebody holds the mutex, a thread in one of the functions can make a step. -/
lemma exists_step (hm : m.Exclusive) (hlaw : m.SomebodyGoes) (ht : m.pc t ≠ .outside)
    (hnobody : ∀ u, m.phase u ≠ .holding) :
    ∃ u choice m', m.pc u ≠ .outside ∧ step m (u, choice) = some m' ∧
      straySlack m u choice = 0 := by
  by_cases hawake : ∃ u, m.pc u ≠ .outside ∧ m.pc u ≠ .asleep
  · obtain ⟨u, hout, hasleep⟩ := hawake
    have hgo : ∀ choice, choice ≠ .wakeUp → (step m (u, choice)).isSome = true →
        ∃ u choice m', m.pc u ≠ .outside ∧ step m (u, choice) = some m' ∧
          straySlack m u choice = 0 := by
      intro choice hchoice hsome
      exact ⟨u, choice, _, hout, (Option.some_get hsome).symm, if_neg hchoice⟩
    cases hpc : m.pc u with
    | outside => exact absurd hpc hout
    | asleep => exact absurd hpc hasleep
    | lockCas =>
      refine hgo .go (by rintro ⟨⟩) ?_
      simp only [step, mutexLock, hpc]
      split_ifs <;> rfl
    | futexWait => exact hgo .go (by rintro ⟨⟩) (by simp [step, mutexLock, hpc])
    | writeTid => exact hgo .go (by rintro ⟨⟩) (by simp [step, mutexLock, hpc])
    | checkTid => exact hgo .go (by rintro ⟨⟩) (by simp [step, mutexUnlock, hpc])
    | unlockCas =>
      refine hgo .go (by rintro ⟨⟩) ?_
      simp only [step, mutexUnlock, hpc]
      split_ifs <;> rfl
    | futexWake =>
      obtain ⟨target, htarget⟩ := exists_maySignal fun u => (m.pc u).isAsleep
      exact hgo (.wake target) (by rintro ⟨⟩) (by simp [step, mutexUnlock, hpc, htarget])
  · -- all threads in the functions sleep: nobody can hold the mutex, and nobody is called for it
    have hasleep : ∀ u, m.pc u ≠ .outside → m.pc u = .asleep := by
      intro u hu
      by_contra hne
      exact hawake ⟨u, hu, hne⟩
    have hholds : ∀ u, m.holds u ≠ true := by
      intro u hu
      by_cases hout : m.pc u = .outside
      · exact hnobody u (by rw [phase, hout, hu]; rfl)
      · have hfits := hm.fits u
        rw [Fits, hasleep u hout] at hfits
        cases hfits.symm.trans hu
    have hfree : m.lock = .unlock := lock_eq_unlock fun hlock => by
      obtain ⟨u, hu⟩ := hm.locked.mp hlock
      exact hholds u hu
    have hpos := hlaw (census_pos (t := t) (by rw [hasleep t ht]; rfl))
    rw [if_pos hfree] at hpos
    obtain ⟨u, hu⟩ := exists_of_census_pos (by omega : 0 < census m.pc Pc.isPending)
    by_cases hout : m.pc u = .outside
    · rw [hout] at hu
      cases hu
    · rw [hasleep u hout] at hu
      cases hu

/-- The mutex keeps the promises of a lock; only wake-ups for no reason are to be granted. -/
def spec : LockSpec (calls : LockCalls T (Mutex T) (Choice T)) straySlack where
  Inv m := m.Exclusive ∧ m.SomebodyGoes
  phase := phase
  cost := cost
  lockPrice := 2
  unlockPrice := 2 * Fintype.card T + 5
  returned_iff := by
    intro m t _
    rw [phase, Pc.phase_eq_iff.1, Pc.phase_eq_iff.2, ← and_or_left]
    refine decide_eq_true_iff.trans (and_iff_left ?_).symm
    cases m.holds t <;> decide
  unique := by
    intro m t u hm ht hu
    exact hm.1.unique t u (Pc.phase_eq_iff.2.mp ht).2 (Pc.phase_eq_iff.2.mp hu).2
  callLock := by
    intro m t hm ht
    obtain ⟨hpc, hholds⟩ := Pc.phase_eq_iff.1.mp ht
    have heff : Effect m t .callLock (m.goTo t .lockCas) := .callLock hpc
    have hturn : m.inTurn (t, .callLock) := hholds
    exact ⟨⟨hm.1.step hturn heff, hm.2.step heff⟩, phase_goTo rfl, cost_goTo_of_outside hpc _⟩
  callUnlock := by
    intro m t hm ht
    obtain ⟨hpc, hholds⟩ := Pc.phase_eq_iff.2.mp ht
    have heff : Effect m t .callUnlock (m.goTo t .checkTid) := .callUnlock hpc
    have hturn : m.inTurn (t, .callUnlock) := hholds
    exact ⟨⟨hm.1.step hturn heff, hm.2.step heff⟩, phase_goTo rfl, cost_goTo_of_outside hpc _⟩
  step := by
    intro m t choice m' hm hst
    have hout : m.pc t ≠ .outside := by
      intro hpc
      simp only [calls, if_pos hpc] at hst
      cases hst
    simp only [calls, if_neg hout] at hst
    have heff : Effect m t choice m' := effect_of_step hst
    have hturn : m.inTurn (t, choice) := by
      cases heff with
      | callLock hpc => exact absurd hpc hout
      | callUnlock hpc => exact absurd hpc hout
      | _ => trivial
    obtain ⟨hothers, hphase⟩ := phase_of_effect hm.1 heff hout
    exact ⟨⟨hm.1.step hturn heff, hm.2.step heff⟩, hothers, hphase, cost_of_effect heff hout⟩
  progress := by
    intro m t hm ht hnobody
    have hout : m.pc t ≠ .outside := by
      intro hpc
      rw [phase, hpc] at ht
      cases hholds : m.holds t <;> rw [hholds] at ht <;> rcases ht with ht | ht <;> cases ht
    obtain ⟨u, choice, m', hu, hst, hslack⟩ := exists_step hm.1 hm.2 hout hnobody
    exact ⟨u, choice, m', (if_neg hu).trans hst, hslack⟩

end Mutex

/-! ## The test -/

/-- `counter++`. -/
def increment (counter : ℤ) : ℤ := wrap 32 (counter + 1)

/-- A thread in `increment_with_spinlock`, with `rounds` for `INCREMENTS`. -/
def incrementWithSpinlock {T : Type} [DecidableEq T] (rounds : ℕ) :
    Loops T (Spinlock T) ℤ → T × Unit → Option (Loops T (Spinlock T) ℤ) :=
  Loops.step Spinlock.calls increment rounds

/-- A thread in `increment_with_mutex`, with `rounds` for `INCREMENTS`. -/
def incrementWithMutex {T : Type} [DecidableEq T] [Fintype T] (rounds : ℕ) :
    Loops T (Mutex T) ℤ → T × Choice T → Option (Loops T (Mutex T) ℤ) :=
  Loops.step Mutex.calls increment rounds

/-- What any number of increments makes of zero. -/
lemma iterate_increment (n : ℕ) : increment^[n] 0 = wrap 32 n := by
  induction n with
  | zero => exact wrap_zero.symm
  | succ n ih =>
    rw [Function.iterate_succ_apply', ih, increment, wrap_wrap_add]
    rfl

section Test

variable {T : Type} [DecidableEq T] [Fintype T] {rounds : ℕ}

/-- The next step is a compare-exchange of `spinlock_lock` that fails. -/
def spinsInVain (s : Loops T (Spinlock T) ℤ) (e : T × Unit) : ℕ :=
  Loops.stepSlack Spinlock.calls Spinlock.failure s e

/-- The test of the spinlock.  Under every schedule at most one thread is at the writing of
`counter++`; but for compare-exchanges that fail the threads make a bounded number of steps, and one
of them can make such a step until all have returned; and then no increment was lost. -/
theorem increments_with_spinlock {es : List (T × Unit)} {s : Loops T (Spinlock T) ℤ}
    (h : execWhere (incrementWithSpinlock rounds) anyStep (Loops.init Spinlock.init 0) es =
      some s) :
    (∀ t u i j x y, s.place t = .writing i x → s.place u = .writing j y → t = u) ∧
    es.length ≤ Fintype.card T * (rounds * 6 + 1) +
      granted (incrementWithSpinlock rounds) spinsInVain (Loops.init Spinlock.init 0) es ∧
    ((∃ t, s.place t ≠ .returned) →
      ∃ e s', incrementWithSpinlock rounds s e = some s' ∧ spinsInVain s e = 0) ∧
    ((∀ t, s.place t = .returned) → s.counter = wrap 32 (Fintype.card T * rounds : ℕ)) := by
  have hout : ∀ t, Spinlock.spec.phase (Spinlock.init : Spinlock T) t = .outside := fun _ => rfl
  obtain ⟨hunique, hlength, hprogress, hcounter⟩ :=
    Loops.loops_complete Spinlock.spec Spinlock.Sound.init hout h
  refine ⟨hunique, ?_, fun hleft => ?_, fun hret => ?_⟩
  · have hcost : Spinlock.spec.cost (Spinlock.init : Spinlock T) = 0 := total_const _
    rw [hcost, Nat.zero_add] at hlength
    exact hlength
  · obtain ⟨e, s', hst, hslack, -⟩ := hprogress hleft
    exact ⟨e, s', hst, hslack⟩
  · rw [hcounter hret, iterate_increment]

/-- Two threads, one round each; the second one fails once. -/
theorem increments_with_spinlock_twice : ∃ s : Loops Bool (Spinlock Bool) ℤ,
    (∀ t, s.place t = .returned) ∧ s.counter = wrap 32 (Fintype.card Bool * 1 : ℕ) := by
  have hrun := (Option.some_get (x := execWhere (incrementWithSpinlock 1) anyStep
    (Loops.init (Spinlock.init : Spinlock Bool) 0)
    [(true, ()), (false, ()), (false, ()), (true, ()), (false, ()), (false, ()), (false, ()),
      (false, ()), (false, ()), (true, ()), (true, ()), (true, ()), (true, ()), (true, ()),
      (true, ())]) (by decide)).symm
  exact ⟨_, by decide, (increments_with_spinlock hrun).2.2.2 (by decide)⟩

/-- The choice is a wake-up for no reason. -/
def isStray (e : T × Choice T) : Bool := decide (e.2 = .wakeUp)

/-- Only wake-ups for no reason are granted anything. -/
lemma stepSlack_le (s : Loops T (Mutex T) ℤ) (e : T × Choice T) :
    Loops.stepSlack Mutex.calls Mutex.straySlack s e ≤ 3 * (isStray e).toNat := by
  have hslack : Mutex.straySlack s.lock e.1 e.2 ≤ 3 * (isStray e).toNat := by
    unfold Mutex.straySlack isStray
    split_ifs with hstray
    · rw [decide_eq_true hstray]
      exact le_rfl
    · exact Nat.zero_le _
  unfold Loops.stepSlack
  split
  · split_ifs
    · exact Nat.zero_le _
    · exact hslack
  · split_ifs
    · exact Nat.zero_le _
    · exact hslack
  all_goals exact Nat.zero_le _

/-- The test of the mutex.  Under every schedule at most one thread is at the writing of
`counter++`; but for wake-ups that come for no reason the threads make a bounded number of steps,
and one of them can make such a step until all have returned; and then no increment was lost. -/
theorem increments_with_mutex {es : List (T × Choice T)} {s : Loops T (Mutex T) ℤ}
    (h : execWhere (incrementWithMutex rounds) anyStep (Loops.init Mutex.init 0) es = some s) :
    (∀ t u i j x y, s.place t = .writing i x → s.place u = .writing j y → t = u) ∧
    es.length ≤ Fintype.card T * (rounds * (2 * Fintype.card T + 11) + 1) +
      3 * es.countP isStray ∧
    ((∃ t, s.place t ≠ .returned) →
      ∃ e s', incrementWithMutex rounds s e = some s' ∧ isStray e = false) ∧
    ((∀ t, s.place t = .returned) → s.counter = wrap 32 (Fintype.card T * rounds : ℕ)) := by
  have hinit : Mutex.spec.Inv (Mutex.init : Mutex T) :=
    ⟨Mutex.Exclusive.init, .of_awake fun _ => rfl⟩
  have hout : ∀ t, Mutex.spec.phase (Mutex.init : Mutex T) t = .outside := fun _ => rfl
  obtain ⟨hunique, hlength, hprogress, hcounter⟩ :=
    Loops.loops_complete Mutex.spec hinit hout h
  refine ⟨hunique, ?_, fun hleft => ?_, fun hret => ?_⟩
  · have hcost : Mutex.spec.cost (Mutex.init : Mutex T) = 0 := total_const _
    have hgranted : granted (incrementWithMutex rounds)
        (Loops.stepSlack Mutex.calls Mutex.straySlack) (Loops.init Mutex.init 0) es ≤
        3 * es.countP isStray := granted_le stepSlack_le _ es
    rw [hcost, Nat.zero_add] at hlength
    have hprice : Place.roundPrice (Mutex.spec (T := T)).lockPrice
        (Mutex.spec (T := T)).unlockPrice = 2 * Fintype.card T + 11 := by
      show 2 + (2 * Fintype.card T + 5) + 4 = 2 * Fintype.card T + 11
      omega
    rw [hprice] at hlength
    exact hlength.trans (Nat.add_le_add_left hgranted _)
  · obtain ⟨e, s', hst, -, hchoice⟩ := hprogress hleft
    refine ⟨e, s', hst, decide_eq_false fun hstray => ?_⟩
    rcases hchoice with hgo | hzero
    · cases hstray.symm.trans hgo
    · rw [hstray] at hzero
      cases hzero
  · rw [hcounter hret, iterate_increment]

/-- Two threads, one round each; the second one sleeps until the first one wakes it. -/
theorem increments_with_mutex_twice : ∃ s : Loops Bool (Mutex Bool) ℤ,
    (∀ t, s.place t = .returned) ∧ s.counter = wrap 32 (Fintype.card Bool * 1 : ℕ) := by
  have hrun := (Option.some_get (x := execWhere (incrementWithMutex 1) anyStep
    (Loops.init (Mutex.init : Mutex Bool) 0)
    [(true, .go), (false, .go), (false, .go), (true, .go), (true, .go), (false, .go),
      (false, .go), (false, .go), (false, .go), (false, .go), (false, .wake (some true)),
      (false, .go), (false, .go), (true, .go), (true, .go), (true, .go), (true, .go),
      (true, .go), (true, .go), (true, .wake none), (true, .go), (true, .go)]) (by decide)).symm
  exact ⟨_, by decide, (increments_with_mutex hrun).2.2.2 (by decide)⟩

end Test

end OsLabs.FutexMutex
