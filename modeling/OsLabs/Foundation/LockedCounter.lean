import OsLabs.Foundation.Census
import OsLabs.Foundation.Transition
import Mathlib.Logic.Function.Iterate

/-!
# A counter behind a lock

Any number of threads run the same loop a given number of times: lock, read a shared value, write
its successor, unlock.  Reading and writing are two steps.

`LockCalls` is how a program uses a lock: the two calls, the steps inside of them, and whether a
call of a thread has returned.  `LockSpec` is what a lock promises: at most one thread holds it, a
step inside of a call makes the lock cheaper up to a slack (so that the price of a call bounds the
work that is done for it), and unless somebody holds the lock, some thread inside of a call can make
a step without slack.

For every such lock the loops lose no increment, their steps are bounded by the prices of the calls
that they make and by the slack, and they do not get stuck before the last thread has returned:
`loops_complete`.
-/

namespace LockedCounter

open Transition

variable {T L C V : Type*}

/-! ## Locks -/

/-- Where a thread is with respect to a lock. -/
inductive Phase
  | outside
  | locking
  | holding
  | unlocking
  deriving DecidableEq, Repr

/-- The operations of a lock. -/
structure LockCalls (T L C : Type*) where
  callLock : L → T → L
  callUnlock : L → T → L
  /-- A step inside of a call, with a choice that the program does not make. -/
  step : L → T → C → Option L
  /-- The thread is in no call. -/
  returned : L → T → Bool

/-- What a lock promises. -/
structure LockSpec [DecidableEq T] (lock : LockCalls T L C) (slack : L → T → C → ℕ) where
  Inv : L → Prop
  phase : L → T → Phase
  cost : L → ℕ
  lockPrice : ℕ
  unlockPrice : ℕ
  returned_iff : ∀ {l t}, Inv l →
    (lock.returned l t = true ↔ phase l t = .outside ∨ phase l t = .holding)
  unique : ∀ {l t u}, Inv l → phase l t = .holding → phase l u = .holding → t = u
  callLock : ∀ {l t}, Inv l → phase l t = .outside → Inv (lock.callLock l t) ∧
    phase (lock.callLock l t) = Function.update (phase l) t .locking ∧
    cost (lock.callLock l t) ≤ cost l + lockPrice
  callUnlock : ∀ {l t}, Inv l → phase l t = .holding → Inv (lock.callUnlock l t) ∧
    phase (lock.callUnlock l t) = Function.update (phase l) t .unlocking ∧
    cost (lock.callUnlock l t) ≤ cost l + unlockPrice
  step : ∀ {l t c l'}, Inv l → lock.step l t c = some l' → Inv l' ∧
    (∀ u, u ≠ t → phase l' u = phase l u) ∧
    (phase l t = .locking ∧ (phase l' t = .locking ∨ phase l' t = .holding) ∨
      phase l t = .unlocking ∧ (phase l' t = .unlocking ∨ phase l' t = .outside)) ∧
    cost l' + 1 ≤ cost l + slack l t c
  progress : ∀ {l t}, Inv l → phase l t = .locking ∨ phase l t = .unlocking →
    (∀ u, phase l u ≠ .holding) → ∃ u c l', lock.step l u c = some l' ∧ slack l u c = 0

/-! ## The loops -/

/-- Where a thread is in its loop, in the round `i`. -/
inductive Place (V : Type*)
  /-- At the test of the loop. -/
  | head (i : ℕ)
  /-- In the call that locks, or at the reading of the counter. -/
  | locking (i : ℕ)
  /-- At the writing of the counter, with the value that was read. -/
  | writing (i : ℕ) (value : V)
  /-- In the call that unlocks, or at the end of the round. -/
  | unlocking (i : ℕ)
  | returned
  deriving DecidableEq, Repr

/-- The lock, the counter and the threads. -/
structure Loops (T L V : Type*) where
  lock : L
  counter : V
  place : T → Place V

namespace Loops

variable [DecidableEq T]

/-- All threads before their first test. -/
def init (l : L) (v : V) : Loops T L V := ⟨l, v, fun _ => .head 0⟩

/-- The thread is at another place. -/
def goTo (s : Loops T L V) (t : T) (place : Place V) : Loops T L V :=
  { s with place := Function.update s.place t place }

/-- The next step of a thread, in loops of `rounds` rounds. -/
def step (lock : LockCalls T L C) (succ : V → V) (rounds : ℕ) (s : Loops T L V) (e : T × C) :
    Option (Loops T L V) :=
  match s.place e.1 with
  | .head i =>
    if i < rounds then some { s.goTo e.1 (.locking i) with lock := lock.callLock s.lock e.1 }
    else some (s.goTo e.1 .returned)
  | .locking i =>
    if lock.returned s.lock e.1 then some (s.goTo e.1 (.writing i s.counter))
    else (lock.step s.lock e.1 e.2).map fun l => { s with lock := l }
  | .writing i value =>
    some { s.goTo e.1 (.unlocking i) with counter := succ value,
                                          lock := lock.callUnlock s.lock e.1 }
  | .unlocking i =>
    if lock.returned s.lock e.1 then some (s.goTo e.1 (.head (i + 1)))
    else (lock.step s.lock e.1 e.2).map fun l => { s with lock := l }
  | .returned => none

end Loops

namespace Place

/-- How often a thread at a place has written the counter. -/
def written (rounds : ℕ) : Place V → ℕ
  | .head i | .locking i | .writing i _ => i
  | .unlocking i => i + 1
  | .returned => rounds

/-- The price of a round: its two calls, and four steps outside of them. -/
def roundPrice (lockPrice unlockPrice : ℕ) : ℕ := lockPrice + unlockPrice + 4

/-- What is left to pay for a thread at a place. -/
def left (lockPrice unlockPrice rounds : ℕ) : Place V → ℕ
  | .head i => (rounds - i) * roundPrice lockPrice unlockPrice + 1
  | .locking i => (rounds - i - 1) * roundPrice lockPrice unlockPrice + unlockPrice + 4
  | .writing i _ => (rounds - i - 1) * roundPrice lockPrice unlockPrice + unlockPrice + 3
  | .unlocking i => (rounds - i - 1) * roundPrice lockPrice unlockPrice + 2
  | .returned => 0

end Place

/-- The test of the loop and the first call are paid for. -/
lemma Place.left_head {a b rounds i : ℕ} (hi : i < rounds) :
    Place.left a b rounds (.head i : Place V) =
      Place.left a b rounds (.locking i : Place V) + a + 1 := by
  have hsplit : rounds - i = rounds - i - 1 + 1 := by omega
  have hround : (rounds - i) * roundPrice a b =
      (rounds - i - 1) * roundPrice a b + roundPrice a b := by
    rw [hsplit, Nat.add_mul, Nat.one_mul, Nat.add_sub_cancel]
  show (rounds - i) * roundPrice a b + 1 = (rounds - i - 1) * roundPrice a b + b + 4 + a + 1
  rw [hround]
  unfold roundPrice
  omega

/-- The end of a round is paid for. -/
lemma Place.left_unlocking {a b rounds i : ℕ} :
    Place.left a b rounds (.unlocking i : Place V) =
      Place.left a b rounds (.head (i + 1) : Place V) + 1 := by
  show (rounds - i - 1) * roundPrice a b + 2 = (rounds - (i + 1)) * roundPrice a b + 1 + 1
  rw [Nat.sub_sub]

/-- The last test of the loop is paid for. -/
lemma Place.left_head_self {a b rounds : ℕ} :
    Place.left a b rounds (.head rounds : Place V) = 1 := by
  show (rounds - rounds) * roundPrice a b + 1 = 1
  rw [Nat.sub_self, Nat.zero_mul]

/-- What the place of a thread says about its phase and the counter. -/
def Place.Agrees (rounds : ℕ) (counter : V) : Place V → Phase → Prop
  | .head i, phase => i ≤ rounds ∧ phase = .outside
  | .locking i, phase => i < rounds ∧ (phase = .locking ∨ phase = .holding)
  | .writing i value, phase => i < rounds ∧ phase = .holding ∧ value = counter
  | .unlocking i, phase => i < rounds ∧ (phase = .unlocking ∨ phase = .outside)
  | .returned, phase => phase = .outside

/-- Whoever does not hold the lock has read nothing. -/
lemma Place.Agrees.of_not_holding {rounds : ℕ} {v v' : V} {place : Place V} {phase : Phase}
    (h : place.Agrees rounds v phase) (hphase : phase ≠ .holding) :
    place.Agrees rounds v' phase := by
  cases place with
  | writing i value => exact absurd h.2.1 hphase
  | head i => exact h
  | locking i => exact h
  | unlocking i => exact h
  | returned => exact h

section Rules

variable [DecidableEq T] {lock : LockCalls T L C} {slack : L → T → C → ℕ} {succ : V → V}
  {rounds : ℕ} {v : V} {s s' : Loops T L V} {t : T} {c : C}

namespace Loops

/-- What a step is granted: the slack of a step inside of a call. -/
def stepSlack (lock : LockCalls T L C) (slack : L → T → C → ℕ) (s : Loops T L V) (e : T × C) : ℕ :=
  match s.place e.1 with
  | .locking _ | .unlocking _ =>
    if lock.returned s.lock e.1 then 0 else slack s.lock e.1 e.2
  | .head _ | .writing _ _ | .returned => 0

/-- Everything that a step of a thread can be. -/
inductive Effect (lock : LockCalls T L C) (succ : V → V) (rounds : ℕ) (s : Loops T L V) (t : T)
    (c : C) : Loops T L V → Prop
  | enter {i} (ht : s.place t = .head i) (hi : i < rounds) :
    Effect lock succ rounds s t c { s.goTo t (.locking i) with lock := lock.callLock s.lock t }
  | leave {i} (ht : s.place t = .head i) (hi : ¬ i < rounds) :
    Effect lock succ rounds s t c (s.goTo t .returned)
  | read {i} (ht : s.place t = .locking i) (hret : lock.returned s.lock t = true) :
    Effect lock succ rounds s t c (s.goTo t (.writing i s.counter))
  | write {i value} (ht : s.place t = .writing i value) :
    Effect lock succ rounds s t c { s.goTo t (.unlocking i) with
      counter := succ value, lock := lock.callUnlock s.lock t }
  | next {i} (ht : s.place t = .unlocking i) (hret : lock.returned s.lock t = true) :
    Effect lock succ rounds s t c (s.goTo t (.head (i + 1)))
  | inside {i l} (ht : s.place t = .locking i ∨ s.place t = .unlocking i)
    (hret : ¬ lock.returned s.lock t = true) (hl : lock.step s.lock t c = some l) :
    Effect lock succ rounds s t c { s with lock := l }

/-- Every step is one of those in the list. -/
lemma effect_of_step {e : T × C} (h : step lock succ rounds s e = some s') :
    Effect lock succ rounds s e.1 e.2 s' := by
  unfold step at h
  split at h
  next i ht =>
    split_ifs at h with hi <;> cases h
    · exact .enter ht hi
    · exact .leave ht hi
  next i ht =>
    split_ifs at h with hret
    · cases h
      exact .read ht hret
    · obtain ⟨l, hl, rfl⟩ := Option.map_eq_some_iff.mp h
      exact .inside (Or.inl ht) hret hl
  next i value ht =>
    cases h
    exact .write ht
  next i ht =>
    split_ifs at h with hret
    · cases h
      exact .next ht hret
    · obtain ⟨l, hl, rfl⟩ := Option.map_eq_some_iff.mp h
      exact .inside (Or.inr ht) hret hl
  next => cases h

variable [Fintype T]

/-- The invariant of the loops. -/
structure Invariant (spec : LockSpec lock slack) (succ : V → V) (rounds : ℕ) (v : V)
    (s : Loops T L V) : Prop where
  lock : spec.Inv s.lock
  agrees : ∀ t, (s.place t).Agrees rounds s.counter (spec.phase s.lock t)
  /-- No increment is lost. -/
  counter : s.counter = succ^[total s.place (Place.written rounds)] v

/-- What is left to pay. -/
def potential (spec : LockSpec lock slack) (rounds : ℕ) (s : Loops T L V) : ℕ :=
  spec.cost s.lock + total s.place (Place.left spec.lockPrice spec.unlockPrice rounds)

namespace Invariant

variable {spec : LockSpec lock slack}

/-- The threads before their first test. -/
lemma init {l : L} (hl : spec.Inv l) (hout : ∀ t, spec.phase l t = .outside) :
    Invariant spec succ rounds v (Loops.init l v) where
  lock := hl
  agrees := fun t => ⟨Nat.zero_le _, hout t⟩
  counter := by
    show v = succ^[total (fun _ : T => Place.head 0) (Place.written rounds)] v
    rw [total_const]
    rfl

/-- Whoever has returned from the call that locks holds the lock. -/
lemma holding_of_returned {i : ℕ} (h : Invariant spec succ rounds v s)
    (ht : s.place t = .locking i) (hret : lock.returned s.lock t = true) :
    spec.phase s.lock t = .holding := by
  have hagrees := h.agrees t
  rw [ht] at hagrees
  refine ((spec.returned_iff h.lock).mp hret).resolve_left fun hphase => ?_
  rcases hagrees.2 with hother | hother <;> cases hphase.symm.trans hother

/-- Whoever has returned from the call that unlocks is outside. -/
lemma outside_of_returned {i : ℕ} (h : Invariant spec succ rounds v s)
    (ht : s.place t = .unlocking i) (hret : lock.returned s.lock t = true) :
    spec.phase s.lock t = .outside := by
  have hagrees := h.agrees t
  rw [ht] at hagrees
  refine ((spec.returned_iff h.lock).mp hret).resolve_right fun hphase => ?_
  rcases hagrees.2 with hother | hother <;> cases hphase.symm.trans hother

/-- The places of the other threads say what they said. -/
lemma agrees_goTo {l : L} {counter : V} {place : Place V} (h : Invariant spec succ rounds v s)
    (hphase : ∀ u, u ≠ t → spec.phase l u = spec.phase s.lock u)
    (hcounter : counter = s.counter ∨ spec.phase s.lock t = .holding)
    (ht : place.Agrees rounds counter (spec.phase l t)) (u : T) :
    (Function.update s.place t place u).Agrees rounds counter (spec.phase l u) := by
  rcases eq_or_ne u t with rfl | hne
  · rwa [Function.update_self]
  · rw [Function.update_of_ne hne, hphase u hne]
    rcases hcounter with rfl | hholds
    · exact h.agrees u
    · exact (h.agrees u).of_not_holding fun hu => hne (spec.unique h.lock hu hholds)

/-- The places and the counter after a step that does not write. -/
lemma counter_goTo {place : Place V} (h : Invariant spec succ rounds v s)
    (hwritten : place.written rounds = (s.place t).written rounds) :
    s.counter = succ^[total (Function.update s.place t place) (Place.written rounds)] v := by
  have htotal := total_update s.place (Place.written rounds) t place
  rw [hwritten, Nat.add_right_cancel_iff] at htotal
  rw [htotal]
  exact h.counter

/-- Every step keeps the invariant and is paid for. -/
lemma step {e : T × C} (h : Invariant spec succ rounds v s)
    (hst : Loops.step lock succ rounds s e = some s') :
    Invariant spec succ rounds v s' ∧
      s'.potential spec rounds + 1 ≤ s.potential spec rounds + s.stepSlack lock slack e := by
  obtain ⟨t, c⟩ := e
  have hagrees := h.agrees t
  have hpay := fun place => total_update s.place
    (Place.left spec.lockPrice spec.unlockPrice rounds) t place
  unfold potential
  cases effect_of_step hst with
  | @enter i ht hi =>
    rw [ht] at hagrees
    obtain ⟨hl, hphase, hcost⟩ := spec.callLock h.lock hagrees.2
    refine ⟨⟨hl, h.agrees_goTo (fun u hu => ?_) (Or.inl rfl) ⟨hi, Or.inl ?_⟩,
      h.counter_goTo (by rw [ht]; rfl)⟩, ?_⟩
    · rw [hphase, Function.update_of_ne hu]
    · rw [hphase, Function.update_self]
    · have hpaid := hpay (.locking i)
      rw [ht, Place.left_head hi] at hpaid
      dsimp only [goTo]
      omega
  | @leave i ht hi =>
    rw [ht] at hagrees
    obtain rfl : i = rounds := Nat.le_antisymm hagrees.1 (Nat.le_of_not_lt hi)
    refine ⟨⟨h.lock, h.agrees_goTo (fun u _ => rfl) (Or.inl rfl) hagrees.2,
      h.counter_goTo (by rw [ht]; rfl)⟩, ?_⟩
    have hpaid := hpay .returned
    rw [ht, Place.left_head_self] at hpaid
    have hzero : Place.left spec.lockPrice spec.unlockPrice i (.returned : Place V) = 0 := rfl
    dsimp only [goTo]
    omega
  | @read i ht hret =>
    rw [ht] at hagrees
    have hholds := h.holding_of_returned ht hret
    refine ⟨⟨h.lock, h.agrees_goTo (fun u _ => rfl) (Or.inl rfl) ⟨hagrees.1, hholds, rfl⟩,
      h.counter_goTo (by rw [ht]; rfl)⟩, ?_⟩
    have hpaid := hpay (.writing i s.counter)
    rw [ht] at hpaid
    have hone : Place.left spec.lockPrice spec.unlockPrice rounds (.locking i : Place V) =
        Place.left spec.lockPrice spec.unlockPrice rounds (.writing i s.counter) + 1 := rfl
    dsimp only [goTo]
    omega
  | @write i value ht =>
    rw [ht] at hagrees
    obtain ⟨hi, hholds, rfl⟩ := hagrees
    obtain ⟨hl, hphase, hcost⟩ := spec.callUnlock h.lock hholds
    refine ⟨⟨hl, h.agrees_goTo (fun u hu => ?_) (Or.inr hholds) ⟨hi, Or.inl ?_⟩, ?_⟩, ?_⟩
    · rw [hphase, Function.update_of_ne hu]
    · rw [hphase, Function.update_self]
    · have htotal := total_update s.place (Place.written rounds) t (.unlocking i)
      rw [ht] at htotal
      have hone : Place.written rounds (.unlocking i : Place V) =
          Place.written rounds (.writing i s.counter) + 1 := rfl
      have hnext : total (Function.update s.place t (.unlocking i)) (Place.written rounds) =
          total s.place (Place.written rounds) + 1 := by
        omega
      show succ s.counter = succ^[total (Function.update s.place t (.unlocking i)) _] v
      rw [hnext, Function.iterate_succ_apply', ← h.counter]
    · have hpaid := hpay (.unlocking i)
      rw [ht] at hpaid
      have hround : Place.left spec.lockPrice spec.unlockPrice rounds (.writing i s.counter) =
          Place.left spec.lockPrice spec.unlockPrice rounds (.unlocking i : Place V) +
            (spec.unlockPrice + 1) := by
        unfold Place.left
        dsimp only
        omega
      dsimp only [goTo]
      omega
  | @next i ht hret =>
    rw [ht] at hagrees
    have hout := h.outside_of_returned ht hret
    refine ⟨⟨h.lock, h.agrees_goTo (fun u _ => rfl) (Or.inl rfl) ⟨hagrees.1, hout⟩,
      h.counter_goTo (by rw [ht]; rfl)⟩, ?_⟩
    have hpaid := hpay (.head (i + 1))
    rw [ht, Place.left_unlocking] at hpaid
    dsimp only [goTo]
    omega
  | @inside i l ht hret hl =>
    obtain ⟨hinv, hothers, hphase, hcost⟩ := spec.step h.lock hl
    refine ⟨⟨hinv, fun u => ?_, h.counter⟩, ?_⟩
    · rcases eq_or_ne u t with rfl | hne
      · show (s.place u).Agrees rounds s.counter (spec.phase l u)
        rcases ht with ht | ht <;> rw [ht] at hagrees ⊢
        · rcases hphase with ⟨-, hphase⟩ | ⟨hphase, -⟩
          · exact ⟨hagrees.1, hphase⟩
          · rcases hagrees.2 with hother | hother <;> cases hphase.symm.trans hother
        · rcases hphase with ⟨hphase, -⟩ | ⟨-, hphase⟩
          · rcases hagrees.2 with hother | hother <;> cases hphase.symm.trans hother
          · exact ⟨hagrees.1, hphase⟩
      · show (s.place u).Agrees rounds s.counter (spec.phase l u)
        rw [hothers u hne]
        exact h.agrees u
    · have hslack : s.stepSlack lock slack (t, c) = slack s.lock t c := by
        unfold stepSlack
        rcases ht with ht | ht <;> simp only [ht, if_neg hret]
      rw [hslack]
      dsimp only at hcost ⊢
      omega

/-- The invariant holds in every reachable state. -/
lemma of_run {l : L} (hl : spec.Inv l) (hout : ∀ t, spec.phase l t = .outside)
    (h : Reachable (Loops.step lock succ rounds) (Loops.init l v) s) :
    Invariant spec succ rounds v s :=
  Run.invariant h (init hl hout) fun _ _ _ hs _ hst => (hs.step hst).1

/-- At most one thread is between reading and writing. -/
lemma unique_writing (h : Invariant spec succ rounds v s) {u : T} {i j : ℕ} {x y : V}
    (ht : s.place t = .writing i x) (hu : s.place u = .writing j y) : t = u := by
  have hagrees := h.agrees t
  have hagrees' := h.agrees u
  rw [ht] at hagrees
  rw [hu] at hagrees'
  exact spec.unique h.lock hagrees.2.1 hagrees'.2.1

/-- The counter when all threads have returned. -/
lemma counter_of_returned (h : Invariant spec succ rounds v s)
    (hret : ∀ t, s.place t = .returned) : s.counter = succ^[Fintype.card T * rounds] v := by
  have hplace : s.place = fun _ => .returned := funext hret
  have hcounter := h.counter
  rw [hplace, total_const] at hcounter
  exact hcounter

end Invariant

/-! ## The loops do not get stuck -/

omit [Fintype T] in
/-- A thread outside of the calls can make a step, which needs no slack. -/
lemma exists_step_of_outside (ht : s.place t ≠ .returned)
    (hret : lock.returned s.lock t = true ∨ (∃ i, s.place t = .head i) ∨
      ∃ i x, s.place t = .writing i x) (c : C) :
    ∃ s', step lock succ rounds s (t, c) = some s' ∧ s.stepSlack lock slack (t, c) = 0 := by
  unfold step stepSlack
  cases hplace : s.place t with
  | returned => exact absurd hplace ht
  | writing i x => exact ⟨_, rfl, rfl⟩
  | head i =>
    dsimp only
    split_ifs
    · exact ⟨_, rfl, rfl⟩
    · exact ⟨_, rfl, rfl⟩
  | locking i =>
    have hback : lock.returned s.lock t = true := by
      rcases hret with hret | ⟨j, hj⟩ | ⟨j, x, hj⟩
      · exact hret
      · cases hplace.symm.trans hj
      · cases hplace.symm.trans hj
    exact ⟨_, if_pos hback, if_pos hback⟩
  | unlocking i =>
    have hback : lock.returned s.lock t = true := by
      rcases hret with hret | ⟨j, hj⟩ | ⟨j, x, hj⟩
      · exact hret
      · cases hplace.symm.trans hj
      · cases hplace.symm.trans hj
    exact ⟨_, if_pos hback, if_pos hback⟩

omit [Fintype T] in
/-- A step inside of a call is a step of the loops. -/
lemma exists_step_of_inside {i : ℕ} {l : L}
    (ht : s.place t = .locking i ∨ s.place t = .unlocking i)
    (hret : ¬ lock.returned s.lock t = true) (hl : lock.step s.lock t c = some l)
    (hslack : slack s.lock t c = 0) :
    ∃ s', step lock succ rounds s (t, c) = some s' ∧ s.stepSlack lock slack (t, c) = 0 := by
  unfold step stepSlack
  rcases ht with ht | ht <;> simp only [ht, if_neg hret, hl, hslack, Option.map_some] <;>
    exact ⟨_, rfl, trivial⟩

/-- Before the last thread has returned, some thread can make a step that needs no slack, with the
default choice or with one that the lock grants nothing for. -/
lemma Invariant.exists_step [Inhabited C] {spec : LockSpec lock slack}
    (h : Invariant spec succ rounds v s) (ht : s.place t ≠ .returned) :
    ∃ e s', Loops.step lock succ rounds s e = some s' ∧ s.stepSlack lock slack e = 0 ∧
      (e.2 = default ∨ slack s.lock e.1 e.2 = 0) := by
  by_cases hfree : ∃ u, s.place u ≠ .returned ∧ (lock.returned s.lock u = true ∨
      (∃ i, s.place u = .head i) ∨ ∃ i x, s.place u = .writing i x)
  · obtain ⟨u, hu, hout⟩ := hfree
    obtain ⟨s', hst, hslack⟩ := exists_step_of_outside hu hout default
    exact ⟨_, s', hst, hslack, Or.inl rfl⟩
  · -- everybody is inside of a call or has returned, so nobody holds the lock
    have hinside : ∀ u, s.place u ≠ .returned → ¬ lock.returned s.lock u = true ∧
        ∃ i, s.place u = .locking i ∨ s.place u = .unlocking i := by
      intro u hu
      refine ⟨fun hret => hfree ⟨u, hu, Or.inl hret⟩, ?_⟩
      cases hplace : s.place u with
      | returned => exact absurd hplace hu
      | head i => exact absurd ⟨u, hu, Or.inr (Or.inl ⟨i, hplace⟩)⟩ hfree
      | writing i x => exact absurd ⟨u, hu, Or.inr (Or.inr ⟨i, x, hplace⟩)⟩ hfree
      | locking i => exact ⟨i, Or.inl rfl⟩
      | unlocking i => exact ⟨i, Or.inr rfl⟩
    have hphase : ∀ u, s.place u = .returned → spec.phase s.lock u = .outside := by
      intro u hu
      have hagrees := h.agrees u
      rw [hu] at hagrees
      exact hagrees
    have hcall : ∀ u, s.place u ≠ .returned →
        spec.phase s.lock u = .locking ∨ spec.phase s.lock u = .unlocking := by
      intro u hu
      have hnot := (spec.returned_iff h.lock).not.mp (hinside u hu).1
      cases hcase : spec.phase s.lock u with
      | outside => exact absurd (Or.inl hcase) hnot
      | holding => exact absurd (Or.inr hcase) hnot
      | locking => exact Or.inl rfl
      | unlocking => exact Or.inr rfl
    have hnobody : ∀ u, spec.phase s.lock u ≠ .holding := by
      intro u hu
      by_cases hplace : s.place u = .returned
      · cases (hphase u hplace).symm.trans hu
      · rcases hcall u hplace with hcase | hcase <;> cases hcase.symm.trans hu
    obtain ⟨u, c, l, hl, hslack⟩ := spec.progress h.lock (hcall t ht) hnobody
    have hu : s.place u ≠ .returned := by
      intro hplace
      rcases (spec.step h.lock hl).2.2.1 with ⟨hcase, -⟩ | ⟨hcase, -⟩ <;>
        cases hcase.symm.trans (hphase u hplace)
    obtain ⟨hret, i, hi⟩ := hinside u hu
    obtain ⟨s', hst, hzero⟩ := exists_step_of_inside hi hret hl hslack
    exact ⟨_, s', hst, hzero, Or.inr hslack⟩

/-! ## Main result -/

/-- However the threads are scheduled: at most one is between reading and writing; there are no more
steps than the calls cost and the slack grants; before the last thread has returned some thread can
make a step without slack; and when all have returned, no increment was lost. -/
theorem loops_complete [Inhabited C] (spec : LockSpec lock slack) {l : L} (hl : spec.Inv l)
    (hout : ∀ t, spec.phase l t = .outside) {es : List (T × C)}
    (h : execWhere (step lock succ rounds) anyStep (init l v) es = some s) :
    (∀ t u i j x y, s.place t = .writing i x → s.place u = .writing j y → t = u) ∧
    es.length ≤ spec.cost l +
      Fintype.card T * (rounds * Place.roundPrice spec.lockPrice spec.unlockPrice + 1) +
      granted (step lock succ rounds) (stepSlack lock slack) (init l v) es ∧
    ((∃ t, s.place t ≠ .returned) →
      ∃ e s', step lock succ rounds s e = some s' ∧ s.stepSlack lock slack e = 0 ∧
        (e.2 = default ∨ slack s.lock e.1 e.2 = 0)) ∧
    ((∀ t, s.place t = .returned) → s.counter = succ^[Fintype.card T * rounds] v) := by
  have hinit : Invariant spec succ rounds v (init l v) := Invariant.init hl hout
  have hinv := Invariant.of_run hl hout (Run.of_execWhere h)
  refine ⟨fun t u i j x y ht hu => hinv.unique_writing ht hu, ?_, ?_, hinv.counter_of_returned⟩
  · have hle : es.length + s.potential spec rounds ≤
        (init l v : Loops T L V).potential spec rounds +
          granted (step lock succ rounds) (stepSlack lock slack) (init l v) es :=
      length_le_of_potential hinit
        (fun _ _ _ hs _ hst => hs.step hst) h
    have hstart : potential spec rounds (init l v : Loops T L V) = spec.cost l +
        Fintype.card T * (rounds * Place.roundPrice spec.lockPrice spec.unlockPrice + 1) :=
      congrArg (spec.cost l + ·) (total_const _)
    omega
  · rintro ⟨t, ht⟩
    exact hinv.exists_step ht

end Loops

end Rules

end LockedCounter
