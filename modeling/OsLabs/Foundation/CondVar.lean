import OsLabs.Foundation.Census

/-!
# Condition variables

A thread that waits on a condition variable is asleep until a wake-up is delivered to it.  A signal
delivers one wake-up if somebody is asleep and is lost otherwise; further wake-ups may be delivered
at any time.

`WakeUpLaw asleep items pending` relates the sleepers to the items they wait for: while somebody is
asleep there are at most as many items as threads that are going to look at them.  The rules say
that the law survives what the threads do: an item is added by a thread that is going to signal, a
signal is sent (`signal`), a thread takes an item (`update`), finds none and sleeps (`of_le`), or is
woken for no reason (`wake`).
-/

/-- Whether a signal may go to `target` when the threads in `asleep` sleep: to one of them, and to
nobody only if nobody sleeps. -/
def maySignal {T : Type*} [Fintype T] (asleep : T → Bool) : Option T → Prop
  | some t => asleep t = true
  | none => ∀ t, asleep t = false

instance {T : Type*} [Fintype T] (asleep : T → Bool) (target : Option T) :
    Decidable (maySignal asleep target) := by
  cases target
  · exact inferInstanceAs (Decidable (∀ t, asleep t = false))
  · exact inferInstanceAs (Decidable (asleep _ = true))

/-- The threads after a wake-up was delivered to `target`; `onWake` is what it does to a thread. -/
def deliver {T A : Type*} [DecidableEq T] (onWake : A → A) (f : T → A) : Option T → T → A
  | some t => Function.update f t (onWake (f t))
  | none => f

/-- A signal always has a target that it may go to. -/
lemma exists_maySignal {T : Type*} [Fintype T] (asleep : T → Bool) :
    ∃ target, maySignal asleep target := by
  by_cases h : ∃ t, asleep t = true
  · obtain ⟨t, ht⟩ := h
    exact ⟨some t, ht⟩
  · exact ⟨none, fun t => Bool.eq_false_iff.mpr fun ht => h ⟨t, ht⟩⟩

/-- A thread is where it was, or woken. -/
lemma deliver_eq {T A : Type*} [DecidableEq T] (onWake : A → A) (f : T → A) (target : Option T)
    (t : T) : deliver onWake f target t = f t ∨ deliver onWake f target t = onWake (f t) := by
  cases target with
  | none => exact Or.inl rfl
  | some u =>
    rcases eq_or_ne t u with rfl | hne
    · exact Or.inr (Function.update_self ..)
    · exact Or.inl (Function.update_of_ne hne ..)

/-- While somebody is asleep, every item has a thread that is going to look at it. -/
def WakeUpLaw (asleep : ℕ) (items pending : ℤ) : Prop := 0 < asleep → items ≤ pending

namespace WakeUpLaw

variable {T A : Type*} [Fintype T] [DecidableEq T] {f : T → A} {asleep pending : A → Bool}
  {onWake : A → A} {items items' bound : ℤ} {t : T} {a : A}

omit [Fintype T] [DecidableEq T] in
/-- The law holds where there are no more items than threads going to look at them. -/
lemma of_le {n : ℕ} (h : items ≤ bound) : WakeUpLaw n items bound := fun _ => h

omit [DecidableEq T] in
/-- The law holds where nobody sleeps. -/
lemma of_awake (h : ∀ t, asleep (f t) = false) : WakeUpLaw (census f asleep) items bound :=
  fun hpos => absurd hpos (by rw [census_eq_zero h]; exact Nat.lt_irrefl 0)

/-- A step of one thread that does not put it to sleep keeps the law, when the items grow by no more
than its own intention to look: it adds an item and is going to signal, or takes the item it was
looking for, or takes one without having been called. -/
lemma update (h : WakeUpLaw (census f asleep) items (census f pending))
    (hasleep : (asleep a).toNat ≤ (asleep (f t)).toNat)
    (hitems : items' + (pending (f t)).toNat ≤ items + (pending a).toNat) :
    WakeUpLaw (census (Function.update f t a) asleep) items'
      (census (Function.update f t a) pending) := by
  have hsleepers := census_update f asleep t a
  have hpending := census_update f pending t a
  intro hpos
  have hle := h (by omega)
  omega

/-- A wake-up keeps the law. -/
lemma wake (h : WakeUpLaw (census f asleep) items (census f pending))
    (ht : asleep (f t) = true) (hwake : ∀ a, asleep a = true →
      asleep (onWake a) = false ∧ pending (onWake a) = true) :
    WakeUpLaw (census (Function.update f t (onWake (f t))) asleep) items
      (census (Function.update f t (onWake (f t))) pending) := by
  refine h.update ?_ ?_
  · rw [(hwake _ ht).1, Bool.toNat_false]
    omega
  · have hle := Bool.toNat_le (pending (f t))
    rw [(hwake _ ht).2, Bool.toNat_true]
    omega

/-- A wake-up of a thread that has nothing to do with the law keeps it. -/
lemma bystander (h : WakeUpLaw (census f asleep) items (census f pending)) {target : Option T}
    (hwake : ∀ u, target = some u → asleep (onWake (f u)) = asleep (f u) ∧
      pending (onWake (f u)) = pending (f u)) :
    WakeUpLaw (census (deliver onWake f target) asleep) items
      (census (deliver onWake f target) pending) := by
  cases target with
  | none => exact h
  | some u =>
    obtain ⟨hasleep, hpending⟩ := hwake u rfl
    exact h.update (by rw [hasleep]) (by rw [hpending])

/-- A new item with its signal keeps the law: it has a woken thread, or nobody sleeps. -/
lemma notify (h : WakeUpLaw (census f asleep) items (census f pending)) {target : Option T}
    (htarget : maySignal (fun u => asleep (f u)) target) (hitems : items' ≤ items + 1)
    (hwake : ∀ a, asleep a = true →
      asleep (onWake a) = false ∧ pending (onWake a) = true ∧ pending a = false) :
    WakeUpLaw (census (deliver onWake f target) asleep) items'
      (census (deliver onWake f target) pending) := by
  cases target with
  | none => exact of_awake htarget
  | some u =>
    obtain ⟨hawake, hlooks, hslept⟩ := hwake _ htarget
    refine h.update ?_ ?_
    · rw [hawake]
      exact Nat.zero_le _
    · rw [hlooks, hslept, Bool.toNat_true, Bool.toNat_false]
      omega

/-- A signal keeps the law, although the thread that sends it was counted as going to: it wakes a
thread that will look instead, or nobody sleeps. -/
lemma signal (h : WakeUpLaw (census f asleep) items (census f pending)) {target : Option T}
    (htarget : maySignal (fun u => asleep (f u)) target)
    (ht : asleep (f t) = false) (ha : asleep a = false) (hwake : ∀ a, asleep a = true →
      asleep (onWake a) = false ∧ pending (onWake a) = true ∧ pending a = false) :
    WakeUpLaw (census (deliver onWake (Function.update f t a) target) asleep) items
      (census (deliver onWake (Function.update f t a) target) pending) := by
  have hsame : ∀ u, asleep (Function.update f t a u) = asleep (f u) := by
    intro u
    rcases eq_or_ne u t with rfl | hne
    · rw [Function.update_self, ha, ht]
    · rw [Function.update_of_ne hne]
  -- without its sender one item less is accounted for
  have hleft : WakeUpLaw (census (Function.update f t a) asleep) (items - 1)
      (census (Function.update f t a) pending) := by
    have hle := Bool.toNat_le (pending (f t))
    exact h.update (by rw [ht, ha]) (by omega)
  exact hleft.notify (by simpa only [hsame] using htarget) (by omega) hwake

end WakeUpLaw
