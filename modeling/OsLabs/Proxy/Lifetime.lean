import OsLabs.Proxy.Moves

/-!
# The lifetime of a manager

`Owned` is the ownership invariant of the handlers: a manager that some handler is still to use is
not destroyed, the handler in a session of a manager is the only one, and an entry of a destroyed
manager is about to be deleted by the handler that destroyed it.

`Owned` is not preserved by every step, and a destroyed manager can be used: the end of a session
looks neither at the handlers that already hold the manager nor at the entry that it deletes.
`safeLifetime` is the condition on a step under which `Owned` is preserved.
-/

namespace OsLabs.Proxy

open Transition

variable {n : ℕ} {req : Fin n → HttpRequest} {s t : ProxyState n} {e : HandlerEvent n}

/-! ## The ownership invariant -/

/-- The condition on a step under which no manager is used after its end:

* a handler looks its path up while no handler is between `destroy_subscription_manager` and
  `delete` for that path;
* a manager is destroyed while no handler that got it is still before its `cas`;
* when a session deletes the newest entry of its path, its own entry is not below it. -/
def safeLifetime (req : Fin n → HttpRequest) (s : ProxyState n) (e : HandlerEvent n) : Bool :=
  match s.pc e.handler with
  | .lookup => ∀ h, (s.pc h).deleting = true → (req h).path ≠ (req e.handler).path
  | .destroy m => ∀ h, (s.pc h).uses ≠ some m
  | .delete m => m ∉ (s.entries (req e.handler).path).tail
  | _ => true

/-- Who may hold, perform the session of, and find an entry for a manager. -/
structure Owned (s : ProxyState n) : Prop where
  /-- A manager that a handler is still to use is not destroyed. -/
  live : ∀ h m, (s.pc h).uses = some m → (s.manager m).destroyed = false
  /-- A manager before its insertion is not destroyed. -/
  new : ∀ h m, s.pc h = .insert m → (s.manager m).destroyed = false
  /-- A manager before its insertion is not stored. -/
  unstored : ∀ h m p, s.pc h = .insert m → m ∉ s.entries p
  /-- A manager before its insertion is known to its creator only. -/
  private_ : ∀ h h' m, s.pc h = .insert m → (s.pc h').manager = some m → h' = h
  /-- A manager with a session is busy. -/
  busy : ∀ h m, (s.pc h).session = some m → (s.manager m).isBusy = true
  /-- Only the handler of a session is in it. -/
  unique : ∀ h h' m, (s.pc h).session = some m → (s.pc h').session = some m → h' = h
  /-- The handler of a session destroys the manager just before it deletes the entry. -/
  ending : ∀ h m, (s.pc h).session = some m →
    ((s.manager m).destroyed = true ↔ s.pc h = .delete m)
  /-- No manager is stored twice under a path. -/
  nodup : ∀ p, (s.entries p).Nodup
  /-- An entry of a destroyed manager is about to be deleted. -/
  stale : ∀ p m, m ∈ s.entries p → (s.manager m).destroyed = true → ∃ h, s.pc h = .delete m

/-- `Owned` holds before any handler has started. -/
lemma owned_initial (n : ℕ) : Owned (initialProxy n) := by
  constructor <;>
    simp [initialProxy, Pc.manager, Pc.uses, Pc.session, ProxyState.entries, newManager]

/-! ## One step -/

section Step

variable {h h' : Fin n} {m : ℕ} {p : CharArray 512}

/-- A manager that is looked up while no handler is about to delete its entry is live. -/
lemma Owned.found_live (hk : Keyed req s) (ho : Owned s) (hok : safeLifetime req s e = true)
    (hpc : s.pc e.handler = .lookup) (hget : m ∈ s.entries (req e.handler).path) :
    (s.manager m).destroyed = false := by
  by_contra hd
  rw [Bool.not_eq_false] at hd
  obtain ⟨h, hh⟩ := ho.stale _ _ hget hd
  have hpath : (req h).path = (req e.handler).path :=
    (hk.held h m (by rw [hh]; rfl)).2.symm.trans (hk.stored _ _ hget).2
  have hall : ∀ h, (s.pc h).deleting = true → (req h).path ≠ (req e.handler).path := by
    simpa [safeLifetime, hpc] using hok
  exact hall h (by rw [hh]; rfl) hpath

/-- A manager that a handler is to use after a step with a safe lifetime is not destroyed. -/
lemma Owned.live_step (hk : Keyed req s) (ho : Owned s) (hok : safeLifetime req s e = true)
    (hmove : Move req s e.handler e.outcome t) (hm : (t.pc h).uses = some m) :
    (t.manager m).destroyed = false := by
  have hlive : m < s.managers ∧ (s.manager m).destroyed = false := by
    by_cases hh : h = e.handler
    · subst hh
      rcases hmove.uses hm with hold | ⟨hpc, hget⟩ | hpc
      · exact ⟨(hk.held _ _ (Pc.manager_of_uses hold)).1, ho.live _ _ hold⟩
      · exact ⟨(hk.stored _ _ hget).1, ho.found_live hk hok hpc hget⟩
      · exact ⟨(hk.held _ m (by rw [hpc]; rfl)).1, ho.new _ _ hpc⟩
    · rw [hmove.pc_of_ne hh] at hm
      exact ⟨(hk.held _ _ (Pc.manager_of_uses hm)).1, ho.live _ _ hm⟩
  rcases hmove.destroyed hlive.1 with heq | ⟨hpc, hpc'⟩
  · exact heq.trans hlive.2
  · -- A manager that some handler is still to use is not destroyed by this step.
    have hall : ∀ h, (s.pc h).uses ≠ some m := by simpa [safeLifetime, hpc] using hok
    by_cases hh : h = e.handler
    · rw [hh, hpc'] at hm
      cases hm
    · rw [hmove.pc_of_ne hh] at hm
      exact absurd hm (hall h)

/-- A manager before its insertion is not destroyed by a step. -/
lemma Owned.new_step (hk : Keyed req s) (ho : Owned s)
    (hmove : Move req s e.handler e.outcome t) (hpc : t.pc h = .insert m) :
    (t.manager m).destroyed = false := by
  by_cases hh : h = e.handler
  · subst hh
    obtain ⟨rfl, rfl⟩ := hmove.eq_create hpc
    simp [newManager]
  · rw [hmove.pc_of_ne hh] at hpc
    rcases hmove.destroyed (hk.held h m (by rw [hpc]; rfl)).1 with heq | ⟨hdestroy, -⟩
    · exact heq.trans (ho.new _ _ hpc)
    · exact absurd (ho.private_ _ _ _ hpc (by rw [hdestroy]; rfl)).symm hh

/-- Nor is it stored by a step. -/
lemma Owned.unstored_step (hk : Keyed req s) (ho : Owned s)
    (hmove : Move req s e.handler e.outcome t) (hpc : t.pc h = .insert m) :
    m ∉ t.entries p := by
  intro hmem
  by_cases hh : h = e.handler
  · subst hh
    obtain ⟨rfl, rfl⟩ := hmove.eq_create hpc
    exact Nat.lt_irrefl _ (hk.stored p _ (by simpa using hmem)).1
  · rw [hmove.pc_of_ne hh] at hpc
    rcases hmove.mem_entries hmem with hold | ⟨hinsert, -⟩
    · exact ho.unstored _ _ _ hpc hold
    · exact hh (ho.private_ _ _ _ hpc (by rw [hinsert]; rfl)).symm

/-- Nor does another handler come to know it. -/
lemma Owned.private_step (hk : Keyed req s) (ho : Owned s)
    (hmove : Move req s e.handler e.outcome t) (hpc : t.pc h = .insert m)
    (hm : (t.pc h').manager = some m) : h' = h := by
  by_cases hh : h = e.handler
  · subst hh
    by_contra hne
    rw [hmove.pc_of_ne hne] at hm
    exact Nat.ne_of_lt (hk.held _ _ hm).1 (hmove.eq_create hpc).1
  · rw [hmove.pc_of_ne hh] at hpc
    by_cases hh' : h' = e.handler
    · subst hh'
      rcases hmove.manager hm with hold | hget | ⟨hnew, -⟩
      · exact ho.private_ _ _ _ hpc hold
      · exact absurd hget (ho.unstored _ _ _ hpc)
      · exact absurd hnew (Nat.ne_of_lt (hk.held h m (by rw [hpc]; rfl)).1)
    · rw [hmove.pc_of_ne hh'] at hm
      exact ho.private_ _ _ _ hpc hm

/-- A handler that has just claimed its manager is the only one with a session of it. -/
lemma Owned.claimed (ho : Owned s) (hpc : s.pc h = .cas m)
    (hfree : (s.manager m).destroyed = false → (s.manager m).isBusy = false) :
    (s.pc h').session ≠ some m := by
  intro hses
  have hbusy := ho.busy h' m hses
  rw [hfree (ho.live h m (by rw [hpc]; rfl))] at hbusy
  cases hbusy

/-- A manager with a session is busy after each step. -/
lemma Owned.busy_step (hk : Keyed req s) (ho : Owned s)
    (hmove : Move req s e.handler e.outcome t) (hm : (t.pc h).session = some m) :
    (t.manager m).isBusy = true := by
  have hkeep : ∀ {h}, (s.pc h).session = some m → (t.manager m).isBusy = true := fun hold =>
    hmove.isBusy (hk.held _ m (Pc.manager_of_session hold)).1 (ho.busy _ m hold)
  by_cases hh : h = e.handler
  · subst hh
    rcases hmove.session hm with hold | ⟨-, -, -, hbusy⟩
    · exact hkeep hold
    · exact hbusy
  · rw [hmove.pc_of_ne hh] at hm
    exact hkeep hm

/-- A step brings no second handler into a session. -/
lemma Owned.unique_step (ho : Owned s) (hmove : Move req s e.handler e.outcome t)
    (hm : (t.pc h).session = some m) (hm' : (t.pc h').session = some m) : h' = h := by
  by_cases hh : h = e.handler
  · by_cases hh' : h' = e.handler
    · exact hh'.trans hh.symm
    · subst hh
      rw [hmove.pc_of_ne hh'] at hm'
      rcases hmove.session hm with hold | ⟨hpc, -, hfree, -⟩
      · exact ho.unique _ _ _ hold hm'
      · exact absurd hm' (ho.claimed hpc hfree)
  · rw [hmove.pc_of_ne hh] at hm
    by_cases hh' : h' = e.handler
    · subst hh'
      rcases hmove.session hm' with hold | ⟨hpc, -, hfree, -⟩
      · exact ho.unique _ _ _ hm hold
      · exact absurd hm (ho.claimed hpc hfree)
    · rw [hmove.pc_of_ne hh'] at hm'
      exact ho.unique _ _ _ hm hm'

/-- The handler of a session destroys the manager with the step that takes it to `delete`. -/
lemma Owned.ending_step (hk : Keyed req s) (ho : Owned s)
    (hmove : Move req s e.handler e.outcome t) (hm : (t.pc h).session = some m) :
    (t.manager m).destroyed = true ↔ t.pc h = .delete m := by
  by_cases hh : h = e.handler
  · subst hh
    refine ⟨fun hd => ?_, fun hpc => (hmove.eq_destroy hpc).2⟩
    rcases hmove.session hm with hold | ⟨hpc, -, -, -⟩
    · have hlt := (hk.held _ m (Pc.manager_of_session hold)).1
      rcases hmove.destroyed hlt with heq | ⟨-, hpc'⟩
      · -- The manager was destroyed before, so the handler has now left its session.
        have hdelete := (ho.ending _ _ hold).mp (heq.symm.trans hd)
        rw [hmove.eq_delete hdelete, goto_pc, if_pos rfl] at hm
        cases hm
      · exact hpc'
    · have hlive := ho.live _ m (by rw [hpc]; rfl)
      rcases hmove.destroyed (hk.held _ m (by rw [hpc]; rfl)).1 with heq | ⟨-, hpc'⟩
      · rw [heq, hlive] at hd
        cases hd
      · exact hpc'
  · rw [hmove.pc_of_ne hh] at hm ⊢
    rw [← ho.ending _ _ hm]
    rcases hmove.destroyed (hk.held _ m (Pc.manager_of_session hm)).1 with heq | ⟨hpc, -⟩
    · rw [heq]
    · exact absurd (ho.unique _ _ _ hm (by rw [hpc]; rfl)).symm hh

/-- A step stores no manager twice under a path. -/
lemma Owned.nodup_step (ho : Owned s) (hmove : Move req s e.handler e.outcome t) :
    (t.entries p).Nodup := by
  have hold := ho.nodup p
  cases hmove with
  | insert hpc =>
    rw [goto_entries, insert_entries]
    split_ifs
    · exact List.nodup_cons.mpr ⟨ho.unstored _ _ _ hpc, hold⟩
    · exact hold
  | delete hpc =>
    rw [goto_entries, delete_entries]
    split_ifs
    · exact hold.tail
    · exact hold
  | _ => simpa using hold

/-- After a step with a safe lifetime, an entry of a destroyed manager is about to be deleted. -/
lemma Owned.stale_step (hk : Keyed req s) (ho : Owned s) (hok : safeLifetime req s e = true)
    (hmove : Move req s e.handler e.outcome t) (hm : m ∈ t.entries p)
    (hd : (t.manager m).destroyed = true) : ∃ h, t.pc h = .delete m := by
  have hlt : m < s.managers := by
    rcases hmove.mem_entries hm with hold | ⟨hpc, -⟩
    · exact (hk.stored _ _ hold).1
    · exact (hk.held _ m (by rw [hpc]; rfl)).1
  rcases hmove.destroyed hlt with heq | ⟨-, hpc'⟩
  · have hd' : (s.manager m).destroyed = true := heq.symm.trans hd
    rcases hmove.mem_entries hm with hold | ⟨hpc, -⟩
    · obtain ⟨h, hh⟩ := ho.stale p m hold hd'
      refine ⟨h, ?_⟩
      have hne : h ≠ e.handler := by
        -- The handler that deletes removes this entry: it is the newest of its path.
        rintro rfl
        have hp : (req e.handler).path = p :=
          (hk.held _ m (by rw [hh]; rfl)).2.symm.trans (hk.stored p m hold).2
        have hnot : m ∉ (s.entries (req e.handler).path).tail := by
          simpa [safeLifetime, hh] using hok
        rw [hmove.eq_delete hh, goto_entries, delete_entries, if_pos hp] at hm
        exact hnot (hp ▸ hm)
      rw [hmove.pc_of_ne hne]
      exact hh
    · rw [ho.new _ _ hpc] at hd'
      cases hd'
  · exact ⟨e.handler, hpc'⟩

/-- `Owned` is preserved by every step with a safe lifetime. -/
lemma owned_step (hk : Keyed req s) (ho : Owned s) (hok : safeLifetime req s e = true)
    (hst : handlerStep req s e = some t) : Owned t := by
  have hmove := move_of_handlerStep hst
  exact
    { live := fun _ _ => ho.live_step hk hok hmove
      new := fun _ _ => ho.new_step hk hmove
      unstored := fun _ _ _ => ho.unstored_step hk hmove
      private_ := fun _ _ _ => ho.private_step hk hmove
      busy := fun _ _ => ho.busy_step hk hmove
      unique := fun _ _ _ => ho.unique_step hmove
      ending := fun _ _ => ho.ending_step hk hmove
      nodup := fun _ => ho.nodup_step hmove
      stale := fun _ _ => ho.stale_step hk hok hmove }

end Step

/-- `Owned` holds after every run whose steps have a safe lifetime. -/
theorem owned_of_run
    (hrun : Run (handlerStep req) (safeLifetime req · · = true) (initialProxy n) s) : Owned s :=
  hrun.invariant_with (fun _ => keyed_of_run) (owned_initial n)
    fun _ _ _ hk _ ho hok hst => owned_step hk ho hok hst

/-! ## The use of managers -/

/-- In a run whose steps have a safe lifetime, no handler subscribes to a destroyed manager or
tries to claim one. -/
theorem manager_live_when_used
    (hrun : Run (handlerStep req) (safeLifetime req · · = true) (initialProxy n) s)
    (h : Fin n) (m : ℕ) (hpc : s.pc h = .subscribe m ∨ s.pc h = .cas m) :
    (s.manager m).destroyed = false := by
  refine (owned_of_run hrun).live h m ?_
  rcases hpc with hpc | hpc <;> rw [hpc] <;> rfl

/-- Two clients that ask for the same page. -/
def sameRequests (_ : Fin 2) : HttpRequest := plainRequest methodGet samplePath

/-- Steps of one handler, all of whose calls succeed. -/
def steps (h : Fin n) (k : ℕ) : List (HandlerEvent n) := List.replicate k ⟨h, true⟩

/-- After the whole session of the first client, the second one gets and uses a new manager. -/
theorem manager_live_when_used_later :
    ∃ s, Run (handlerStep sameRequests) (safeLifetime sameRequests · · = true) (initialProxy 2) s ∧
      (s.manager 0).destroyed = true ∧ s.pc 1 = .subscribe 1 ∧ (s.manager 1).destroyed = false := by
  have hrun := Run.get_execWhere (handlerStep sameRequests) (safeLifetime sameRequests · · = true)
    (initialProxy 2) (steps 0 11 ++ steps 1 4) (by decide +kernel)
  exact ⟨_, hrun, by decide +kernel, by decide +kernel,
    manager_live_when_used hrun 1 1 (Or.inl (by decide +kernel))⟩

/-- The second client gets the manager, the first one ends its session and destroys it, and the
second one is about to subscribe to the freed manager. -/
theorem destroyed_manager_used :
    ∃ s, Reachable (handlerStep sameRequests) (initialProxy 2) s ∧
      s.pc 1 = .subscribe 0 ∧ (s.manager 0).destroyed = true := by
  have hrun := Run.get_execWhere (handlerStep sameRequests) anyStep (initialProxy 2)
    (steps 0 4 ++ steps 1 2 ++ steps 0 6) (by decide +kernel)
  exact ⟨_, hrun, by decide +kernel, by decide +kernel⟩

end OsLabs.Proxy
