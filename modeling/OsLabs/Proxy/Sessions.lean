import OsLabs.Proxy.Lifetime
import Mathlib.Data.Finset.Card

/-!
# One session for one path

The compare-and-swap on `is_busy` lets one handler perform the session of a manager, but the lookup
and the insertion of the manager are two calls: handlers that both find nothing insert a manager
each, and one path then has two sessions.  `singleManager` is the condition on a step that excludes
this, and `one_session_of_path` is mutual exclusion for the handlers of one path in the runs that
meet it.
-/

namespace OsLabs.Proxy

open Transition

variable {n : ℕ} {req : Fin n → HttpRequest} {s t : ProxyState n} {e : HandlerEvent n}

/-- The handlers of a path that are between a successful `cas` and the end of their session. -/
def sessionsOf (req : Fin n → HttpRequest) (s : ProxyState n) (path : CharArray 512) :
    Finset (Fin n) :=
  Finset.univ.filter fun h => (req h).path = path ∧ (s.pc h).session.isSome = true

/-- The condition on a step under which a path has one manager at a time: the step has a safe
lifetime, and an insertion succeeds and finds its path without an entry. -/
def singleManager (req : Fin n → HttpRequest) (s : ProxyState n) (e : HandlerEvent n) : Bool :=
  safeLifetime req s e &&
    match s.pc e.handler with
    | .insert _ => e.outcome && (s.entries (req e.handler).path).isEmpty
    | _ => true

/-- A path has at most one entry, and its handlers use and serve the manager of that entry. -/
structure Single (req : Fin n → HttpRequest) (s : ProxyState n) : Prop where
  /-- A path has at most one entry. -/
  entry : ∀ p m m', m ∈ s.entries p → m' ∈ s.entries p → m' = m
  /-- A manager that a handler is still to use is stored. -/
  used : ∀ h m, (s.pc h).uses = some m → m ∈ s.entries (req h).path
  /-- A manager with a session is stored. -/
  served : ∀ h m, (s.pc h).session = some m → m ∈ s.entries (req h).path

/-- `Single` holds before any handler has started. -/
lemma single_initial (req : Fin n → HttpRequest) : Single req (initialProxy n) := by
  constructor <;> simp [initialProxy, Pc.uses, Pc.session, ProxyState.entries]

section Step

variable {h : Fin n} {m m' : ℕ} {p : CharArray 512}

/-- An insertion that meets the condition succeeds, and its path has no entry before. -/
lemma insert_of_singleManager (hok : singleManager req s e = true)
    (hpc : s.pc e.handler = .insert m) :
    e.outcome = true ∧ s.entries (req e.handler).path = [] := by
  rw [singleManager, Bool.and_eq_true] at hok
  simpa only [hpc, Bool.and_eq_true, List.isEmpty_iff] using hok.2

/-- A step that meets the condition stores no second manager for a path. -/
lemma Single.entry_step (hs : Single req s) (hok : singleManager req s e = true)
    (hmove : Move req s e.handler e.outcome t) (hm : m ∈ t.entries p) (hm' : m' ∈ t.entries p) :
    m' = m := by
  rcases hmove.mem_entries hm with hold | ⟨hpc, hp⟩
  · rcases hmove.mem_entries hm' with hold' | ⟨hpc', hp'⟩
    · exact hs.entry p m m' hold hold'
    · rw [← hp', (insert_of_singleManager hok hpc').2] at hold
      cases hold
  · rcases hmove.mem_entries hm' with hold' | ⟨hpc', -⟩
    · rw [← hp, (insert_of_singleManager hok hpc).2] at hold'
      cases hold'
    · exact (Pc.insert.inj (hpc'.symm.trans hpc))

/-- The manager of a path stays stored while another handler than the one that has destroyed it is
still to use it or in its session. -/
lemma Single.stays (hs : Single req s) (hmove : Move req s e.handler e.outcome t)
    (hm : m ∈ s.entries p) (hnot : ∀ k, s.pc e.handler = .delete k → m ≠ k) :
    m ∈ t.entries p := by
  rcases hmove.keeps_entries hm with hkept | ⟨k, hpc, hp⟩
  · exact hkept
  · -- The only entry of the path is the one of the handler that deletes.
    have hk : k ∈ s.entries p := hp ▸ hs.served e.handler k (by rw [hpc]; rfl)
    exact absurd (hs.entry p k m hk hm) (hnot k hpc)

/-- A manager that a handler is to use after such a step is stored. -/
lemma Single.used_step (ho : Owned s) (hs : Single req s) (hok : singleManager req s e = true)
    (hmove : Move req s e.handler e.outcome t) (hm : (t.pc h).uses = some m) :
    m ∈ t.entries (req h).path := by
  -- A manager that is still to be used is live, the one whose entry is deleted is not.
  have hstays : (s.pc h).uses = some m → m ∈ t.entries (req h).path := fun hold =>
    hs.stays hmove (hs.used h m hold) fun k hpc heq => by
      have hdead := (ho.ending e.handler k (by rw [hpc]; rfl)).mpr hpc
      rw [← heq, ho.live h m hold] at hdead
      cases hdead
  by_cases hh : h = e.handler
  · subst hh
    rcases hmove.uses hm with hold | ⟨hpc, hget⟩ | hpc
    · exact hstays hold
    · exact hs.stays hmove hget fun k hpc' => by simp [hpc] at hpc'
    · exact ((insert_of_singleManager hok hpc).1 ▸ hmove).inserted hpc
  · rw [hmove.pc_of_ne hh] at hm
    exact hstays hm

/-- A manager with a session is stored after each step. -/
lemma Single.served_step (ho : Owned s) (hs : Single req s)
    (hmove : Move req s e.handler e.outcome t) (hm : (t.pc h).session = some m) :
    m ∈ t.entries (req h).path := by
  by_cases hh : h = e.handler
  · subst hh
    have hnot : ∀ k, s.pc e.handler = .delete k → m ≠ k := by
      intro k hpc
      rw [hmove.eq_delete hpc, goto_pc, if_pos rfl] at hm
      cases hm
    rcases hmove.session hm with hold | ⟨hpc, -⟩
    · exact hs.stays hmove (hs.served _ m hold) hnot
    · exact hs.stays hmove (hs.used _ m (by rw [hpc]; rfl)) hnot
  · rw [hmove.pc_of_ne hh] at hm
    refine hs.stays hmove (hs.served h m hm) fun k hpc heq => hh ?_
    exact (ho.unique h e.handler m hm (by rw [hpc, heq]; rfl)).symm

/-- `Single` is preserved by every step that meets the condition. -/
lemma single_step (ho : Owned s) (hs : Single req s) (hok : singleManager req s e = true)
    (hst : handlerStep req s e = some t) : Single req t :=
  have hmove := move_of_handlerStep hst
  ⟨fun _ _ _ => hs.entry_step hok hmove, fun _ _ => hs.used_step ho hok hmove,
    fun _ _ => hs.served_step ho hmove⟩

end Step

/-- A run with one manager for each path has safe lifetimes. -/
lemma run_safeLifetime
    (hrun : Run (handlerStep req) (singleManager req · · = true) (initialProxy n) s) :
    Run (handlerStep req) (safeLifetime req · · = true) (initialProxy n) s :=
  hrun.mono fun _ _ hok => (Bool.and_eq_true_iff.mp hok).1

/-- `Single` holds after every run that meets the condition. -/
theorem single_of_run
    (hrun : Run (handlerStep req) (singleManager req · · = true) (initialProxy n) s) :
    Single req s :=
  hrun.invariant_with (fun _ h => owned_of_run (run_safeLifetime h)) (single_initial req)
    fun _ _ _ ho _ hs hok hst => single_step ho hs hok hst

/-- In a run in which a path has one manager at a time, at most one of the handlers of a path is
between its successful `cas` and the end of its session. -/
theorem one_session_of_path
    (hrun : Run (handlerStep req) (singleManager req · · = true) (initialProxy n) s)
    (path : CharArray 512) : (sessionsOf req s path).card ≤ 1 := by
  rw [Finset.card_le_one]
  intro h hh h' hh'
  obtain ⟨hpath, hses⟩ := (Finset.mem_filter.mp hh).2
  obtain ⟨hpath', hses'⟩ := (Finset.mem_filter.mp hh').2
  obtain ⟨m, hm⟩ := Option.isSome_iff_exists.mp hses
  obtain ⟨m', hm'⟩ := Option.isSome_iff_exists.mp hses'
  have hsingle := single_of_run hrun
  have hsame : m = m' :=
    hsingle.entry path m' m (hpath' ▸ hsingle.served h' m' hm') (hpath ▸ hsingle.served h m hm)
  exact (owned_of_run (run_safeLifetime hrun)).unique h' h m' hm' (hsame ▸ hm)

/-- The first client is in its session, the second one has subscribed to the same manager and has
lost the `cas`. -/
theorem one_session_of_shared_path :
    ∃ s, Run (handlerStep sameRequests) (singleManager sameRequests · · = true)
        (initialProxy 2) s ∧
      s.pc 0 = .serve 0 ∧ s.pc 1 = .ended ∧ (sessionsOf sameRequests s samplePath).card ≤ 1 := by
  have hrun := Run.get_execWhere (handlerStep sameRequests) (singleManager sameRequests · · = true)
    (initialProxy 2) (steps 0 4 ++ steps 1 2 ++ steps 0 3 ++ steps 1 2) (by decide +kernel)
  exact ⟨_, hrun, by decide +kernel, by decide +kernel, one_session_of_path hrun samplePath⟩

/-- Both clients find no manager, each inserts its own, and both are in a session of the path. -/
theorem two_sessions_of_path :
    ∃ s, Reachable (handlerStep sameRequests) (initialProxy 2) s ∧
      s.pc 0 = .serve 1 ∧ s.pc 1 = .serve 0 ∧ (sessionsOf sameRequests s samplePath).card = 2 := by
  have hrun := Run.get_execWhere (handlerStep sameRequests) anyStep (initialProxy 2)
    (steps 0 2 ++ steps 1 7 ++ steps 0 5) (by decide +kernel)
  exact ⟨_, hrun, by decide +kernel, by decide +kernel, by decide +kernel⟩

end OsLabs.Proxy
