import OsLabs.Proxy.Lifetime

/-!
# Whose answer a client is served

The map finds the manager of a request by its path alone, while the upstream request is formed from
the method, the path and the body.  A handler can therefore subscribe its client to the session of
a different request, and `served_own_request_iff` says exactly for which clients this cannot
happen.
-/

namespace OsLabs.Proxy

open Transition

variable {n : ℕ} {req : Fin n → HttpRequest} {s t : ProxyState n} {e : HandlerEvent n}

/-- The requests have everything in common that `send_http_request` sends upstream. -/
def sameUpstream (r r₀ : HttpRequest) : Prop :=
  r.method = r₀.method ∧ r.path = r₀.path ∧ r.body = r₀.body

/-! ## What holds for all clients -/

/-- Only handlers with a valid request get past the check. -/
structure Checked (req : Fin n → HttpRequest) (s : ProxyState n) : Prop where
  /-- A handler on its way has a valid request. -/
  underway : ∀ h, s.pc h ≠ .start → s.pc h ≠ .ended → validateRequest (req h) = true
  /-- A subscribed handler has a valid request. -/
  subscribed : ∀ m h, h ∈ (s.manager m).everSubscribed → validateRequest (req h) = true
  /-- A handler that performed a session has a valid request. -/
  session : ∀ m h, h ∈ (s.manager m).sessions → validateRequest (req h) = true

/-- `Checked` holds before any handler has started. -/
lemma checked_initial (req : Fin n → HttpRequest) : Checked req (initialProxy n) := by
  constructor <;> simp [initialProxy, newManager]

/-- A handler leaves its start for the lookup with a valid request only. -/
lemma validate_of_lookup (hst : handlerStep req s e = some t) (hpc : s.pc e.handler = .start)
    (hnext : t.pc e.handler ≠ .ended) : validateRequest (req e.handler) = true := by
  simp only [handlerStep, hpc] at hst
  split_ifs at hst with hok <;> cases hst
  · exact (Bool.and_eq_true_iff.mp hok).2
  · simp at hnext

/-- `Checked` is preserved by every step. -/
lemma checked_step (hc : Checked req s) (hst : handlerStep req s e = some t) : Checked req t := by
  have hmove := move_of_handlerStep hst
  refine ⟨fun h hstart hended => ?_, fun m h hmem => ?_, fun m h hmem => ?_⟩
  · by_cases hh : h = e.handler
    · subst hh
      by_cases hpc : s.pc e.handler = .start
      · exact validate_of_lookup hst hpc hended
      · exact hc.underway _ hpc hmove.ne_ended
    · rw [hmove.pc_of_ne hh] at hstart hended
      exact hc.underway h hstart hended
  · rcases (hmove.mem_everSubscribed hmem).2 with hold | ⟨rfl, hpc⟩
    · exact hc.subscribed m h hold
    · exact hc.underway _ (by simp [hpc]) (by simp [hpc])
  · rcases (hmove.mem_sessions hmem).2 with hold | ⟨rfl, hpc⟩
    · exact hc.session m h hold
    · exact hc.underway _ (by simp [hpc]) (by simp [hpc])

/-- `Checked` holds in every reachable state. -/
theorem checked_of_reachable (hrun : Reachable (handlerStep req) (initialProxy n) s) :
    Checked req s :=
  hrun.invariant (checked_initial req) fun _ _ _ hc _ hst => checked_step hc hst

/-- A handler subscribes to sessions of valid requests for its own path only. -/
theorem same_path_of_subscribed (hrun : Reachable (handlerStep req) (initialProxy n) s) {m : ℕ}
    {h h₀ : Fin n} (hsub : h ∈ (s.manager m).everSubscribed) (hses : h₀ ∈ (s.manager m).sessions) :
    (req h).path = (req h₀).path :=
  ((keyed_of_run hrun).subscribed m h hsub).symm.trans ((keyed_of_run hrun).session m h₀ hses)

/-! ## A handler that opens a session, and one that comes after it -/

/-- A handler with a valid request for a path without an entry opens a session of its own. -/
lemma opens_session {h : Fin n} (hpc : s.pc h = .start) (hvalid : validateRequest (req h) = true)
    (hempty : s.entries (req h).path = []) :
    ∃ t, Reachable (handlerStep req) s t ∧ t.entries (req h).path = [s.managers] ∧
      h ∈ (t.manager s.managers).sessions ∧ (t.manager s.managers).lockStuck = false ∧
      ∀ h', h' ≠ h → t.pc h' = s.pc h' := by
  have hget : s.map.get (req h).path.toCString = none := by
    rw [Hashmap.get_eq_head?]
    exact List.head?_eq_none_iff.mpr hempty
  let m := s.managers
  let checked := s.goto h .lookup
  let missed := checked.goto h .create
  let created := (createSubscriptionManager missed (req h).path).goto h (.insert m)
  let inserted := (created.insert (req h).path m).goto h (.subscribe m)
  let subscribed :=
    (inserted.setManager m ((inserted.manager m).subscribe h true)).goto h (.cas m)
  let opened :=
    (subscribed.setManager m ((subscribed.manager m).claim h)).goto h (.createSession m)
  have hcheck : handlerStep req s ⟨h, true⟩ = some checked := by
    simp [handlerStep, hpc, hvalid, checked]
  have hmiss : handlerStep req checked ⟨h, true⟩ = some missed := by
    have hget' : checked.map.get (req h).path.toCString = none := hget
    simp [handlerStep, checked, missed, hget']
  have hcreate : handlerStep req missed ⟨h, true⟩ = some created := by
    simp [handlerStep, missed, created, m, checked]
  have hinsert : handlerStep req created ⟨h, true⟩ = some inserted := by
    simp [handlerStep, created, inserted]
  have hsub : handlerStep req inserted ⟨h, true⟩ = some subscribed := by
    simp [handlerStep, inserted, subscribed, created, missed, checked, m, newManager]
  have hcas : handlerStep req subscribed ⟨h, true⟩ = some opened := by
    simp [handlerStep, subscribed, opened, inserted, created, missed, checked, m, newManager,
      Manager.subscribe, Manager.casSucceeds]
  refine ⟨opened, ?_, ?_, ?_, ?_, ?_⟩
  · exact .tail (.tail (.tail (.tail (.tail (.tail .refl trivial hcheck) trivial hmiss) trivial
      hcreate) trivial hinsert) trivial hsub) trivial hcas
  · simp [opened, subscribed, inserted, created, missed, checked, hempty, m]
  · simp [opened, subscribed, inserted, created, missed, checked, m, Manager.claim]
  · simp [opened, subscribed, inserted, created, missed, checked, m, Manager.claim, newManager,
      Manager.subscribe]
  · intro h' hne
    simp [opened, subscribed, inserted, created, missed, checked, hne]

/-- A handler with a valid request for a path with an entry subscribes to that manager. -/
lemma joins_session {h : Fin n} {m : ℕ} (hpc : s.pc h = .start)
    (hvalid : validateRequest (req h) = true) (hentry : s.entries (req h).path = [m])
    (hfree : (s.manager m).lockStuck = false) :
    ∃ t, Reachable (handlerStep req) s t ∧ h ∈ (t.manager m).everSubscribed ∧
      (t.manager m).sessions = (s.manager m).sessions := by
  have hget : s.map.get (req h).path.toCString = some m := by
    rw [Hashmap.get_eq_head?]
    exact congrArg List.head? hentry
  let checked := s.goto h .lookup
  let found := checked.goto h (.subscribe m)
  let subscribed := (found.setManager m ((found.manager m).subscribe h true)).goto h (.cas m)
  have hcheck : handlerStep req s ⟨h, true⟩ = some checked := by
    simp [handlerStep, hpc, hvalid, checked]
  have hfind : handlerStep req checked ⟨h, true⟩ = some found := by
    have hget' : checked.map.get (req h).path.toCString = some m := hget
    simp [handlerStep, checked, found, hget']
  have hsub : handlerStep req found ⟨h, true⟩ = some subscribed := by
    simp [handlerStep, subscribed, found, checked, hfree]
  refine ⟨subscribed, ?_, ?_, ?_⟩
  · exact .tail (.tail (.tail .refl trivial hcheck) trivial hfind) trivial hsub
  · simp [subscribed, found, checked, Manager.subscribe]
  · simp [subscribed, found, checked, Manager.subscribe]

/-! ## The main result -/

/-- The handlers are served the answers to their own requests, in every order of their steps,
exactly when the valid requests for one path also have the method and the body in common. -/
theorem served_own_request_iff (req : Fin n → HttpRequest) :
    (∀ s, Reachable (handlerStep req) (initialProxy n) s → ∀ m h h₀,
      h ∈ (s.manager m).everSubscribed → h₀ ∈ (s.manager m).sessions →
        sameUpstream (req h) (req h₀)) ↔
    ∀ h h₀, validateRequest (req h) = true → validateRequest (req h₀) = true →
      (req h).path = (req h₀).path →
        (req h).method = (req h₀).method ∧ (req h).body = (req h₀).body := by
  constructor
  · intro hserved h h₀ hvalid hvalid₀ hpath
    rcases eq_or_ne h h₀ with rfl | hne
    · exact ⟨rfl, rfl⟩
    · obtain ⟨s, hrun, hentry, hses, hfree, hpc⟩ :=
        opens_session (s := initialProxy n) (h := h₀) rfl hvalid₀ rfl
      obtain ⟨t, hrun', hsub, heq⟩ :=
        joins_session (hpc h hne) hvalid (hpath ▸ hentry) hfree
      obtain ⟨hmethod, -, hbody⟩ := hserved t (hrun.trans hrun') 0 h h₀ hsub (heq ▸ hses)
      exact ⟨hmethod, hbody⟩
  · intro hagree s hrun m h h₀ hsub hses
    have hpath := same_path_of_subscribed hrun hsub hses
    have hchecked := checked_of_reachable hrun
    obtain ⟨hmethod, hbody⟩ :=
      hagree h h₀ (hchecked.subscribed m h hsub) (hchecked.session m h₀ hses) hpath
    exact ⟨hmethod, hpath, hbody⟩

/-- A client that fetches a page and one that posts to it. -/
def getAndPost (h : Fin 2) : HttpRequest :=
  plainRequest (if h = 0 then methodGet else methodPost) samplePath

/-- The second client is subscribed to the session of the first one's request, which has another
method. -/
theorem served_other_request :
    ∃ s, Reachable (handlerStep getAndPost) (initialProxy 2) s ∧
      1 ∈ (s.manager 0).everSubscribed ∧ 0 ∈ (s.manager 0).sessions ∧
      ¬ sameUpstream (getAndPost 1) (getAndPost 0) := by
  have hrun := Run.get_execWhere (handlerStep getAndPost) anyStep (initialProxy 2)
    (steps 0 6 ++ steps 1 3) (by decide +kernel)
  exact ⟨_, hrun, by decide +kernel, by decide +kernel, fun hsame => absurd hsame.1 (by decide)⟩

end OsLabs.Proxy
