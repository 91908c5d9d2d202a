import OsLabs.Foundation.Transition
import OsLabs.Proxy.Handler
import Mathlib.Data.Fintype.Basic

/-!
# What one step of a handler does

`Move` lists what one step of a handler does, with its guard and its effect, and
`move_of_handlerStep` says that the list is complete: the invariants of the handlers are proved by
cases on it, with the frame rules of this file.  The first of them is `Keyed`, which holds in every
reachable state: a manager is only ever stored under, and used for, the path it was created for.
-/

namespace OsLabs.Proxy

open Transition

variable {n : ℕ} {req : Fin n → HttpRequest} {s t : ProxyState n} {e : HandlerEvent n}

/-! ## Positions of a handler -/

/-- The manager in the handler's local variable. -/
def Pc.manager : Pc → Option ℕ
  | .insert m | .subscribe m | .cas m | .createSession m | .serve m | .finish m | .destroy m
  | .delete m | .hung m => some m
  | .start | .lookup | .create | .ended => none

/-- The manager that the handler got or inserted and is still to call `subscribe` or `cas` on. -/
def Pc.uses : Pc → Option ℕ
  | .subscribe m | .cas m => some m
  | _ => none

/-- The manager whose session the handler performs, from its successful `cas` to its `delete`. -/
def Pc.session : Pc → Option ℕ
  | .createSession m | .serve m | .finish m | .destroy m | .delete m | .hung m => some m
  | _ => none

/-- A handler that is still to use a manager holds it. -/
lemma Pc.manager_of_uses {pc : Pc} {m : ℕ} (h : pc.uses = some m) : pc.manager = some m := by
  cases pc <;> simp_all [Pc.uses, Pc.manager]

/-- A handler holds the manager of its session. -/
lemma Pc.manager_of_session {pc : Pc} {m : ℕ} (h : pc.session = some m) :
    pc.manager = some m := by
  cases pc <;> simp_all [Pc.session, Pc.manager]

/-- The handler has destroyed its manager and not yet deleted the entry. -/
def Pc.deleting : Pc → Bool
  | .delete _ => true
  | _ => false

/-- What the positions of a handler can become without any effect on the shared state. -/
inductive Pc.Local : Pc → Pc → Prop
  | accept : Local .start .lookup
  | refuse : Local .start .ended
  | missing : Local .lookup .create
  | noManager : Local .create .ended
  | busy (m : ℕ) : Local (.cas m) .ended
  | session (m : ℕ) : Local (.createSession m) (.serve m)
  | noSession (m : ℕ) : Local (.createSession m) (.destroy m)
  | served (m : ℕ) : Local (.serve m) (.finish m)

/-! ## What one step does -/

/-- The steps of handler `h`, whose fallible call answers `outcome`, each with its guard and its
effect. -/
inductive Move (req : Fin n → HttpRequest) (s : ProxyState n) (h : Fin n) (outcome : Bool) :
    ProxyState n → Prop
  | internal {pc : Pc} (hpc : Pc.Local (s.pc h) pc) : Move req s h outcome (s.goto h pc)
  | found {m : ℕ} (hpc : s.pc h = .lookup) (hget : m ∈ s.entries (req h).path) :
      Move req s h outcome (s.goto h (.subscribe m))
  | notInserted {m : ℕ} (hpc : s.pc h = .insert m) (hout : outcome = false) :
      Move req s h outcome (s.goto h (.subscribe m))
  | create (hpc : s.pc h = .create) :
      Move req s h outcome
        ((createSubscriptionManager s (req h).path).goto h (.insert s.managers))
  | insert {m : ℕ} (hpc : s.pc h = .insert m) :
      Move req s h outcome ((s.insert (req h).path m).goto h (.subscribe m))
  | subscribe {m : ℕ} (allocated : Bool) (hpc : s.pc h = .subscribe m) :
      Move req s h outcome ((s.setManager m ((s.manager m).subscribe h allocated)).goto h (.cas m))
  | claim {m : ℕ} (hpc : s.pc h = .cas m)
      (hfree : (s.manager m).destroyed = false → (s.manager m).isBusy = false) :
      Move req s h outcome ((s.setManager m ((s.manager m).claim h)).goto h (.createSession m))
  | finish {m : ℕ} (hpc : s.pc h = .finish m) :
      Move req s h outcome ((s.setManager m { s.manager m with linked := [] }).goto h (.destroy m))
  | destroy {m : ℕ} (hpc : s.pc h = .destroy m) :
      Move req s h outcome
        ((s.setManager m { s.manager m with destroyed := true }).goto h (.delete m))
  | hang {m : ℕ} (hpc : s.pc h = .destroy m) :
      Move req s h outcome
        ((s.setManager m { s.manager m with lockStuck := true }).goto h (.hung m))
  | delete {m : ℕ} (hpc : s.pc h = .delete m) :
      Move req s h outcome ((s.delete (req h).path).goto h .ended)

/-- Every step is one of the moves. -/
theorem move_of_handlerStep (h : handlerStep req s e = some t) :
    Move req s e.handler e.outcome t := by
  obtain ⟨h₀, outcome⟩ := e
  cases hpc : s.pc h₀ with
  | start =>
    simp only [handlerStep, hpc] at h
    split_ifs at h <;> cases h
    · exact .internal (hpc ▸ .accept)
    · exact .internal (hpc ▸ .refuse)
  | lookup =>
    simp only [handlerStep, hpc, Hashmap.get_eq_head?] at h
    cases hget : (s.map.stack (req h₀).path.toCString).head? with
    | none => rw [hget] at h; cases h; exact .internal (hpc ▸ .missing)
    | some m => rw [hget] at h; cases h; exact .found hpc (List.mem_of_head? hget)
  | create =>
    simp only [handlerStep, hpc] at h
    split_ifs at h <;> cases h
    · exact .create hpc
    · exact .internal (hpc ▸ .noManager)
  | insert m =>
    simp only [handlerStep, hpc] at h
    split_ifs at h with hout <;> cases h
    · exact .insert hpc
    · exact .notInserted hpc (by simpa using hout)
  | subscribe m =>
    simp only [handlerStep, hpc] at h
    split_ifs at h
    cases h
    exact .subscribe _ hpc
  | cas m =>
    simp only [handlerStep, hpc] at h
    split_ifs at h with hwin <;> cases h
    · refine .claim hpc fun hd => ?_
      simpa [Manager.casSucceeds, hd] using hwin
    · exact .internal (hpc ▸ .busy m)
  | createSession m =>
    simp only [handlerStep, hpc, Option.some.injEq] at h
    subst h
    cases outcome
    · exact .internal (hpc ▸ .noSession m)
    · exact .internal (hpc ▸ .session m)
  | serve m =>
    simp only [handlerStep, hpc] at h
    split_ifs at h
    cases h
    exact .internal (hpc ▸ .served m)
  | finish m =>
    simp only [handlerStep, hpc] at h
    split_ifs at h
    cases h
    exact .finish hpc
  | destroy m =>
    simp only [handlerStep, hpc] at h
    split_ifs at h <;> cases h
    · exact .destroy hpc
    · exact .hang hpc
  | delete m =>
    simp only [handlerStep, hpc, Option.some.injEq] at h
    subst h
    exact .delete hpc
  | ended => simp [handlerStep, hpc] at h
  | hung m => simp [handlerStep, hpc] at h

/-! ## Frame rules -/

section Frame

variable (h h' : Fin n) (pc : Pc) (m m' : ℕ) (mgr : Manager n) (path path' : CharArray 512)

/-- A handler that goes on changes its own place. -/
@[simp] lemma goto_pc : (s.goto h pc).pc h' = if h' = h then pc else s.pc h' :=
  Function.update_apply ..

/-- It changes no manager. -/
@[simp] lemma goto_manager : (s.goto h pc).manager m = s.manager m := rfl

/-- It creates none. -/
@[simp] lemma goto_managers : (s.goto h pc).managers = s.managers := rfl

/-- It changes no entry. -/
@[simp] lemma goto_entries : (s.goto h pc).entries path = s.entries path := rfl

/-- A change of a manager moves no handler. -/
@[simp] lemma setManager_pc : (s.setManager m mgr).pc h = s.pc h := rfl

/-- Only this manager changes. -/
@[simp] lemma setManager_manager :
    (s.setManager m mgr).manager m' = if m' = m then mgr else s.manager m' :=
  Function.update_apply ..

/-- No manager is created. -/
@[simp] lemma setManager_managers : (s.setManager m mgr).managers = s.managers := rfl

/-- No entry changes. -/
@[simp] lemma setManager_entries :
    (s.setManager m mgr).entries path = s.entries path := rfl

/-- The creation of a manager moves no handler. -/
@[simp] lemma create_pc : (createSubscriptionManager s path).pc h = s.pc h := rfl

/-- The new manager has the next number. -/
@[simp] lemma create_manager :
    (createSubscriptionManager s path).manager m =
      if m = s.managers then newManager path else s.manager m :=
  Function.update_apply ..

/-- There is one manager more. -/
@[simp] lemma create_managers :
    (createSubscriptionManager s path).managers = s.managers + 1 := rfl

/-- The new manager is not stored. -/
@[simp] lemma create_entries :
    (createSubscriptionManager s path).entries path' = s.entries path' := rfl

/-- An insertion moves no handler. -/
@[simp] lemma insert_pc : (s.insert path m).pc h = s.pc h := rfl

/-- It changes no manager. -/
@[simp] lemma insert_manager : (s.insert path m).manager m' = s.manager m' := rfl

/-- It creates none. -/
@[simp] lemma insert_managers : (s.insert path m).managers = s.managers := rfl

/-- A deletion moves no handler. -/
@[simp] lemma delete_pc : (s.delete path).pc h = s.pc h := rfl

/-- It changes no manager. -/
@[simp] lemma delete_manager : (s.delete path).manager m = s.manager m := rfl

/-- It creates none. -/
@[simp] lemma delete_managers : (s.delete path).managers = s.managers := rfl

/-- An insertion adds an entry under its own path only. -/
@[simp] lemma insert_entries :
    (s.insert path m).entries path' =
      if path = path' then m :: s.entries path' else s.entries path' := by
  rw [ProxyState.entries, ProxyState.entries, ProxyState.insert, Hashmap.stack_insert]
  exact if_congr CharArray.agree_iff_eq rfl rfl

/-- A deletion removes the newest entry of its own path only. -/
@[simp] lemma delete_entries :
    (s.delete path).entries path' =
      if path = path' then (s.entries path').tail else s.entries path' := by
  rw [ProxyState.entries, ProxyState.entries, ProxyState.delete, Hashmap.stack_delete]
  exact if_congr CharArray.agree_iff_eq rfl rfl

/-- A deletion adds no entry. -/
lemma mem_of_mem_delete (h : m ∈ (s.delete path).entries path') : m ∈ s.entries path' := by
  rw [delete_entries] at h
  split_ifs at h
  · exact List.mem_of_mem_tail h
  · exact h

end Frame

/-! ## The handler that moves -/

/-- A handler that moves internally knows no other manager than before. -/
lemma Pc.Local.manager {pc pc' : Pc} {m : ℕ} (h : Pc.Local pc pc') (hm : pc'.manager = some m) :
    pc.manager = some m := by
  cases h <;> simp_all [Pc.manager]

/-- It is not to use one. -/
lemma Pc.Local.uses {pc pc' : Pc} {m : ℕ} (h : Pc.Local pc pc') : pc'.uses ≠ some m := by
  cases h <;> simp [Pc.uses]

/-- It enters no session. -/
lemma Pc.Local.session_eq {pc pc' : Pc} {m : ℕ} (h : Pc.Local pc pc') (hm : pc'.session = some m) :
    pc.session = some m := by
  cases h <;> simp_all [Pc.session]

/-- Internal moves lead neither to nor from an insertion or a deletion. -/
lemma Pc.Local.ne {pc pc' : Pc} (h : Pc.Local pc pc') (m : ℕ) :
    pc' ≠ .insert m ∧ pc ≠ .insert m ∧ pc' ≠ .delete m ∧ pc ≠ .delete m := by
  cases h <;> simp

/-- It has not ended before. -/
lemma Pc.Local.ne_ended {pc pc' : Pc} (h : Pc.Local pc pc') : pc ≠ .ended := by
  cases h <;> simp

section Moves

variable {h h' : Fin n} {outcome : Bool} {m : ℕ} {p : CharArray 512}

/-- A move changes the position of its own handler only. -/
lemma Move.pc_of_ne (hmove : Move req s h outcome t) (hne : h' ≠ h) : t.pc h' = s.pc h' := by
  cases hmove <;> simp [hne]

/-- The manager that a handler holds after its move was its own before, was found in the map, or
is a new one. -/
lemma Move.manager (hmove : Move req s h outcome t) (hm : (t.pc h).manager = some m) :
    (s.pc h).manager = some m ∨ m ∈ s.entries (req h).path ∨
      (m = s.managers ∧ t.pc h = .insert m) := by
  cases hmove with
  | internal hpc => exact Or.inl (hpc.manager (by simpa using hm))
  | _ => simp_all [Pc.manager]

/-- A handler that is to use a manager after its move was to use it before, found it, or has just
called `insert` for it. -/
lemma Move.uses (hmove : Move req s h outcome t) (hm : (t.pc h).uses = some m) :
    (s.pc h).uses = some m ∨ (s.pc h = .lookup ∧ m ∈ s.entries (req h).path) ∨
      s.pc h = .insert m := by
  cases hmove with
  | internal hpc => exact absurd (by simpa using hm) hpc.uses
  | _ => simp_all [Pc.uses]

/-- A handler that is in a session after its move was so before, or has just claimed the manager. -/
lemma Move.session (hmove : Move req s h outcome t) (hm : (t.pc h).session = some m) :
    (s.pc h).session = some m ∨ (s.pc h = .cas m ∧ t.pc h = .createSession m ∧
      ((s.manager m).destroyed = false → (s.manager m).isBusy = false) ∧
      (t.manager m).isBusy = true) := by
  cases hmove with
  | internal hpc => exact Or.inl (hpc.session_eq (by simpa using hm))
  | claim hpc hfree => simp_all [Pc.session, Manager.claim]
  | _ => simp_all [Pc.session]

/-- Only `create_subscription_manager` leads to an insertion, of the new manager. -/
lemma Move.eq_create (hmove : Move req s h outcome t) (hpc : t.pc h = .insert m) :
    m = s.managers ∧ t = (createSubscriptionManager s (req h).path).goto h (.insert m) := by
  cases hmove with
  | internal hlocal => exact absurd (by simpa using hpc) (hlocal.ne m).1
  | _ => simp_all

/-- What a handler does that is about to call `insert`, when the call succeeds. -/
lemma Move.inserted (hmove : Move req s h true t) (hpc : s.pc h = .insert m) :
    m ∈ t.entries (req h).path := by
  cases hmove with
  | internal hlocal => exact absurd hpc (hlocal.ne m).2.1
  | notInserted _ hout => cases hout
  | _ => simp_all

/-- Only `destroy_subscription_manager` leads to a deletion. -/
lemma Move.eq_destroy (hmove : Move req s h outcome t) (hpc : t.pc h = .delete m) :
    s.pc h = .destroy m ∧ (t.manager m).destroyed = true := by
  cases hmove with
  | internal hlocal => exact absurd (by simpa using hpc) (hlocal.ne m).2.2.1
  | _ => simp_all

/-- What a handler does that is about to call `delete`. -/
lemma Move.eq_delete (hmove : Move req s h outcome t) (hpc : s.pc h = .delete m) :
    t = (s.delete (req h).path).goto h .ended := by
  cases hmove with
  | internal hlocal => exact absurd hpc (hlocal.ne m).2.2.2
  | _ => simp_all

/-- Only `insert` adds an entry. -/
lemma Move.mem_entries (hmove : Move req s h outcome t) (hm : m ∈ t.entries p) :
    m ∈ s.entries p ∨ (s.pc h = .insert m ∧ (req h).path = p) := by
  cases hmove with
  | insert hpc =>
    simp only [goto_entries, insert_entries] at hm
    split_ifs at hm with hp
    · rcases List.mem_cons.mp hm with rfl | hm
      · exact Or.inr ⟨hpc, hp⟩
      · exact Or.inl hm
    · exact Or.inl hm
  | delete hpc => exact Or.inl (mem_of_mem_delete _ _ _ hm)
  | _ => exact Or.inl (by simpa using hm)

/-- A subscription does not destroy the manager. -/
@[simp] lemma Manager.destroyed_subscribe (mgr : Manager n) (allocated : Bool) :
    (mgr.subscribe h allocated).destroyed = mgr.destroyed := by
  cases allocated <;> rfl

/-- The manager keeps its path. -/
@[simp] lemma Manager.key_subscribe (mgr : Manager n) (allocated : Bool) :
    (mgr.subscribe h allocated).key = mgr.key := by
  cases allocated <;> rfl

/-- The manager keeps its sessions. -/
@[simp] lemma Manager.sessions_subscribe (mgr : Manager n) (allocated : Bool) :
    (mgr.subscribe h allocated).sessions = mgr.sessions := by
  cases allocated <;> rfl

/-- The manager stays free or busy. -/
@[simp] lemma Manager.isBusy_subscribe (mgr : Manager n) (allocated : Bool) :
    (mgr.subscribe h allocated).isBusy = mgr.isBusy := by
  cases allocated <;> rfl

/-- What a step that overwrites one manager does to an observation of the managers that the new
record has in common with the old one. -/
lemma setManager_congr {α : Type*} (f : Manager n → α) {k : ℕ} {mgr : Manager n}
    (heq : f mgr = f (s.manager k)) : f ((s.setManager k mgr).manager m) = f (s.manager m) := by
  rw [setManager_manager]
  split_ifs with hk
  · rw [hk, heq]
  · rfl

/-- Only `delete` removes an entry, of its own path. -/
lemma Move.keeps_entries (hmove : Move req s h outcome t) (hm : m ∈ s.entries p) :
    m ∈ t.entries p ∨ ∃ k, s.pc h = .delete k ∧ (req h).path = p := by
  cases hmove with
  | insert hpc =>
    rw [goto_entries, insert_entries]
    split_ifs
    · exact Or.inl (List.mem_cons_of_mem _ hm)
    · exact Or.inl hm
  | @delete k hpc =>
    rw [goto_entries, delete_entries]
    split_ifs with hp
    · exact Or.inr ⟨k, hpc, hp⟩
    · exact Or.inl hm
  | _ => exact Or.inl (by simpa using hm)

/-- A handler that moves has not returned. -/
lemma Move.ne_ended (hmove : Move req s h outcome t) : s.pc h ≠ .ended := by
  cases hmove with
  | internal hlocal => exact hlocal.ne_ended
  | _ => simp_all

/-- Only `destroy_subscription_manager` destroys an existing manager. -/
lemma Move.destroyed (hmove : Move req s h outcome t) (hm : m < s.managers) :
    (t.manager m).destroyed = (s.manager m).destroyed ∨
      (s.pc h = .destroy m ∧ t.pc h = .delete m) := by
  cases hmove with
  | create hpc => simp [Nat.ne_of_lt hm]
  | @destroy k hpc =>
    by_cases hk : m = k
    · subst hk
      exact Or.inr ⟨hpc, by simp⟩
    · simp [hk]
  | subscribe | claim | finish | hang =>
    exact Or.inl (setManager_congr Manager.destroyed (by simp [Manager.claim]))
  | _ => simp

/-- An existing manager stays busy. -/
lemma Move.isBusy (hmove : Move req s h outcome t) (hm : m < s.managers)
    (hbusy : (s.manager m).isBusy = true) : (t.manager m).isBusy = true := by
  cases hmove with
  | create hpc => simpa [Nat.ne_of_lt hm] using hbusy
  | @claim k hpc =>
    by_cases hk : m = k <;> simp [hk, Manager.claim]
    simpa [hk] using hbusy
  | subscribe | finish | destroy | hang =>
    exact (setManager_congr Manager.isBusy (by simp)).trans hbusy
  | _ => simpa using hbusy

/-- An existing manager keeps its path. -/
lemma Move.key (hmove : Move req s h outcome t) (hm : m < s.managers) :
    (t.manager m).key = (s.manager m).key := by
  cases hmove with
  | create hpc => simp [Nat.ne_of_lt hm]
  | subscribe | claim | finish | destroy | hang =>
    exact setManager_congr Manager.key (by simp [Manager.claim])
  | _ => simp

/-- Managers are never allocated twice. -/
lemma Move.managers_le (hmove : Move req s h outcome t) : s.managers ≤ t.managers := by
  cases hmove <;> simp

/-- Only `subscribe` adds a subscriber. -/
lemma Move.mem_everSubscribed (hmove : Move req s h outcome t)
    (hmem : h' ∈ (t.manager m).everSubscribed) :
    (t.manager m).key = (s.manager m).key ∧
      (h' ∈ (s.manager m).everSubscribed ∨ (h' = h ∧ s.pc h = .subscribe m)) := by
  cases hmove with
  | create hpc =>
    by_cases hk : m = s.managers
    · simp [hk, newManager] at hmem
    · exact ⟨by simp [hk], Or.inl (by simpa [hk] using hmem)⟩
  | @subscribe k allocated hpc =>
    refine ⟨setManager_congr Manager.key (by simp), ?_⟩
    rw [goto_manager, setManager_manager] at hmem
    split_ifs at hmem with hk
    · subst hk
      rw [Manager.subscribe] at hmem
      split_ifs at hmem
      · exact (List.mem_cons.mp hmem).symm.imp_right fun heq => ⟨heq, hpc⟩
      · exact Or.inl hmem
    · exact Or.inl hmem
  | claim | finish | destroy | hang =>
    refine ⟨setManager_congr Manager.key (by simp [Manager.claim]), Or.inl ?_⟩
    rw [goto_manager, setManager_congr Manager.everSubscribed] at hmem
    · exact hmem
    · rfl
  | _ => exact ⟨rfl, Or.inl hmem⟩

/-- Only a successful `cas` adds a session. -/
lemma Move.mem_sessions (hmove : Move req s h outcome t) (hmem : h' ∈ (t.manager m).sessions) :
    (t.manager m).key = (s.manager m).key ∧
      (h' ∈ (s.manager m).sessions ∨ (h' = h ∧ s.pc h = .cas m)) := by
  cases hmove with
  | create hpc =>
    by_cases hk : m = s.managers
    · simp [hk, newManager] at hmem
    · exact ⟨by simp [hk], Or.inl (by simpa [hk] using hmem)⟩
  | @claim k hpc =>
    refine ⟨setManager_congr Manager.key (by simp [Manager.claim]), ?_⟩
    rw [goto_manager, setManager_manager] at hmem
    split_ifs at hmem with hk
    · subst hk
      exact (List.mem_cons.mp hmem).symm.imp_right fun heq => ⟨heq, hpc⟩
    · exact Or.inl hmem
  | subscribe | finish | destroy | hang =>
    refine ⟨setManager_congr Manager.key (by simp), Or.inl ?_⟩
    rw [goto_manager, setManager_congr Manager.sessions] at hmem
    · exact hmem
    · simp
  | _ => exact ⟨rfl, Or.inl hmem⟩

end Moves

/-! ## Managers stay with their path -/

/-- A manager is stored under, held by and used for the path it was created for. -/
structure Keyed (req : Fin n → HttpRequest) (s : ProxyState n) : Prop where
  /-- A handler holds managers of its own path. -/
  held : ∀ h m, (s.pc h).manager = some m → m < s.managers ∧ (s.manager m).key = (req h).path
  /-- An entry is stored under the path of its manager. -/
  stored : ∀ p m, m ∈ s.entries p → m < s.managers ∧ (s.manager m).key = p
  /-- A handler subscribes to managers of its own path. -/
  subscribed : ∀ m h, h ∈ (s.manager m).everSubscribed → (s.manager m).key = (req h).path
  /-- A handler performs sessions of managers of its own path. -/
  session : ∀ m h, h ∈ (s.manager m).sessions → (s.manager m).key = (req h).path

/-- `Keyed` holds before any handler has started. -/
lemma keyed_initial (req : Fin n → HttpRequest) : Keyed req (initialProxy n) := by
  constructor <;> simp [initialProxy, Pc.manager, ProxyState.entries, newManager]

/-- A handler knows a manager of its own path after each step. -/
lemma Keyed.held_step {h : Fin n} {m : ℕ} (hk : Keyed req s)
    (hmove : Move req s e.handler e.outcome t) (hm : (t.pc h).manager = some m) :
    m < t.managers ∧ (t.manager m).key = (req h).path := by
  have hkeep : m < s.managers → (s.manager m).key = (req h).path →
      m < t.managers ∧ (t.manager m).key = (req h).path := fun hlt hkey =>
    ⟨hlt.trans_le hmove.managers_le, (hmove.key hlt).trans hkey⟩
  by_cases hh : h = e.handler
  · subst hh
    rcases hmove.manager hm with hold | hget | ⟨-, hpc⟩
    · exact hkeep (hk.held _ _ hold).1 (hk.held _ _ hold).2
    · exact hkeep (hk.stored _ _ hget).1 (hk.stored _ _ hget).2
    · obtain ⟨rfl, rfl⟩ := hmove.eq_create hpc
      simp [newManager]
  · rw [hmove.pc_of_ne hh] at hm
    exact hkeep (hk.held _ _ hm).1 (hk.held _ _ hm).2

/-- A manager is stored under its own path after each step. -/
lemma Keyed.stored_step {p : CharArray 512} {m : ℕ} (hk : Keyed req s)
    (hmove : Move req s e.handler e.outcome t) (hm : m ∈ t.entries p) :
    m < t.managers ∧ (t.manager m).key = p := by
  have hold : m < s.managers ∧ (s.manager m).key = p := by
    rcases hmove.mem_entries hm with hold | ⟨hpc, hp⟩
    · exact hk.stored _ _ hold
    · exact hp ▸ hk.held _ m (by rw [hpc]; rfl)
  exact ⟨hold.1.trans_le hmove.managers_le, (hmove.key hold.1).trans hold.2⟩

/-- `Keyed` is preserved by every step. -/
lemma keyed_step (hk : Keyed req s) (hst : handlerStep req s e = some t) : Keyed req t := by
  have hmove := move_of_handlerStep hst
  refine ⟨fun _ _ => hk.held_step hmove, fun _ _ => hk.stored_step hmove, fun m h hmem => ?_,
    fun m h hmem => ?_⟩
  · obtain ⟨hkey, hold | ⟨rfl, hpc⟩⟩ := hmove.mem_everSubscribed hmem
    · exact hkey.trans (hk.subscribed m h hold)
    · exact hkey.trans (hk.held _ m (by rw [hpc]; rfl)).2
  · obtain ⟨hkey, hold | ⟨rfl, hpc⟩⟩ := hmove.mem_sessions hmem
    · exact hkey.trans (hk.session m h hold)
    · exact hkey.trans (hk.held _ m (by rw [hpc]; rfl)).2

/-- `Keyed` holds in every state that the handlers reach, under any condition on the steps. -/
theorem keyed_of_run {ok : ProxyState n → HandlerEvent n → Prop}
    (hrun : Run (handlerStep req) ok (initialProxy n) s) : Keyed req s :=
  hrun.invariant (keyed_initial req) fun _ _ _ hk _ hst => keyed_step hk hst

end OsLabs.Proxy
