import OsLabs.SwapList.Invariant

/-!
# The coupling invariant is kept

`Locked` ties the locks to the positions of the threads, and `Coupled` is the coupling invariant for
an abstract list.  Every step keeps both; the list changes only in the step that writes
`prev->next`.
-/

namespace OsLabs.SwapList

open Transition LinkedList

namespace ListState

variable {N : Type*} {m : ℕ} {kind : LockKind} {routine : Fin m → Routine}
  {first : N} {rest : List N} {s s' s₁ : ListState N m} {L : List N} {t t' : Fin m} {x : N}
  {op : Op N} {pc' : Pc N} {a : Answer N}

/-- The locks are held by the threads whose positions say so; a swapper holds its locks alone. -/
structure Locked (routine : Fin m → Routine) (s : ListState N m) : Prop where
  holders : ∀ t x, t ∈ (s.lock x).holders ↔ x ∈ (s.thread t).pc.held
  nodup : ∀ x, (s.lock x).holders.Nodup
  writer : ∀ t x, routine t = .swap → x ∈ (s.thread t).pc.held → s.lock x = .exclusive t
  role : ∀ t, (s.thread t).pc.swapOnly = true → routine t = .swap

/-- Every thread is at its place in the list `L`, and the pointers that no swap has still to write
are those of `L`. -/
structure Coupled (routine : Fin m → Routine) (first : N) (rest : List N) (s : ListState N m)
    (L : List N) : Prop where
  perm : L.Perm (first :: rest)
  head : L[0]? = some first
  link : ∀ i x, L[i]? = some x → (∀ t, x ∉ (s.thread t).pc.unwritten) → s.next x = L[i + 1]?
  placed : ∀ t, (s.thread t).pc.At s.next L (s.thread t).iterations
  visits : ∀ t type, routine t = .compare type → (s.thread t).Visits L

/-! ## Consequences -/

/-- A node held by a swapper is held by nobody else. -/
lemma Locked.alone (hl : Locked routine s) (hr : routine t = .swap)
    (hx : x ∈ (s.thread t).pc.held) (hx' : x ∈ (s.thread t').pc.held) : t' = t := by
  have hmem := (hl.holders t' x).mpr hx'
  rw [hl.writer t x hr hx] at hmem
  exact List.mem_singleton.mp hmem

/-- A node that a thread holds is to be written by no other thread. -/
lemma Locked.unwritten_self (hl : Locked routine s) (hx : x ∈ (s.thread t).pc.held)
    (hx' : x ∈ (s.thread t').pc.unwritten) : t = t' :=
  hl.alone (hl.role t' (Pc.swapOnly_of_unwritten hx')) (Pc.held_of_unwritten hx') hx

/-- The pointer of a node that its holder has not to write is the one of the list. -/
lemma Coupled.next_eq (hc : Coupled routine first rest s L) (hl : Locked routine s)
    (hx : x ∈ (s.thread t).pc.held) (hun : x ∉ (s.thread t).pc.unwritten) {i : ℕ}
    (hi : L[i]? = some x) : s.next x = L[i + 1]? := by
  refine hc.link i x hi fun t' ht' => ?_
  obtain rfl := hl.unwritten_self hx ht'
  exact hun ht'

/-! ## One step -/

/-- The thread that moves gets to its next position, the others stay. -/
lemma thread_advance (t' : Fin m) :
    (s.advance routine first t pc').thread t' =
      if t' = t then (s.thread t).advance (routine t) first pc' else s.thread t' :=
  Function.update_apply ..

variable [DecidableEq N]

/-- A step of a thread, taken apart. -/
lemma step_run {needsSwap : Bool} (h : s.step kind routine first (.run t needsSwap) = some s') :
    ∃ op pc' s₁, Goes kind first (s.answer needsSwap op) (routine t) (s.thread t).pc op pc' ∧
      s.access t op = some s₁ ∧ s' = s₁.advance routine first t pc' := by
  rw [step] at h
  cases hprog : (routine t).program kind first (s.thread t).pc with
  | none => simp [hprog] at h
  | some p =>
    obtain ⟨op, next⟩ := p
    simp only [hprog, Option.map_eq_some_iff] at h
    obtain ⟨s₁, hs₁, rfl⟩ := h
    exact ⟨op, _, s₁, goes_of_program hprog, hs₁, rfl⟩

/-- An access does not move the threads. -/
lemma thread_access (h : s.access t op = some s₁) : s₁.thread = s.thread := by
  cases op <;> simp only [access, Option.map_eq_some_iff, Option.some.injEq] at h
  case lock => obtain ⟨l, -, rfl⟩ := h; rfl
  all_goals subst h; rfl

/-- Only a write changes pointers. -/
lemma next_access (h : s.access t op = some s₁) (hwrite : ∀ x value, op ≠ .writeNext x value) :
    s₁.next = s.next := by
  cases op <;> simp only [access, Option.map_eq_some_iff, Option.some.injEq] at h
  case lock => obtain ⟨l, -, rfl⟩ := h; rfl
  case writeNext => exact absurd rfl (hwrite _ _)
  all_goals subst h; rfl

/-! ## The locks -/

/-- The positions after a step. -/
lemma pc_step (routine : Fin m → Routine) (first : N) (pc' : Pc N)
    (hs₁ : s.access t op = some s₁) (t' : Fin m) :
    ((s₁.advance routine first t pc').thread t').pc =
      if t' = t then pc' else (s.thread t').pc := by
  rw [thread_advance, thread_access hs₁]
  split_ifs
  · exact Thread.pc_advance _ _
  · rfl

/-- One thread moves, and the lock of one node becomes `l`: it is enough to look at that node. -/
lemma Locked.change {u : ListState N m} {x : N} {l : LockState (Fin m)} (hl : Locked routine s)
    (hlock : u.lock = Function.update s.lock x l)
    (hpc : ∀ t', (u.thread t').pc = if t' = t then pc' else (s.thread t').pc)
    (hrole : ∀ t', (u.thread t').pc.swapOnly = true → routine t' = .swap)
    (hother : ∀ y, y ≠ x → (y ∈ pc'.held ↔ y ∈ (s.thread t).pc.held))
    (hholders : ∀ t', t' ∈ l.holders ↔ x ∈ (u.thread t').pc.held) (hnodup : l.holders.Nodup)
    (hwriter : ∀ t', routine t' = .swap → x ∈ (u.thread t').pc.held → l = .exclusive t') :
    Locked routine u := by
  have hself : u.lock x = l := by rw [hlock, Function.update_self]
  have hsame : ∀ y, y ≠ x → u.lock y = s.lock y := by
    intro y hy
    rw [hlock, Function.update_of_ne hy]
  have hheld : ∀ t' y, y ≠ x → (y ∈ (u.thread t').pc.held ↔ y ∈ (s.thread t').pc.held) := by
    intro t' y hy
    rw [hpc]
    split_ifs with ht
    · rw [ht]
      exact hother y hy
    · exact Iff.rfl
  refine ⟨fun t' y => ?_, fun y => ?_, fun t' y hr hy => ?_, hrole⟩
  · rcases eq_or_ne y x with rfl | hne
    · rw [hself]
      exact hholders t'
    · rw [hsame y hne, hheld t' y hne]
      exact hl.holders t' y
  · rcases eq_or_ne y x with rfl | hne
    · rw [hself]
      exact hnodup
    · rw [hsame y hne]
      exact hl.nodup y
  · rcases eq_or_ne y x with rfl | hne
    · rw [hself]
      exact hwriter t' hr hy
    · rw [hsame y hne]
      exact hl.writer t' y hr ((hheld t' y hne).mp hy)

/-- A step keeps the locks in accordance with the positions. -/
lemma Locked.step (hl : Locked routine s) (hL : L.Nodup)
    (hat : (s.thread t).pc.At s.next L (s.thread t).iterations)
    (hgo : Goes kind first a (routine t) (s.thread t).pc op pc')
    (hs₁ : s.access t op = some s₁) : Locked routine (s₁.advance routine first t pc') := by
  have hpc := pc_step routine first pc' hs₁
  have hrole : ∀ t', ((s₁.advance routine first t pc').thread t').pc.swapOnly = true →
      routine t' = .swap := by
    intro t' h
    rw [hpc] at h
    split_ifs at h with heq
    · exact heq ▸ hgo.role h
    · exact hl.role t' h
  cases op with
  | lock mode x =>
    obtain ⟨l, hacq, rfl⟩ := Option.map_eq_some_iff.mp hs₁
    obtain ⟨hmode, hheld⟩ := hgo.held_lock
    have hfresh : t ∉ (s.lock x).holders := fun h =>
      hgo.lock_not_held hat hL ((hl.holders t x).mp h)
    have hnew := LockState.holders_acquire hacq
    have hx : x ∈ pc'.held := (hheld x).mpr (Or.inl rfl)
    refine hl.change rfl hpc hrole (fun y hy => ?_) (fun t' => ?_) ?_ fun t' hr hy => ?_
    · rw [hheld, or_iff_right hy]
    · rw [hnew, List.mem_cons, hl.holders, hpc]
      split_ifs with ht
      · exact iff_of_true (Or.inl ht) hx
      · exact or_iff_right ht
    · exact hnew ▸ List.nodup_cons.mpr ⟨hfresh, hl.nodup x⟩
    · rw [hpc] at hy
      split_ifs at hy with ht
      · -- A swapper takes its locks exclusively.
        have hexcl : mode = .exclusive := by rw [hmode, ← ht, hr]; cases kind <;> rfl
        rw [ht]
        exact (LockState.acquire_exclusive (hexcl ▸ hacq)).2
      · -- A node that another swapper holds cannot be locked.
        rw [hl.writer t' x hr hy, LockState.acquire_of_exclusive] at hacq
        cases hacq
  | unlock x =>
    obtain rfl := Option.some.inj hs₁
    obtain ⟨hmem, hheld⟩ := hgo.held_unlock
    have hheld := hheld (hat.nodup_held hL)
    have hmem' := (hl.holders t x).mpr hmem
    have hold := LockState.holders_release hmem'
    have hx : x ∉ pc'.held := fun h => ((hheld x).mp h).1 rfl
    refine hl.change rfl hpc hrole (fun y hy => ?_) (fun t' => ?_) ?_ fun t' hr hy => ?_
    · rw [hheld, and_iff_right hy]
    · rw [hold, (hl.nodup x).mem_erase_iff, hl.holders, hpc]
      split_ifs with ht
      · exact iff_of_false (fun h => h.1 ht) hx
      · exact and_iff_right ht
    · exact hold ▸ (hl.nodup x).erase t
    · rw [hpc] at hy
      split_ifs at hy with ht
      · exact absurd hy hx
      · -- The node that is unlocked was not held by another swapper.
        exact absurd (hl.alone hr hy hmem).symm ht
  | readStop | readNext _ | writeNext _ _ | internal =>
    obtain rfl := Option.some.inj hs₁
    have hheld := hgo.held_eq nofun nofun
    have hsame : ∀ t', ((if t' = t then pc' else (s.thread t').pc) : Pc N).held =
        (s.thread t').pc.held := by
      intro t'
      split_ifs with ht
      · rw [hheld, ht]
      · rfl
    refine ⟨fun t' y => ?_, hl.nodup, fun t' y hr hy => ?_, hrole⟩
    · rw [hpc, hsame]
      exact hl.holders t' y
    · rw [hpc, hsame] at hy
      exact hl.writer t' y hr hy

/-! ## The list -/

/-- A step that writes no pointer keeps the list. -/
lemma Coupled.step_of_not_write (hc : Coupled routine first rest s L) (hl : Locked routine s)
    {needsSwap : Bool}
    (hgo : Goes kind first (s.answer needsSwap op) (routine t) (s.thread t).pc op pc')
    (hs₁ : s.access t op = some s₁) (hwrite : ∀ x value, op ≠ .writeNext x value) :
    Coupled routine first rest (s₁.advance routine first t pc') L := by
  have hnext₁ : s₁.next = s.next := next_access hs₁ hwrite
  have hnext : (s₁.advance routine first t pc').next = s.next := hnext₁
  have hthread : ∀ t', (s₁.advance routine first t pc').thread t' =
      if t' = t then (s.thread t).advance (routine t) first pc' else s.thread t' := by
    intro t'
    rw [thread_advance, thread_access hs₁]
  have hread : ∀ x, op = .readNext x → (s.answer needsSwap op).next = s.next x := by
    rintro x rfl
    rfl
  refine ⟨hc.perm, hc.head, fun i x hi hun => ?_, fun t' => ?_, fun t' type hr => ?_⟩
  · rw [hnext]
    refine hc.link i x hi fun t' ht' => hun t' ?_
    rw [hthread]
    split_ifs with heq
    · rw [Thread.pc_advance, hgo.unwritten_eq hwrite, ← heq]
      exact ht'
    · exact ht'
  · rw [hthread, hnext]
    split_ifs with heq
    · rw [Thread.pc_advance]
      exact hgo.at (hc.placed t) hc.head hwrite hread fun x hx hx' i hi => hc.next_eq hl hx hx' hi
    · exact hc.placed t'
  · rw [hthread]
    split_ifs with heq
    · rw [heq] at hr
      rw [hr] at hgo ⊢
      exact hgo.visits (hc.placed t) hc.head (hc.visits t type hr)
    · exact hc.visits t' type hr

/-- A write of a swapper to a node that it holds takes the list `L` to `L'`, if the nodes that it
does not hold keep their positions and followers, and its own ones are linked as `L'` says. -/
lemma Coupled.write (hc : Coupled routine first rest s L) (hl : Locked routine s)
    (hnodup : (first :: rest).Nodup) (hr : routine t = .swap) {L' : List N} {x : N}
    {value : Option N} (hx : x ∈ (s.thread t).pc.held)
    (hperm : L'.Perm L) (hhead : L'[0]? = L[0]?)
    (hothers : ∀ i y, L[i]? = some y → y ∉ (s.thread t).pc.held →
      L'[i]? = L[i]? ∧ L'[i + 1]? = L[i + 1]?)
    (hvisits : ∀ t', t' ≠ t → (s.thread t').Visits L → (s.thread t').Visits L')
    (hown : ∀ i y, L'[i]? = some y → y ∈ (s.thread t).pc.held → y ∉ pc'.unwritten →
      Function.update s.next x value y = L'[i + 1]?)
    (hat : pc'.At (Function.update s.next x value) L'
      ((s.thread t).advance (routine t) first pc').iterations) :
    Coupled routine first rest
      ({ s with next := Function.update s.next x value }.advance routine first t pc') L' := by
  have hL' : L'.Nodup := (hperm.trans hc.perm).nodup_iff.mpr hnodup
  have hthread : ∀ t', ({ s with next := Function.update s.next x value }.advance routine first t
      pc').thread t' = if t' = t then (s.thread t).advance (routine t) first pc' else s.thread t' :=
    fun t' => thread_advance t'
  refine ⟨hperm.trans hc.perm, hhead.trans hc.head, fun i y hi hun => ?_, fun t' => ?_,
    fun t' type hr' => ?_⟩
  · show Function.update s.next x value y = _
    by_cases hy : y ∈ (s.thread t).pc.held
    · refine hown i y hi hy ?_
      have := hun t
      rwa [hthread, if_pos rfl, Thread.pc_advance] at this
    · -- A node of another thread or of none: it was at the same place before.
      obtain ⟨j, hj⟩ := List.getElem?_of_mem (hperm.subset (List.mem_of_getElem? hi))
      obtain ⟨hsame, hfollow⟩ := hothers j y hj hy
      obtain rfl := index_unique hL' hi (hsame.trans hj)
      have hne : y ≠ x := fun h => hy (h ▸ hx)
      rw [Function.update_of_ne hne, hfollow]
      refine hc.link i y hj fun t' ht' => ?_
      by_cases ht : t' = t
      · exact hy (Pc.held_of_unwritten (ht ▸ ht'))
      · have := hun t'
        rw [hthread, if_neg ht] at this
        exact this ht'
  · rw [hthread]
    split_ifs with ht
    · rw [Thread.pc_advance]
      exact hat
    · have hdisjoint : ∀ y ∈ (s.thread t').pc.held, y ∉ (s.thread t).pc.held := fun y hy hy' =>
        ht (hl.alone hr hy' hy)
      refine (hc.placed t').stable hperm.length_eq (fun i y hi hy => hothers i y hi
        (hdisjoint y hy)) fun y hy => ?_
      have hne : y ≠ x := by
        rintro rfl
        exact hdisjoint y hy hx
      exact Function.update_of_ne hne _ _
  · rw [hthread]
    split_ifs with ht
    · rw [ht, hr] at hr'
      cases hr'
    · exact hvisits t' ht (hc.visits t' type hr')

/-- The write of `cur->next` keeps the list. -/
lemma Coupled.writeCur (hc : Coupled routine first rest s L) (hl : Locked routine s)
    (hnodup : (first :: rest).Nodup) (hr : routine t = .swap) {cur nxt : N} {tail : Option N}
    (hpc : (s.thread t).pc = .writeCur cur nxt tail) :
    Coupled routine first rest ({ s with next := Function.update s.next cur tail }.advance routine
      first t (.releaseCur cur nxt)) L := by
  have hL : L.Nodup := hc.perm.nodup_iff.mpr hnodup
  have hat := hc.placed t
  rw [hpc] at hat
  obtain ⟨hn, hcur, htail⟩ := hat
  have hheld : (s.thread t).pc.held = [cur, nxt] := by rw [hpc]; rfl
  have hit : ((s.thread t).advance (routine t) first (.releaseCur cur nxt)).iterations =
      (s.thread t).iterations := by simp [Thread.advance, hr, hpc]
  refine hc.write hl hnodup hr (hheld ▸ List.mem_cons_self) (List.Perm.refl _) rfl
    (fun _ _ _ _ => ⟨rfl, rfl⟩) (fun _ _ h => h) (fun i y hi hy hun => ?_) ?_
  · have hne : y ≠ nxt := fun h => hun (List.mem_singleton.mpr h)
    rw [hheld] at hy
    obtain rfl : y = cur := by simpa [hne] using hy
    obtain rfl := index_unique hL hi hcur
    rw [Function.update_self, htail]
  · rw [hit]
    exact ⟨hn, hcur⟩

/-- The write of `next->next` keeps the list. -/
lemma Coupled.writeNext (hc : Coupled routine first rest s L) (hl : Locked routine s)
    (hnodup : (first :: rest).Nodup) (hr : routine t = .swap) {cur nxt : N}
    (hpc : (s.thread t).pc = .writeNext cur nxt) :
    Coupled routine first rest ({ s with next := Function.update s.next nxt (some cur) }.advance
      routine first t (.test nxt)) L := by
  have hL : L.Nodup := hc.perm.nodup_iff.mpr hnodup
  have hat := hc.placed t
  rw [hpc] at hat
  obtain ⟨hn, hcur⟩ := hat
  have hheld : (s.thread t).pc.held = [nxt] := by rw [hpc]; rfl
  refine hc.write hl hnodup hr (hheld ▸ List.mem_cons_self) (List.Perm.refl _) rfl
    (fun _ _ _ _ => ⟨rfl, rfl⟩) (fun _ _ h => h) (fun i y hi hy hun => ?_) ?_
  · rw [hheld, List.mem_singleton] at hy
    subst hy
    obtain rfl := index_unique hL hi hn
    rw [Function.update_self, hcur]
  · have hit : ((s.thread t).advance (routine t) first (.test nxt)).iterations =
        (s.thread t).iterations + 1 := by simp [Thread.advance, hr, hpc]
    rw [hit]
    exact hn

/-- The write of `prev->next` exchanges the two nodes behind `prev`. -/
lemma Coupled.writePrev (hc : Coupled routine first rest s L) (hl : Locked routine s)
    (hnodup : (first :: rest).Nodup) (hr : routine t = .swap) {prev cur nxt : N}
    (hpc : (s.thread t).pc = .writePrev prev cur nxt) :
    Coupled routine first rest ({ s with next := Function.update s.next prev (some nxt) }.advance
      routine first t (.releasePrev prev cur nxt)) (exchange L ((s.thread t).iterations + 1)) := by
  have hL : L.Nodup := hc.perm.nodup_iff.mpr hnodup
  have hL' : (exchange L ((s.thread t).iterations + 1)).Nodup :=
    (exchange_perm L _).nodup_iff.mpr hL
  have hat := hc.placed t
  rw [hpc] at hat
  obtain ⟨hp, hcur, hn⟩ := hat
  have hheld : (s.thread t).pc.held = [prev, cur, nxt] := by rw [hpc]; rfl
  have hlen : (s.thread t).iterations + 1 + 1 < L.length := (List.getElem?_eq_some_iff.mp hn).1
  have hp' : (exchange L ((s.thread t).iterations + 1))[(s.thread t).iterations]? = some prev :=
    (getElem?_exchange_of_ne L (by omega) (by omega)).trans hp
  have hn' : (exchange L ((s.thread t).iterations + 1))[(s.thread t).iterations + 1]? = some nxt :=
    (getElem?_exchange_left hlen).trans hn
  have hcur' : (exchange L ((s.thread t).iterations + 1))[(s.thread t).iterations + 2]? =
      some cur := (getElem?_exchange_right hlen).trans hcur
  refine hc.write hl hnodup hr (hheld ▸ List.mem_cons_self) (exchange_perm L _)
    (getElem?_exchange_of_ne L (by omega) (by omega)) (fun i y hi hy => ?_) (fun t' ht h => ?_)
    (fun i y hi hy hun => ?_) ?_
  · simp only [hheld, List.mem_cons, List.not_mem_nil, or_false, not_or] at hy
    exact getElem?_exchange_of_other hp hcur hn hi hy.1 hy.2.1 hy.2.2
  · have hother : ∀ y ∈ (s.thread t).pc.held, y ∉ (s.thread t').pc.held := fun y hy hy' =>
      ht (hl.alone hr hy hy')
    rw [hheld] at hother
    exact h.exchange (hc.placed t') hcur hn (hother cur (by simp)) (hother nxt (by simp))
  · rw [hheld] at hy
    obtain rfl : y = prev := by
      rw [Pc.unwritten] at hun
      exact (List.mem_cons.mp hy).resolve_right hun
    obtain rfl := index_unique hL' hi hp'
    rw [Function.update_self, hn']
  · have hit : ((s.thread t).advance (routine t) first (.releasePrev prev cur nxt)).iterations =
        (s.thread t).iterations := by simp [Thread.advance, hr, hpc]
    rw [hit]
    have hne : nxt ≠ prev := by
      rintro rfl
      have := index_unique hL hn hp
      omega
    refine ⟨hp', hn', hcur', ?_⟩
    have htail : s.next nxt = L[(s.thread t).iterations + 3]? :=
      hc.next_eq hl (t := t) (by rw [hheld]; simp) (by rw [hpc]; exact List.not_mem_nil) hn
    rw [Function.update_of_ne hne, htail, getElem?_exchange_of_ne L (by omega) (by omega)]

/-- Every step keeps the coupling invariant, for the list or for one with two nodes exchanged. -/
lemma coupled_step {e : ListEvent m} (hnodup : (first :: rest).Nodup)
    (hc : ∃ L, Coupled routine first rest s L) (hl : Locked routine s)
    (hst : s.step kind routine first e = some s') :
    Locked routine s' ∧ ∃ L, Coupled routine first rest s' L := by
  obtain ⟨L, hc⟩ := hc
  cases e with
  | setStop =>
    obtain rfl := Option.some.inj hst
    exact ⟨⟨hl.holders, hl.nodup, hl.writer, hl.role⟩,
      L, hc.perm, hc.head, hc.link, hc.placed, hc.visits⟩
  | run t needsSwap =>
    obtain ⟨op, pc', s₁, hgo, hs₁, rfl⟩ := step_run hst
    refine ⟨hl.step (hc.perm.nodup_iff.mpr hnodup) (hc.placed t) hgo hs₁, ?_⟩
    by_cases hwrite : ∀ x value, op ≠ .writeNext x value
    · exact ⟨L, hc.step_of_not_write hl hgo hs₁ hwrite⟩
    · simp only [ne_eq, not_forall, not_not] at hwrite
      obtain ⟨x, value, rfl⟩ := hwrite
      obtain rfl := Option.some.inj hs₁
      generalize hr : routine t = r at hgo
      generalize hpc : (s.thread t).pc = pc at hgo
      cases hgo with
      | writePrev => exact ⟨_, hc.writePrev hl hnodup hr hpc⟩
      | writeCur => exact ⟨L, hc.writeCur hl hnodup hr hpc⟩
      | writeNext => exact ⟨L, hc.writeNext hl hnodup hr hpc⟩

/-- Before any thread has started, the list is the initial one. -/
lemma coupled_initial (routine : Fin m → Routine) (hnodup : (first :: rest).Nodup) :
    Coupled routine first rest (initial m first rest) (first :: rest) :=
  ⟨List.Perm.refl _, rfl, fun _ _ hi _ => nextIn_eq hnodup hi, fun _ => trivial,
    fun _ _ _ => trivial⟩

/-- Before any thread has started, all locks are free. -/
lemma locked_initial (routine : Fin m → Routine) : Locked routine (initial m first rest) := by
  constructor <;> simp [initial, LockState.holders, Pc.held, Pc.swapOnly]

/-- In every reachable state the locks and the threads are coupled to a list. -/
theorem coupled_of_reachable (hnodup : (first :: rest).Nodup)
    (hrun : Reachable (step kind routine first) (initial m first rest) s) :
    Locked routine s ∧ ∃ L, Coupled routine first rest s L :=
  hrun.invariant ⟨locked_initial routine, _, coupled_initial routine hnodup⟩
    fun _ _ _ h _ hst => coupled_step hnodup h.2 h.1 hst

end ListState

end OsLabs.SwapList
