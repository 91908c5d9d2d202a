import OsLabs.BoundedQueue.NodeMemory
import OsLabs.BoundedQueue.ReaderWriter
import OsLabs.BoundedQueue.SemaphoreQueue

/-!
# The reader and the writer over the semaphores

The queue with two semaphores is a channel: a call has its effect with the list update, between the
two operations on semaphores, and never fails.
-/

namespace OsLabs.BoundedQueue

open Transition Channel

namespace SemPhase

/-- Where a thread is in its call, for the caller. -/
def callPhase : SemPhase → CallPhase ℤ
  | .outside => .outside
  | .addStart val | .waitEmpty val | .allocating val | .addLock _ val | .linking _ val =>
    .before val
  | .getStart | .waitFull | .getLock | .taking => .before noValue
  | .postFull | .addUnlock | .postEmpty | .getUnlock => .after true

/-- What a step between two places means to the caller, where the last value taken is given. -/
def outcome (val : ℤ) : SemPhase → SemPhase → Outcome ℤ
  | .taking, .postEmpty => .stored val
  | .addUnlock, .outside | .getUnlock, .outside => .returned true
  | _, _ => .inside

end SemPhase

/-- The choice begins a call. -/
def SemChoice.isCall : SemChoice → Bool
  | .call _ => true
  | _ => false

namespace SemQueue

/-- The calls of the reader and the writer. -/
def calls : Calls (SemQueue Side) SemChoice ℤ where
  call s side val := SemQueue.step sideRole s (side, .call val)
  step s side choice :=
    if choice.isCall then none
    else (SemQueue.step sideRole s (side, choice)).map fun s' =>
      (s', SemPhase.outcome (s'.taken.getLastD noValue) (s.phase side) (s'.phase side))

variable {s s' : SemQueue Side} {side : Side} {choice : SemChoice} {p : SemPhase}
  {new old : List ℤ}

/-- A thread goes on to a place, and these values are added and taken. -/
structure Goes (s s' : SemQueue Side) (side : Side) (p : SemPhase) (new old : List ℤ) : Prop where
  phase : s'.phase = Function.update s.phase side p
  added : s'.added = s.added ++ new
  taken : s'.taken = s.taken ++ old

/-- A step that adds and takes nothing. -/
lemma Goes.of_update (hphase : s'.phase = Function.update s.phase side p)
    (hadded : s'.added = s.added) (htaken : s'.taken = s.taken) : Goes s s' side p [] [] where
  phase := hphase
  added := by rw [hadded, List.append_nil]
  taken := by rw [htaken, List.append_nil]

/-- A step of the program to its end. -/
lemma Goes.stay (hphase : s'.phase = s.phase) (hadded : s'.added = s.added)
    (htaken : s'.taken = s.taken) : Goes s s' side (s.phase side) [] [] :=
  .of_update (by rw [hphase, Function.update_eq_self]) hadded htaken

/-- Every step of the writer in its call. -/
lemma effect_queueAdd (hst : s.queueAdd .writer choice = some s') (hcall : choice.isCall = false) :
    ∃ p new old, Goes s s' .writer p new old ∧ Effect .writer (s.phase .writer).callPhase
      (SemPhase.outcome (s'.taken.getLastD noValue) (s.phase .writer) p) p.callPhase new old := by
  have hstay : ∀ failure val, (s.phase .writer).callPhase = .before val →
      SemPhase.outcome (s.taken.getLastD noValue) (s.phase .writer) (s.phase .writer) = .inside →
      some { s with failure := some failure } = some s' →
      ∃ p new old, Goes s s' .writer p new old ∧ Effect .writer (s.phase .writer).callPhase
        (SemPhase.outcome (s'.taken.getLastD noValue) (s.phase .writer) p) p.callPhase new old := by
    intro failure val hbefore hinside heq
    cases heq
    refine ⟨_, [], [], .stay rfl rfl rfl, ?_⟩
    dsimp only
    rw [hinside, hbefore]
    exact .prepare
  unfold queueAdd at hst
  split at hst
  next => cases hcall
  next val ht =>
    split_ifs at hst
    · cases hst
      refine ⟨.waitEmpty val, [], [], .of_update rfl rfl rfl, ?_⟩
      rw [ht]
      exact .prepare
    · exact hstay _ val (by rw [ht]; rfl) (by rw [ht]; rfl) hst
  next val ht =>
    split_ifs at hst
    cases hst
    refine ⟨.allocating val, [], [], .of_update rfl rfl rfl, ?_⟩
    rw [ht]
    exact .prepare
  next val new ht =>
    obtain ⟨list, -, rfl⟩ := Option.map_eq_some_iff.mp hst
    refine ⟨.addLock new val, [], [], .of_update rfl rfl rfl, ?_⟩
    rw [ht]
    exact .prepare
  next val ht => exact hstay _ val (by rw [ht]; rfl) (by rw [ht]; rfl) hst
  next new val ht =>
    split_ifs at hst
    cases hst
    refine ⟨.linking new val, [], [], .of_update rfl rfl rfl, ?_⟩
    rw [ht]
    exact .prepare
  next new val ht =>
    split at hst
    next => exact hstay _ val (by rw [ht]; rfl) (by rw [ht]; rfl) hst
    next list _ =>
      cases hst
      refine ⟨.postFull, [val], [], ⟨rfl, rfl, (List.append_nil _).symm⟩, ?_⟩
      rw [ht]
      exact .put
  next ht =>
    cases hst
    refine ⟨.addUnlock, [], [], .of_update rfl rfl rfl, ?_⟩
    rw [ht]
    exact .finish
  next ht =>
    cases hst
    refine ⟨.outside, [], [], .of_update rfl rfl rfl, ?_⟩
    rw [ht]
    exact .return_
  next => cases hst

/-- Every step of the reader in its call. -/
lemma effect_queueGet (hst : s.queueGet .reader choice = some s') (hcall : choice.isCall = false) :
    ∃ p new old, Goes s s' .reader p new old ∧ Effect .reader (s.phase .reader).callPhase
      (SemPhase.outcome (s'.taken.getLastD noValue) (s.phase .reader) p) p.callPhase new old := by
  have hstay : ∀ failure, (s.phase .reader).callPhase = .before noValue →
      SemPhase.outcome (s.taken.getLastD noValue) (s.phase .reader) (s.phase .reader) = .inside →
      some { s with failure := some failure } = some s' →
      ∃ p new old, Goes s s' .reader p new old ∧ Effect .reader (s.phase .reader).callPhase
        (SemPhase.outcome (s'.taken.getLastD noValue) (s.phase .reader) p) p.callPhase new old := by
    intro failure hbefore hinside heq
    cases heq
    refine ⟨_, [], [], .stay rfl rfl rfl, ?_⟩
    dsimp only
    rw [hinside, hbefore]
    exact .prepare
  unfold queueGet at hst
  split at hst
  next => cases hcall
  next ht =>
    split_ifs at hst
    · cases hst
      refine ⟨.waitFull, [], [], .of_update rfl rfl rfl, ?_⟩
      rw [ht]
      exact .prepare
    · exact hstay _ (by rw [ht]; rfl) (by rw [ht]; rfl) hst
  next ht =>
    split_ifs at hst
    cases hst
    refine ⟨.getLock, [], [], .of_update rfl rfl rfl, ?_⟩
    rw [ht]
    exact .prepare
  next ht =>
    split_ifs at hst
    cases hst
    refine ⟨.taking, [], [], .of_update rfl rfl rfl, ?_⟩
    rw [ht]
    exact .prepare
  next ht =>
    split at hst
    next => exact hstay _ (by rw [ht]; rfl) (by rw [ht]; rfl) hst
    next val list _ =>
      cases hst
      refine ⟨.postEmpty, [], [val], ⟨rfl, (List.append_nil _).symm, rfl⟩, ?_⟩
      rw [ht]
      show Effect _ _ (.stored ((s.taken ++ [val]).getLastD noValue)) _ _ _
      rw [List.getLastD_concat]
      exact .take
  next ht =>
    cases hst
    refine ⟨.getUnlock, [], [], .of_update rfl rfl rfl, ?_⟩
    rw [ht]
    exact .finish
  next ht =>
    cases hst
    refine ⟨.outside, [], [], .of_update rfl rfl rfl, ?_⟩
    rw [ht]
    exact .return_
  next => cases hst

/-- Every step of a thread in its call. -/
lemma effect_step (hst : SemQueue.step sideRole s (side, choice) = some s')
    (hcall : choice.isCall = false) :
    ∃ p new old, Goes s s' side p new old ∧ Effect side (s.phase side).callPhase
      (SemPhase.outcome (s'.taken.getLastD noValue) (s.phase side) p) p.callPhase new old := by
  unfold SemQueue.step at hst
  split_ifs at hst
  cases side with
  | writer => exact effect_queueAdd hst hcall
  | reader => exact effect_queueGet hst hcall

/-- The beginning of a call. -/
lemma goes_call {val : ℤ} (hst : SemQueue.step sideRole s (side, .call val) = some s') :
    s.phase side = .outside ∧ ∃ x, (side = .writer → x = val) ∧
      ∃ p, p.callPhase = .before x ∧ Goes s s' side p [] [] := by
  unfold SemQueue.step at hst
  split_ifs at hst
  cases side with
  | writer =>
    replace hst : s.queueAdd .writer (.call val) = some s' := hst
    unfold queueAdd at hst
    split at hst
    case h_1 _ _ val' ht hcall =>
      cases hcall
      cases hst
      exact ⟨ht, val, fun _ => rfl, .addStart val, rfl, .of_update rfl rfl rfl⟩
    all_goals first | cases hst; done | (rename_i hcall; cases hcall)
  | reader =>
    replace hst : s.queueGet .reader (.call val) = some s' := hst
    unfold queueGet at hst
    split at hst
    case h_1 _ _ val' ht hcall =>
      cases hst
      refine ⟨ht, noValue, ?_, .getStart, rfl, .of_update rfl rfl rfl⟩
      rintro ⟨⟩
    all_goals first | cases hst; done | (rename_i hcall; cases hcall)

/-- The node that the writer has allocated and not linked. -/
def newNodes (s : SemQueue Side) : List ℕ := ((s.phase .writer).node.map Prod.fst).toList

/-- What holds of the queue while the reader and the writer use it. -/
structure Runs (capacity : ℕ) (s : SemQueue Side) (l : List (ℕ × ℤ)) : Prop where
  invariant : Invariant sideRole capacity s l
  /-- The nodes in memory are those of the list and the one of the writer. -/
  memory : s.list.Owned l s.newNodes

namespace Runs

variable {capacity : ℕ} {l : List (ℕ × ℤ)}

/-- A step that does not touch the memory. -/
lemma of_list (h : Runs capacity s l) (hst : SemQueue.step sideRole s (side, choice) = some s')
    (hlist : s'.list = s.list) (hnodes : s'.newNodes = s.newNodes) :
    ∃ l', Runs capacity s' l' := by
  obtain ⟨l', hl'⟩ := h.invariant.step hst
  refine ⟨l', hl', ?_⟩
  have hsame : l' = l := by
    have hpath := hl'.represents.path
    rw [hlist] at hpath
    exact hpath.unique h.invariant.represents.path
  rw [hsame, hlist, hnodes]
  exact h.memory

/-- A step after which the memory is known. -/
lemma of_owned (h : Runs capacity s l) (hst : SemQueue.step sideRole s (side, choice) = some s')
    {m : List (ℕ × ℤ)} (hown : s'.list.Owned m s'.newNodes) : ∃ l', Runs capacity s' l' := by
  obtain ⟨l', hl'⟩ := h.invariant.step hst
  obtain rfl := hown.represents.path.unique hl'.represents.path
  exact ⟨m, hl', hown⟩

/-- A step of the writer. -/
lemma step_writer (h : Runs capacity s l)
    (hst : SemQueue.step sideRole s (.writer, choice) = some s') : ∃ l', Runs capacity s' l' := by
  have hadd := hst
  unfold SemQueue.step at hadd
  split_ifs at hadd
  replace hadd : s.queueAdd .writer choice = some s' := hadd
  have hkeep : ∀ p, s'.phase = Function.update s.phase .writer p → s'.list = s.list →
      p.node = (s.phase .writer).node → ∃ l', Runs capacity s' l' := by
    intro p hphase hlist hnode
    apply h.of_list hst hlist
    unfold newNodes
    rw [hphase, Function.update_self, hnode]
  unfold queueAdd at hadd
  split at hadd
  next val ht =>
    cases hadd
    exact hkeep _ rfl rfl (by rw [ht]; rfl)
  next val ht =>
    split_ifs at hadd
    · cases hadd
      exact hkeep _ rfl rfl (by rw [ht]; rfl)
    · cases hadd
      exact h.of_list hst rfl rfl
  next val ht =>
    split_ifs at hadd
    cases hadd
    exact hkeep _ rfl rfl (by rw [ht]; rfl)
  next val new ht =>
    obtain ⟨list, hal, rfl⟩ := Option.map_eq_some_iff.mp hadd
    have hnone : s.newNodes = [] := by
      unfold newNodes
      rw [ht]
      rfl
    apply h.of_owned hst
    have hown := h.memory
    rw [hnone] at hown
    exact hown.allocate hal
  next val ht =>
    cases hadd
    exact h.of_list hst rfl rfl
  next new val ht =>
    split_ifs at hadd
    cases hadd
    exact hkeep _ rfl rfl (by rw [ht]; rfl)
  next new val ht =>
    have hnode : (s.phase .writer).node = some (new, val) := by rw [ht]; rfl
    have hnew : s.newNodes = [new] := by
      unfold newNodes
      rw [hnode]
      rfl
    cases hlink : s.list.link new with
    | none =>
      rw [hlink] at hadd
      cases hadd
      exact h.of_list hst rfl rfl
    | some list =>
      rw [hlink] at hadd
      cases hadd
      apply h.of_owned hst
      have hown := h.memory
      rw [hnew] at hown
      exact hown.link (h.invariant.apart.cell _ _ hnode) (h.invariant.apart.notMem _ _ hnode) hlink
  next ht =>
    cases hadd
    exact hkeep _ rfl rfl (by rw [ht]; rfl)
  next ht =>
    cases hadd
    exact hkeep _ rfl rfl (by rw [ht]; rfl)
  next => cases hadd

/-- A step of the reader. -/
lemma step_reader (h : Runs capacity s l)
    (hst : SemQueue.step sideRole s (.reader, choice) = some s') : ∃ l', Runs capacity s' l' := by
  have hget := hst
  unfold SemQueue.step at hget
  split_ifs at hget
  replace hget : s.queueGet .reader choice = some s' := hget
  have hwriter : ∀ p, Function.update s.phase .reader p Side.writer = s.phase .writer :=
    fun p => Function.update_of_ne (by decide) ..
  have hkeep : ∀ p, s'.phase = Function.update s.phase .reader p → s'.newNodes = s.newNodes := by
    intro p hphase
    unfold newNodes
    rw [hphase, hwriter]
  unfold queueGet at hget
  split at hget
  next =>
    cases hget
    exact h.of_list hst rfl (hkeep _ rfl)
  next =>
    split_ifs at hget
    · cases hget
      exact h.of_list hst rfl (hkeep _ rfl)
    · cases hget
      exact h.of_list hst rfl rfl
  next =>
    split_ifs at hget
    cases hget
    exact h.of_list hst rfl (hkeep _ rfl)
  next =>
    split_ifs at hget
    cases hget
    exact h.of_list hst rfl (hkeep _ rfl)
  next ht =>
    obtain ⟨x, l, rfl⟩ := List.exists_cons_of_ne_nil (h.invariant.ne_nil ht)
    cases htake : s.list.takeFirst with
    | none =>
      rw [htake] at hget
      cases hget
      exact h.of_list hst rfl rfl
    | some r =>
      rw [htake] at hget
      cases hget
      have hapart : x.1 ∉ s.newNodes := by
        unfold newNodes
        rw [Option.mem_toList, Option.map_eq_some_iff]
        rintro ⟨y, hy, hxy⟩
        have hnot := h.invariant.apart.notMem .writer y hy
        rw [hxy] at hnot
        exact hnot List.mem_cons_self
      apply h.of_owned hst
      rw [hkeep _ rfl]
      exact h.memory.takeFirst hapart htake
  next =>
    cases hget
    exact h.of_list hst rfl (hkeep _ rfl)
  next =>
    cases hget
    exact h.of_list hst rfl (hkeep _ rfl)
  next => cases hget

/-- Every step. -/
lemma step (h : Runs capacity s l) (hst : SemQueue.step sideRole s (side, choice) = some s') :
    ∃ l', Runs capacity s' l' := by
  cases side with
  | writer => exact h.step_writer hst
  | reader => exact h.step_reader hst

/-- The new queue. -/
lemma init (capacity : ℕ) : Runs capacity (SemQueue.init capacity) [] where
  invariant := .init (Int.natCast_nonneg capacity)
  memory := NodeList.owned_initial

end Runs

/-- The queue is a channel. -/
def spec (capacity : ℕ) : Spec calls capacity where
  Inv s := ∃ l, Runs capacity s l
  phase s side := (s.phase side).callPhase
  added := SemQueue.added
  taken := SemQueue.taken
  call := by
    rintro s s' side val ⟨l, hl⟩ hst
    obtain ⟨hout, x, hx, p, hp, hgoes⟩ := goes_call hst
    refine ⟨hl.step hst, x, ?_, hx, ?_, ?_, ?_⟩
    · funext u
      rw [hgoes.phase, ← hp]
      exact Function.apply_update (fun _ => SemPhase.callPhase) s.phase side p u
    · rw [hout]
      rfl
    · rw [hgoes.added, List.append_nil]
    · rw [hgoes.taken, List.append_nil]
  step := by
    rintro s s' side choice outcome ⟨l, hl⟩ hst
    replace hst : (if choice.isCall then none
      else (SemQueue.step sideRole s (side, choice)).map fun s' =>
        (s', SemPhase.outcome (s'.taken.getLastD noValue) (s.phase side) (s'.phase side))) =
          some (s', outcome) := hst
    split_ifs at hst with hcall
    obtain ⟨t, ht, heq⟩ := Option.map_eq_some_iff.mp hst
    cases heq
    obtain ⟨p, new, old, hgoes, heffect⟩ := effect_step ht (Bool.eq_false_iff.mpr hcall)
    refine ⟨hl.step ht, p.callPhase, new, old, ?_, ?_, hgoes.added, hgoes.taken⟩
    · rw [hgoes.phase, Function.update_self]
      exact heffect
    · funext u
      rw [hgoes.phase]
      exact Function.apply_update (fun _ => SemPhase.callPhase) s.phase side p u
  fifo := by
    rintro s ⟨l, hl⟩
    refine ⟨l.map Prod.snd, hl.invariant.fifo, ?_⟩
    rw [List.length_map]
    exact Int.ofNat_le.mp hl.invariant.length_le

/-- A step of the queue in a call is one of the channel. -/
lemma calls_step {s s' : SemQueue Side} {side : Side} {choice : SemChoice}
    (hst : SemQueue.step sideRole s (side, choice) = some s') (hcall : choice.isCall = false) :
    calls.step s side choice = some (s', SemPhase.outcome (s'.taken.getLastD noValue)
      (s.phase side) (s'.phase side)) := by
  unfold calls
  dsimp only
  rw [hcall, hst]
  rfl

/-- The two threads over a queue of the given capacity. -/
abbrev pairStep : Pair (SemQueue Side) ℤ → Side × Option SemChoice →
    Option (Pair (SemQueue Side) ℤ) := Pair.step calls nextInt noValue

/-- A thread that is not blocked begins a call or goes on with it. -/
lemma exists_pairStep {capacity : ℕ} {s : Pair (SemQueue Side) ℤ} {l : List (ℕ × ℤ)}
    (h : Invariant sideRole capacity s.channel l) (hcapacity : 1 ≤ capacity)
    (hfail : s.channel.failure = none) :
    ∃ side c s', pairStep s (side, c) = some s' ∧ s'.channel.failure = none := by
  obtain ⟨t, ht⟩ := h.exists_not_blocked (by exact_mod_cast hcapacity) ⟨.writer, rfl⟩ ⟨.reader, rfl⟩
  obtain ⟨choice, s', hst, hfail'⟩ := h.exists_step hfail ht
  cases hcall : choice.isCall with
  | false =>
    obtain ⟨r, hr, hchannel⟩ := Pair.exists_step_some nextInt noValue (calls_step hst hcall)
    exact ⟨t, some choice, r, hr, hchannel ▸ hfail'⟩
  | true =>
    have hout : s.channel.phase t = .outside := by
      cases choice with
      | call val => exact (goes_call hst).1
      | malloc | go => cases hcall
    refine ⟨t, none, ?_⟩
    apply Pair.exists_step_none nextInt noValue (P := fun q : SemQueue Side => q.failure = none)
    intro val
    unfold calls SemQueue.step
    dsimp only
    rw [hfail]
    cases t with
    | writer =>
      unfold queueAdd
      rw [hout]
      exact ⟨_, rfl, hfail⟩
    | reader =>
      unfold queueGet
      rw [hout]
      exact ⟨_, rfl, hfail⟩

/-- In every run of the reader and the writer: the values are in order, and unless a `malloc` has
failed some thread can make a step. -/
theorem semaphore_reader_gets_every_value {capacity : ℕ} (hcapacity : 1 ≤ capacity)
    {s : Pair (SemQueue Side) ℤ}
    (h : Reachable pairStep (Pair.init (SemQueue.init capacity) 0 noValue) s) :
    InOrder capacity s.channel.added s.channel.taken s ∧
    (s.channel.failure = none ∨ s.channel.failure = some .outOfMemory) ∧
    (s.channel.failure = none →
      ∃ side c s', pairStep s (side, c) = some s' ∧ s'.channel.failure = none) := by
  have hinit : (spec capacity).Inv (SemQueue.init capacity) :=
    ⟨[], Runs.init capacity⟩
  have horder := inOrder_of_run (spec capacity) hinit (fun _ => rfl) rfl rfl h
  obtain ⟨l, hl⟩ := (Pair.counts_of_run hinit (fun _ => rfl) rfl rfl h).channel
  exact ⟨horder, hl.invariant.failure, exists_pairStep hl.invariant hcapacity⟩

/-- The reader takes the first value while the writer waits for a free place. -/
theorem semaphore_reader_gets_every_value_second : ∃ s : Pair (SemQueue Side) ℤ,
    s.expected = 1 ∧ s.index = 1 ∧ s.channel.phase .writer = .waitEmpty 1 ∧
    InOrder 1 s.channel.added s.channel.taken s ∧
    (s.channel.failure = none ∨ s.channel.failure = some .outOfMemory) ∧
    (s.channel.failure = none →
      ∃ side c s', pairStep s (side, c) = some s' ∧ s'.channel.failure = none) := by
  have hrun := Run.get_execWhere pairStep anyStep (Pair.init (SemQueue.init (1 : ℕ)) 0 noValue)
    [(.writer, none), (.writer, some .go), (.writer, some .go), (.writer, some (.malloc (some 0))),
      (.writer, some .go), (.writer, some .go), (.writer, some .go), (.writer, some .go),
      (.writer, none), (.writer, some .go), (.reader, none), (.reader, some .go),
      (.reader, some .go), (.reader, some .go), (.reader, some .go), (.reader, some .go),
      (.reader, some .go)] (by decide)
  exact ⟨_, by decide, by decide, by decide, semaphore_reader_gets_every_value (Nat.le_refl 1) hrun⟩

end SemQueue

end OsLabs.BoundedQueue
