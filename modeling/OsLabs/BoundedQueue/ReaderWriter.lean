import OsLabs.BoundedQueue.Shutdown
import OsLabs.Foundation.Channel

/-!
# A reader and a writer

`reader` and `writer` of `queue_threads.c`.  The writer adds `0`, `1`, `2` and so on, each value
until `queue_add` succeeds; the reader gets values and prints `ERROR` when a value is not the
expected one.  Each of the four queues is a channel in the sense of `Foundation/Channel.lean`, whose
`errors` counts the lines that are printed; this module has what they have in common, and the queue
with two condition variables.

A queue of this module has the two threads and no others.  An `int` that overflows is wrapped.
-/

namespace OsLabs.BoundedQueue

open Transition Channel

/-- The function that a thread calls in its loop. -/
def sideRole : Side → Role
  | .writer => .producer
  | .reader => .consumer

/-- `i++` and `val + 1`. -/
def nextInt (x : ℤ) : ℤ := wrap 32 (x + 1)

/-- `int val = -1`. -/
def noValue : ℤ := -1

/-- The writer has added `0`, `1`, `2` and so on, the reader has taken the first of these values, at
most `capacity` values are in between, and the reader has printed no `ERROR`. -/
structure InOrder {σ : Type} (capacity : ℕ) (added taken : List ℤ) (s : Pair σ ℤ) : Prop where
  errors : s.errors = 0
  values : ∃ n m, added = List.iterate nextInt 0 n ∧ taken = List.iterate nextInt 0 m ∧ m ≤ n ∧
    n ≤ m + capacity

/-- Over every channel the values are in order. -/
lemma inOrder_of_run {σ χ : Type} {calls : Calls σ χ ℤ} {capacity : ℕ} (spec : Spec calls capacity)
    {channel : σ} {s : Pair σ ℤ} (hinv : spec.Inv channel)
    (hout : ∀ side, spec.phase channel side = .outside) (hadded : spec.added channel = [])
    (htaken : spec.taken channel = [])
    (h : Reachable (Pair.step calls nextInt noValue) (Pair.init channel 0 noValue) s) :
    InOrder capacity (spec.added s.channel) (spec.taken s.channel) s := by
  have hcounts := Pair.counts_of_run hinv hout hadded htaken h
  exact ⟨hcounts.result.1, hcounts.result.2⟩

/-! ## The queue with two condition variables -/

namespace CvPhase

/-- Where a thread is in its call, for the caller. -/
def callPhase : CvPhase → CallPhase ℤ
  | .outside => .outside
  | .addLock val | .addTest val | .addAsleep val | .addWoken val | .addBody val => .before val
  | .getLock | .getTest | .getAsleep | .getWoken | .getBody => .before noValue
  | .addSignal | .getSignal => .after true
  | .unlocking result => .after (decide (result ≠ 0))

/-- What a step between two places means to the caller, where the last value taken is given. -/
def outcome (val : ℤ) : CvPhase → CvPhase → Outcome ℤ
  | .getBody, .getSignal => .stored val
  | .unlocking result, .outside => .returned (decide (result ≠ 0))
  | _, _ => .inside

/-- For the caller a wake-up changes nothing. -/
lemma callPhase_wake (p : CvPhase) : p.wake.callPhase = p.callPhase := by
  cases p <;> rfl

end CvPhase

/-- The choice begins a call. -/
def CvChoice.isCall {T : Type} : CvChoice T → Bool
  | .call _ => true
  | _ => false

namespace CvQueue

/-- The calls of the reader and the writer. -/
def calls : Calls (CvQueue Side) (CvChoice Side) ℤ where
  call s side val := CvQueue.step sideRole s (side, .call val)
  step s side choice :=
    if choice.isCall then none
    else (CvQueue.step sideRole s (side, choice)).map fun s' =>
      (s', CvPhase.outcome (s'.taken.getLastD noValue) (s.phase side) (s'.phase side))

variable {s s' : CvQueue Side} {side : Side} {choice : CvChoice Side} {p : CvPhase}
  {new old : List ℤ}

/-- A thread goes on to a place, others are where they were or woken, and these values are added and
taken. -/
structure Goes (s s' : CvQueue Side) (side : Side) (p : CvPhase) (new old : List ℤ) : Prop where
  phase : ∀ u, (s'.phase u).callPhase = (Function.update s.phase side p u).callPhase
  self : s'.phase side = p
  added : s'.added = s.added ++ new
  taken : s'.taken = s.taken ++ old

/-- A step that wakes nobody. -/
lemma Goes.of_phase (hphase : s'.phase = Function.update s.phase side p)
    (hadded : s'.added = s.added ++ new) (htaken : s'.taken = s.taken ++ old) :
    Goes s s' side p new old where
  phase u := by rw [hphase]
  self := by rw [hphase, Function.update_self]
  added := hadded
  taken := htaken

/-- One that adds and takes nothing. -/
lemma Goes.of_update (hphase : s'.phase = Function.update s.phase side p)
    (hadded : s'.added = s.added) (htaken : s'.taken = s.taken) : Goes s s' side p [] [] :=
  .of_phase hphase (by rw [hadded, List.append_nil]) (by rw [htaken, List.append_nil])

/-- A step of the program to its end. -/
lemma Goes.stay (hphase : s'.phase = s.phase) (hadded : s'.added = s.added)
    (htaken : s'.taken = s.taken) : Goes s s' side (s.phase side) [] [] :=
  .of_update (by rw [hphase, Function.update_eq_self]) hadded htaken

/-- A signal. -/
lemma Goes.of_condSignal {asleep : CvPhase → Bool} {target : Option Side}
    (hst : s.condSignal side asleep target = some s') : Goes s s' side (.unlocking 1) [] [] := by
  unfold condSignal at hst
  split_ifs at hst
  cases hst
  refine ⟨fun u => ?_, ?_, (List.append_nil _).symm, (List.append_nil _).symm⟩
  · rcases deliver_eq CvPhase.wake (Function.update s.phase side (.unlocking 1)) target u
      with h | h
    · exact congrArg _ h
    · exact (congrArg _ h).trans (CvPhase.callPhase_wake _)
  · have hself := deliver_eq CvPhase.wake (Function.update s.phase side (.unlocking 1)) target side
    rw [Function.update_self] at hself
    rcases hself with h | h
    · exact h
    · exact h

/-- An acquisition of the mutex. -/
lemma Goes.of_lockMutex (hst : s.lockMutex side p = some s') : Goes s s' side p [] [] := by
  unfold lockMutex at hst
  split_ifs at hst
  cases hst
  exact .of_update rfl rfl rfl

/-- Every step of the writer in its call. -/
lemma effect_queueAdd (hst : s.queueAdd .writer choice = some s') (hcall : choice.isCall = false) :
    ∃ p new old, Goes s s' .writer p new old ∧ Effect .writer (s.phase .writer).callPhase
      (CvPhase.outcome (s'.taken.getLastD noValue) (s.phase .writer) p) p.callPhase new old := by
  unfold queueAdd at hst
  split at hst
  next => cases hcall
  next val ht =>
    refine ⟨_, [], [], .of_lockMutex hst, ?_⟩
    rw [ht]
    exact .prepare
  next val ht =>
    split_ifs at hst with hfull
    · cases hst
      refine ⟨.addAsleep val, [], [], .of_update rfl rfl rfl, ?_⟩
      rw [ht]
      exact .prepare
    · cases hst
      refine ⟨.addBody val, [], [], .of_update rfl rfl rfl, ?_⟩
      rw [ht]
      exact .prepare
  next val ht =>
    cases hst
    refine ⟨.addWoken val, [], [], .of_update rfl rfl rfl, ?_⟩
    rw [ht]
    exact .prepare
  next val ht =>
    refine ⟨_, [], [], .of_lockMutex hst, ?_⟩
    rw [ht]
    exact .prepare
  next val answer ht =>
    have hstay : ∀ failure, some { s with failure := some failure } = some s' →
        ∃ p new old, Goes s s' .writer p new old ∧ Effect .writer (s.phase .writer).callPhase
          (CvPhase.outcome (s'.taken.getLastD noValue) (s.phase .writer) p) p.callPhase
          new old := by
      intro failure heq
      cases heq
      refine ⟨_, [], [], .stay rfl rfl rfl, ?_⟩
      rw [ht]
      exact .prepare
    split_ifs at hst with hle hfull
    · cases hst
      refine ⟨.unlocking 0, [], [], .of_update rfl rfl rfl, ?_⟩
      rw [ht]
      exact .refuse
    · cases answer with
      | none => exact hstay _ hst
      | some new =>
        obtain ⟨list, -, heq⟩ := Option.map_eq_some_iff.mp hst
        split at heq
        next => exact hstay _ (congrArg some heq)
        next list' _ =>
          cases heq
          refine ⟨.addSignal, [val], [], .of_phase rfl rfl (List.append_nil _).symm, ?_⟩
          rw [ht]
          exact .put
    · exact hstay _ hst
  next target ht =>
    refine ⟨_, [], [], .of_condSignal hst, ?_⟩
    rw [ht]
    exact .finish
  next result ht =>
    cases hst
    refine ⟨.outside, [], [], .of_update rfl rfl rfl, ?_⟩
    rw [ht]
    exact .return_
  next => cases hst

/-- Every step of the reader in its call. -/
lemma effect_queueGet (hst : s.queueGet .reader choice = some s') (hcall : choice.isCall = false) :
    ∃ p new old, Goes s s' .reader p new old ∧ Effect .reader (s.phase .reader).callPhase
      (CvPhase.outcome (s'.taken.getLastD noValue) (s.phase .reader) p) p.callPhase new old := by
  unfold queueGet at hst
  split at hst
  next => cases hcall
  next ht =>
    refine ⟨_, [], [], .of_lockMutex hst, ?_⟩
    rw [ht]
    exact .prepare
  next ht =>
    split_ifs at hst with hempty
    · cases hst
      refine ⟨.getAsleep, [], [], .of_update rfl rfl rfl, ?_⟩
      rw [ht]
      exact .prepare
    · cases hst
      refine ⟨.getBody, [], [], .of_update rfl rfl rfl, ?_⟩
      rw [ht]
      exact .prepare
  next ht =>
    cases hst
    refine ⟨.getWoken, [], [], .of_update rfl rfl rfl, ?_⟩
    rw [ht]
    exact .prepare
  next ht =>
    refine ⟨_, [], [], .of_lockMutex hst, ?_⟩
    rw [ht]
    exact .prepare
  next ht =>
    have hstay : ∀ failure, some { s with failure := some failure } = some s' →
        ∃ p new old, Goes s s' .reader p new old ∧ Effect .reader (s.phase .reader).callPhase
          (CvPhase.outcome (s'.taken.getLastD noValue) (s.phase .reader) p) p.callPhase
          new old := by
      intro failure heq
      cases heq
      refine ⟨_, [], [], .stay rfl rfl rfl, ?_⟩
      rw [ht]
      exact .prepare
    split_ifs at hst with hle hempty
    · cases hst
      refine ⟨.unlocking 0, [], [], .of_update rfl rfl rfl, ?_⟩
      rw [ht]
      exact .refuse
    · split at hst
      next => exact hstay _ hst
      next val list _ =>
        cases hst
        refine ⟨.getSignal, [], [val], .of_phase rfl (List.append_nil _).symm rfl, ?_⟩
        rw [ht]
        show Effect _ _ (.stored ((s.taken ++ [val]).getLastD noValue)) _ _ _
        rw [List.getLastD_concat]
        exact .take
    · exact hstay _ hst
  next target ht =>
    refine ⟨_, [], [], .of_condSignal hst, ?_⟩
    rw [ht]
    exact .finish
  next result ht =>
    cases hst
    refine ⟨.outside, [], [], .of_update rfl rfl rfl, ?_⟩
    rw [ht]
    exact .return_
  next => cases hst

/-- Every step of a thread in its call. -/
lemma effect_step (hst : CvQueue.step sideRole s (side, choice) = some s')
    (hcall : choice.isCall = false) :
    ∃ p new old, Goes s s' side p new old ∧ Effect side (s.phase side).callPhase
      (CvPhase.outcome (s'.taken.getLastD noValue) (s.phase side) p) p.callPhase new old := by
  unfold CvQueue.step at hst
  split_ifs at hst
  cases side with
  | writer => exact effect_queueAdd hst hcall
  | reader => exact effect_queueGet hst hcall

/-- The beginning of a call. -/
lemma goes_call {val : ℤ} (hst : CvQueue.step sideRole s (side, .call val) = some s') :
    s.phase side = .outside ∧ ∃ x, (side = .writer → x = val) ∧
      ∃ p, p.callPhase = .before x ∧ Goes s s' side p [] [] := by
  unfold CvQueue.step at hst
  split_ifs at hst
  cases side with
  | writer =>
    replace hst : s.queueAdd .writer (.call val) = some s' := hst
    unfold queueAdd at hst
    split at hst
    case h_1 _ _ val' ht hcall =>
      cases hcall
      cases hst
      exact ⟨ht, val, fun _ => rfl, .addLock val, rfl, .of_update rfl rfl rfl⟩
    all_goals first | cases hst; done | (rename_i hcall; cases hcall)
  | reader =>
    replace hst : s.queueGet .reader (.call val) = some s' := hst
    unfold queueGet at hst
    split at hst
    case h_1 _ _ val' ht hcall =>
      cases hst
      refine ⟨ht, noValue, ?_, .getLock, rfl, .of_update rfl rfl rfl⟩
      rintro ⟨⟩
    all_goals first | cases hst; done | (rename_i hcall; cases hcall)

/-- The queue is a channel. -/
def spec (capacity : ℕ) : Spec calls capacity where
  Inv s := ∃ l, Invariant sideRole capacity s l
  phase s side := (s.phase side).callPhase
  added := CvQueue.added
  taken := CvQueue.taken
  call := by
    rintro s s' side val ⟨l, hl⟩ hst
    obtain ⟨hout, x, hx, p, hp, hgoes⟩ := goes_call hst
    refine ⟨hl.step hst, x, ?_, hx, ?_, ?_, ?_⟩
    · funext u
      rw [hgoes.phase u, ← hp]
      exact Function.apply_update (fun _ => CvPhase.callPhase) s.phase side p u
    · rw [hout]
      rfl
    · rw [hgoes.added, List.append_nil]
    · rw [hgoes.taken, List.append_nil]
  step := by
    rintro s s' side choice outcome ⟨l, hl⟩ hst
    replace hst : (if choice.isCall then none
      else (CvQueue.step sideRole s (side, choice)).map fun s' =>
        (s', CvPhase.outcome (s'.taken.getLastD noValue) (s.phase side) (s'.phase side))) =
          some (s', outcome) := hst
    split_ifs at hst with hcall
    obtain ⟨t, ht, heq⟩ := Option.map_eq_some_iff.mp hst
    cases heq
    obtain ⟨p, new, old, hgoes, heffect⟩ := effect_step ht (Bool.eq_false_iff.mpr hcall)
    refine ⟨hl.step ht, p.callPhase, new, old, ?_, ?_, hgoes.added, hgoes.taken⟩
    · rw [hgoes.self]
      exact heffect
    · funext u
      rw [hgoes.phase u]
      exact Function.apply_update (fun _ => CvPhase.callPhase) s.phase side p u
  fifo := by
    rintro s ⟨l, hl⟩
    refine ⟨l.map Prod.snd, hl.fifo, ?_⟩
    rw [List.length_map]
    exact Int.ofNat_le.mp hl.bound

/-- The two threads over a queue of the given capacity. -/
abbrev pairStep : Pair (CvQueue Side) ℤ → Side × Option (CvChoice Side) →
    Option (Pair (CvQueue Side) ℤ) := Pair.step calls nextInt noValue

/-- A step of the queue in a call is one of the pair. -/
lemma exists_pairStep_some {s : Pair (CvQueue Side) ℤ}
    (hst : CvQueue.step sideRole s.channel (side, choice) = some s')
    (hcall : choice.isCall = false) :
    ∃ r, pairStep s (side, some choice) = some r ∧ r.channel = s' := by
  have hcalls : calls.step s.channel side choice = some (s', CvPhase.outcome
      (s'.taken.getLastD noValue) (s.channel.phase side) (s'.phase side)) := by
    unfold calls
    dsimp only
    rw [hcall, hst]
    rfl
  exact Pair.exists_step_some nextInt noValue hcalls

/-- The holder of the mutex neither begins a call nor is it woken. -/
lemma choice_of_holds (hst : CvQueue.step sideRole s (side, choice) = some s')
    (hholds : (s.phase side).holds = true) : choice.isCall = false ∧ choice ≠ .wakeUp := by
  unfold CvQueue.step at hst
  split_ifs at hst
  cases side with
  | writer =>
    replace hst : s.queueAdd .writer choice = some s' := hst
    unfold queueAdd at hst
    split at hst <;> rename_i hphase
    all_goals first
      | (cases hst; done)
      | (rw [hphase] at hholds; cases hholds; done)
      | exact ⟨rfl, by intro h; cases h⟩
  | reader =>
    replace hst : s.queueGet .reader choice = some s' := hst
    unfold queueGet at hst
    split at hst <;> rename_i hphase
    all_goals first
      | (cases hst; done)
      | (rw [hphase] at hholds; cases hholds; done)
      | exact ⟨rfl, by intro h; cases h⟩

/-- Some thread can make a step that is not a wake-up for no reason, and the program goes on. -/
lemma exists_pairStep {capacity : ℕ} {s : Pair (CvQueue Side) ℤ} {l : List (ℕ × ℤ)}
    (h : Invariant sideRole capacity s.channel l) (hcapacity : 1 ≤ capacity)
    (hfail : s.channel.failure = none) :
    ∃ side c s', c ≠ some .wakeUp ∧ pairStep s (side, c) = some s' ∧
      s'.channel.failure = none := by
  by_cases hfree : s.channel.lock = none
  · obtain ⟨t, hreader, hwriter⟩ := h.exists_awake (by exact_mod_cast hcapacity) ⟨.writer, rfl⟩
      ⟨.reader, rfl⟩
    by_cases hout : s.channel.phase t = .outside
    · have hcall : ∃ s', pairStep s (t, none) = some s' ∧ s'.channel.failure = none := by
        apply Pair.exists_step_none nextInt noValue (P := fun q : CvQueue Side => q.failure = none)
        intro val
        unfold calls CvQueue.step
        dsimp only
        rw [hfail]
        cases t with
        | writer =>
          unfold queueAdd
          rw [hout]
          exact ⟨_, rfl, hfail⟩
        | reader =>
          unfold queueGet
          rw [hout]
          exact ⟨_, rfl, hfail⟩
      obtain ⟨s', hs', hfail'⟩ := hcall
      exact ⟨t, none, s', (Option.some_ne_none _).symm, hs', hfail'⟩
    · have hpoint : (s.channel.phase t).cancellationPoint = false := by
        cases hphase : s.channel.phase t with
        | outside => exact absurd hphase hout
        | addAsleep | getAsleep =>
          rw [hphase] at hreader hwriter
          first | exact Bool.noConfusion hreader | exact Bool.noConfusion hwriter
        | _ => rfl
      obtain ⟨s', hst, hfail', -⟩ := exists_step_of_free h hfail hfree hpoint
      obtain ⟨r, hr, hchannel⟩ := exists_pairStep_some hst rfl
      refine ⟨t, some .go, r, ?_, hr, hchannel ▸ hfail'⟩
      rintro ⟨⟩
  · obtain ⟨t, ht⟩ := Option.ne_none_iff_exists'.mp hfree
    have hholds := (h.guarded t).mpr ht
    obtain ⟨choice, s', hst, hadvances⟩ := exists_step_of_holds h hfail hholds
    obtain ⟨hcall, hwake⟩ := choice_of_holds hst hholds
    obtain ⟨r, hr, hchannel⟩ := exists_pairStep_some hst hcall
    exact ⟨t, some choice, r, fun heq => hwake (Option.some.inj heq), hr,
      hchannel ▸ hadvances.1⟩

/-- In every run of the reader and the writer, wake-ups for no reason included: the values are in
order, and unless a `malloc` has failed some thread can make a step that is no such wake-up. -/
theorem condvar_reader_gets_every_value {capacity : ℕ} (hcapacity : 1 ≤ capacity)
    {s : Pair (CvQueue Side) ℤ}
    (h : Reachable pairStep (Pair.init (CvQueue.init capacity) 0 noValue) s) :
    InOrder capacity s.channel.added s.channel.taken s ∧
    (s.channel.failure = none ∨ s.channel.failure = some .outOfMemory) ∧
    (s.channel.failure = none →
      ∃ side c s', c ≠ some .wakeUp ∧ pairStep s (side, c) = some s' ∧
        s'.channel.failure = none) := by
  have hinit : (spec capacity).Inv (CvQueue.init capacity) :=
    ⟨[], Invariant.init (Int.natCast_nonneg capacity)⟩
  have horder := inOrder_of_run (spec capacity) hinit (fun _ => rfl) rfl rfl h
  obtain ⟨l, hl⟩ := (Pair.counts_of_run hinit (fun _ => rfl) rfl rfl h).channel
  exact ⟨horder, hl.failure, exists_pairStep hl hcapacity⟩

/-- The reader waits for the first value and gets it. -/
theorem condvar_reader_gets_every_value_first : ∃ s : Pair (CvQueue Side) ℤ,
    s.expected = 1 ∧ s.index = 1 ∧ InOrder 1 s.channel.added s.channel.taken s ∧
    (s.channel.failure = none ∨ s.channel.failure = some .outOfMemory) ∧
    (s.channel.failure = none →
      ∃ side c s', c ≠ some .wakeUp ∧ pairStep s (side, c) = some s' ∧
        s'.channel.failure = none) := by
  have hrun := Run.get_execWhere pairStep anyStep (Pair.init (CvQueue.init (1 : ℕ)) 0 noValue)
    [(.reader, none), (.reader, some .go), (.reader, some .go), (.writer, none),
      (.writer, some .go), (.writer, some .go), (.writer, some (.malloc (some 0))),
      (.writer, some (.signal (some .reader))), (.writer, some .go), (.reader, some .go),
      (.reader, some .go), (.reader, some .go), (.reader, some (.signal none)),
      (.reader, some .go)] (by decide)
  exact ⟨_, by decide, by decide, condvar_reader_gets_every_value (Nat.le_refl 1) hrun⟩

end CvQueue

end OsLabs.BoundedQueue
