import OsLabs.Foundation.Transition
import Mathlib.Data.Fintype.Basic
import Mathlib.Data.List.Iterate

/-!
# A writer and a reader over a channel

Two threads use a channel in endless loops.  The writer puts in the values `v`, `succ v`,
`succ (succ v)` and so on, each of them again until the channel takes it; the reader gets values and
counts how often a value is not the successor of the one before.

`Calls` is how a program uses a channel: a call begins, makes steps, stores a value for its caller
and returns.  `Spec` is what a channel promises: a call has one effect, which is to put its value
behind the others, to take the first one, or to be refused.  For every such channel the reader
counts no error (`Pair.counts_of_run`).

`Closing` is what a channel promises beyond that, so that the threads can be cancelled and the
channel destroyed; `Program` is the pair of threads with a main thread that does so, and
`Program.ends_of_run` says that it comes to its end.
-/

namespace Channel

open Transition

variable {σ χ V δ : Type*}

/-! ## Channels -/

/-- The two threads. -/
inductive Side
  | writer
  | reader
  deriving DecidableEq, Repr

instance : Fintype Side where
  elems := {.writer, .reader}
  complete side := by cases side <;> decide

/-- Where a thread is in a call. -/
inductive CallPhase (V : Type*)
  | outside
  /-- In a call with the value, which had no effect so far. -/
  | before (v : V)
  /-- The call had its effect, or was refused. -/
  | after (ok : Bool)
  deriving DecidableEq, Repr

/-- What a step in a call means to the caller. -/
inductive Outcome (V : Type*)
  | inside
  /-- A value is stored for the caller. -/
  | stored (v : V)
  /-- The call returns. -/
  | returned (ok : Bool)
  deriving DecidableEq, Repr

/-- The variable that is advanced when a call returns: `succ x`, and before that `y`. -/
def Outcome.advance (succ : V → V) (x y : V) : Outcome V → V
  | .returned true => succ x
  | _ => y

/-- The variable that a value is stored in. -/
def Outcome.store (x : V) : Outcome V → V
  | .stored v => v
  | _ => x

/-- The operations of a channel. -/
structure Calls (σ χ V : Type*) where
  /-- A thread begins a call, with a value. -/
  call : σ → Side → V → Option σ
  /-- A step of a thread in its call, with a choice that the program does not make. -/
  step : σ → Side → χ → Option (σ × Outcome V)

/-- Everything that a step in a call can do: the phase before and after it, its outcome, and the
values that are put into the channel and taken from it. -/
inductive Effect : Side → CallPhase V → Outcome V → CallPhase V → List V → List V → Prop
  | prepare {side v} : Effect side (.before v) .inside (.before v) [] []
  | finish {side ok} : Effect side (.after ok) .inside (.after ok) [] []
  | put {v} : Effect .writer (.before v) .inside (.after true) [v] []
  | take {v x} : Effect .reader (.before v) (.stored x) (.after true) [] [x]
  | refuse {side v} : Effect side (.before v) .inside (.after false) [] []
  | return_ {side ok} : Effect side (.after ok) (.returned ok) .outside [] []

/-- What a channel promises. -/
structure Spec (calls : Calls σ χ V) (capacity : ℕ) where
  Inv : σ → Prop
  phase : σ → Side → CallPhase V
  /-- All values that were put in, and all that were taken out. -/
  added : σ → List V
  taken : σ → List V
  call : ∀ {s s' side v}, Inv s → calls.call s side v = some s' → Inv s' ∧
    ∃ x, phase s' = Function.update (phase s) side (.before x) ∧ (side = .writer → x = v) ∧
      phase s side = .outside ∧ added s' = added s ∧ taken s' = taken s
  step : ∀ {s s' side c outcome}, Inv s → calls.step s side c = some (s', outcome) → Inv s' ∧
    ∃ p new old, Effect side (phase s side) outcome p new old ∧
      phase s' = Function.update (phase s) side p ∧
      added s' = added s ++ new ∧ taken s' = taken s ++ old
  fifo : ∀ {s}, Inv s → ∃ rest, added s = taken s ++ rest ∧ rest.length ≤ capacity

/-! ## The pair -/

/-- The channel with the variables of the two threads. -/
structure Pair (σ V : Type*) where
  channel : σ
  /-- The value that the writer puts in. -/
  index : V
  /-- The value that the reader expects, the last one stored for it, and how often they differed. -/
  expected : V
  val : V
  errors : ℕ

namespace Pair

/-- Nothing was sent. -/
def init (channel : σ) (v blank : V) : Pair σ V := ⟨channel, v, v, blank, 0⟩

/-- What a thread does with the outcome of a step. -/
def absorb [DecidableEq V] (succ : V → V) (s : Pair σ V) (outcome : Outcome V) : Side → Pair σ V
  | .writer => { s with index := outcome.advance succ s.index s.index }
  | .reader => { s with
      expected := outcome.advance succ s.val s.expected
      val := outcome.store s.val
      errors := s.errors + if outcome = .returned true ∧ s.expected ≠ s.val then 1 else 0 }

/-- A step of a thread: it begins a call (`none`) or goes on with it. -/
def step [DecidableEq V] (calls : Calls σ χ V) (succ : V → V) (blank : V) (s : Pair σ V) :
    Side × Option χ → Option (Pair σ V)
  | (.writer, none) =>
    (calls.call s.channel .writer s.index).map fun channel => { s with channel := channel }
  | (.reader, none) =>
    (calls.call s.channel .reader blank).map fun channel =>
      { s with channel := channel, val := blank }
  | (side, some c) =>
    (calls.step s.channel side c).map fun (channel, outcome) =>
      { s with channel := channel }.absorb succ outcome side

end Pair

/-- One for a call that had its effect. -/
def CallPhase.done : CallPhase V → ℕ
  | .after true => 1
  | _ => 0

section Rules

variable [DecidableEq V] {calls : Calls σ χ V} {capacity : ℕ} {succ : V → V} {v blank : V}
  {s s' : Pair σ V} {side : Side}

namespace Pair

/-- The writer's variable is the value for its next call, until the call had its effect. -/
structure Writes (succ : V → V) (v : V) (added : List V) (index : V) (phase : CallPhase V) : Prop
    where
  exists_index : ∃ n, added = List.iterate succ v (n + phase.done) ∧ index = succ^[n] v
  before : ∀ x, phase = .before x → x = index

/-- The reader's variable is the value that it gets next, until the call had its effect; the value
stored for it is then the expected one. -/
structure Reads (succ : V → V) (v : V) (taken : List V) (expected val : V) (phase : CallPhase V) :
    Prop where
  exists_expected : ∃ n, taken.length = n + phase.done ∧ expected = succ^[n] v
  after : phase = .after true → val = expected

/-- What holds of a pair. -/
structure Counts (spec : Spec calls capacity) (succ : V → V) (v : V) (s : Pair σ V) : Prop where
  channel : spec.Inv s.channel
  writes : Writes succ v (spec.added s.channel) s.index (spec.phase s.channel .writer)
  reads : Reads succ v (spec.taken s.channel) s.expected s.val (spec.phase s.channel .reader)
  errors : s.errors = 0

omit [DecidableEq V] in
/-- A value that is taken is the one that is due. -/
lemma eq_of_fifo {taken rest : List V} {x : V} {n : ℕ}
    (h : List.iterate succ v n = taken ++ [x] ++ rest) : x = succ^[taken.length] v := by
  have hget : (List.iterate succ v n)[taken.length]? = some x := by
    rw [h, List.append_assoc, List.getElem?_append_right (Nat.le_refl _), Nat.sub_self]
    rfl
  have hlt : taken.length < n := by
    have hlen := congrArg List.length h
    rw [List.length_iterate, List.length_append, List.length_append, List.length_singleton] at hlen
    omega
  rw [List.getElem?_iterate succ v n _ hlt, Option.some.injEq] at hget
  exact hget.symm

omit [DecidableEq V] in
/-- The value of the writer comes behind the others. -/
lemma iterate_concat (succ : V → V) (v : V) (n : ℕ) :
    List.iterate succ v n ++ [succ^[n] v] = List.iterate succ v (n + 1) := by
  rw [List.iterate_add]
  rfl

omit [DecidableEq V] in
/-- The writer takes nothing out. -/
lemma old_of_writer {p p' : CallPhase V} {outcome : Outcome V} {new old : List V}
    (he : Effect .writer p outcome p' new old) : old = [] := by
  cases he <;> rfl

omit [DecidableEq V] in
/-- The reader puts nothing in, and takes out one value at most. -/
lemma values_of_reader {p p' : CallPhase V} {outcome : Outcome V} {new old : List V}
    (he : Effect .reader p outcome p' new old) : new = [] ∧ ∀ x ∈ old, old = [x] := by
  refine ⟨by cases he <;> rfl, ?_⟩
  intro x hx
  cases he with
  | take => rw [List.mem_singleton.mp hx]
  | _ => cases hx

omit [DecidableEq V] in
/-- A step of the writer in its call. -/
lemma Writes.step {added new old : List V} {index : V} {p p' : CallPhase V} {outcome : Outcome V}
    (h : Writes succ v added index p) (he : Effect .writer p outcome p' new old) :
    Writes succ v (added ++ new) (outcome.advance succ index index) p' := by
  obtain ⟨⟨n, hn, hindex⟩, hbefore⟩ := h
  cases he with
  | prepare | finish =>
    rw [List.append_nil]
    exact ⟨⟨n, hn, hindex⟩, hbefore⟩
  | put =>
    rw [hbefore _ rfl]
    refine ⟨⟨n, ?_, hindex⟩, ?_⟩
    · rw [hn, hindex]
      exact iterate_concat succ v n
    · rintro x ⟨⟩
  | refuse =>
    rw [List.append_nil]
    refine ⟨⟨n, hn, hindex⟩, ?_⟩
    rintro x ⟨⟩
  | @return_ _ ok =>
    rw [List.append_nil]
    refine ⟨?_, ?_⟩
    · cases ok with
      | false => exact ⟨n, hn, hindex⟩
      | true =>
        refine ⟨n + 1, hn, ?_⟩
        rw [Function.iterate_succ_apply', ← hindex]
        rfl
    · rintro x ⟨⟩

omit [DecidableEq V] in
/-- A step of the reader in its call, when what it takes is what is due. -/
lemma Reads.step {taken new old : List V} {expected val : V} {p p' : CallPhase V}
    {outcome : Outcome V} (h : Reads succ v taken expected val p)
    (he : Effect .reader p outcome p' new old) (hdue : ∀ x ∈ old, x = succ^[taken.length] v) :
    Reads succ v (taken ++ old) (outcome.advance succ val expected) (outcome.store val) p' := by
  obtain ⟨⟨n, hn, hexpected⟩, hafter⟩ := h
  cases he with
  | prepare | finish =>
    rw [List.append_nil]
    exact ⟨⟨n, hn, hexpected⟩, hafter⟩
  | @take _ x =>
    refine ⟨⟨n, ?_, hexpected⟩, ?_⟩
    · rw [List.length_append, hn]
      rfl
    · intro _
      show x = expected
      rw [hdue x List.mem_cons_self, hexpected, hn]
      rfl
  | refuse =>
    rw [List.append_nil]
    refine ⟨⟨n, hn, hexpected⟩, ?_⟩
    rintro ⟨⟩
  | @return_ _ ok =>
    rw [List.append_nil]
    refine ⟨?_, ?_⟩
    · cases ok with
      | false => exact ⟨n, hn, hexpected⟩
      | true =>
        refine ⟨n + 1, hn, ?_⟩
        show succ val = _
        rw [hafter rfl, hexpected, Function.iterate_succ_apply']
    · rintro ⟨⟩

omit [DecidableEq V] in
/-- When the call of the reader returns a value, it is the one that it expects. -/
lemma Reads.val_eq {taken new old : List V} {expected val : V} {p p' : CallPhase V}
    (h : Reads succ v taken expected val p)
    (he : Effect .reader p (.returned true) p' new old) : expected = val := by
  cases he with
  | return_ => exact (h.after rfl).symm

/-- A step in a call. -/
lemma Counts.inside {spec : Spec calls capacity} (h : Counts spec succ v s) {channel : σ}
    (hinv : spec.Inv channel) {outcome : Outcome V} {p : CallPhase V} {new old : List V}
    (he : Effect side (spec.phase s.channel side) outcome p new old)
    (hphase : spec.phase channel = Function.update (spec.phase s.channel) side p)
    (hadded : spec.added channel = spec.added s.channel ++ new)
    (htaken : spec.taken channel = spec.taken s.channel ++ old) :
    Counts spec succ v ({ s with channel := channel }.absorb succ outcome side) := by
  have hself : spec.phase channel side = p := by rw [hphase, Function.update_self]
  cases side with
  | writer =>
    have hreader : spec.phase channel .reader = spec.phase s.channel .reader := by
      rw [hphase, Function.update_of_ne (by decide)]
    have hold := old_of_writer he
    have hreads := h.reads
    have hwrites := h.writes.step he
    rw [← hadded, ← hself] at hwrites
    rw [← List.append_nil (spec.taken s.channel), ← hold, ← htaken, ← hreader] at hreads
    exact ⟨hinv, hwrites, hreads, h.errors⟩
  | reader =>
    have hwriter : spec.phase channel .writer = spec.phase s.channel .writer := by
      rw [hphase, Function.update_of_ne (by decide)]
    obtain ⟨hnew, hone⟩ := values_of_reader he
    have hwrites := h.writes
    rw [← List.append_nil (spec.added s.channel), ← hnew, ← hadded, ← hwriter] at hwrites
    -- the channel is first in, first out, so what is taken is what is due
    have hdue : ∀ x ∈ old, x = succ^[(spec.taken s.channel).length] v := by
      intro x hx
      obtain ⟨rest, hrest, -⟩ := spec.fifo hinv
      obtain ⟨⟨m, hm, -⟩, -⟩ := hwrites
      rw [hm, htaken, hone x hx] at hrest
      exact eq_of_fifo hrest
    have hreads := h.reads.step he hdue
    rw [← htaken, ← hself] at hreads
    refine ⟨hinv, hwrites, hreads, ?_⟩
    show s.errors + (if outcome = .returned true ∧ s.expected ≠ s.val then 1 else 0) = 0
    rw [if_neg, h.errors]
    rintro ⟨rfl, hne⟩
    exact hne (h.reads.val_eq he)

omit [DecidableEq V] in
/-- The beginning of a call. -/
lemma Counts.call {spec : Spec calls capacity} (h : Counts spec succ v s) {channel : σ} {val : V}
    (hinv : spec.Inv channel) {x : V}
    (hphase : spec.phase channel = Function.update (spec.phase s.channel) side (.before x))
    (hout : spec.phase s.channel side = .outside)
    (hadded : spec.added channel = spec.added s.channel)
    (htaken : spec.taken channel = spec.taken s.channel)
    (hx : side = .writer → x = s.index) (hval : side = .writer → val = s.val) :
    Counts spec succ v { s with channel := channel, val := val } := by
  obtain ⟨⟨n, hn, hindex⟩, hbefore⟩ := h.writes
  obtain ⟨⟨m, hm, hexpected⟩, hafter⟩ := h.reads
  have hself : spec.phase channel side = .before x := by rw [hphase, Function.update_self]
  cases side with
  | writer =>
    have hreader : spec.phase channel .reader = spec.phase s.channel .reader := by
      rw [hphase, Function.update_of_ne (by decide)]
    rw [hout] at hn
    refine ⟨hinv, ⟨⟨n, ?_, hindex⟩, ?_⟩, ⟨⟨m, ?_, hexpected⟩, ?_⟩, h.errors⟩
    · rw [hadded, hself]
      exact hn
    · intro y hy
      rw [hself, CallPhase.before.injEq] at hy
      exact hy.symm.trans (hx rfl)
    · rw [htaken, hreader]
      exact hm
    · intro hok
      rw [hreader] at hok
      exact (hval rfl).trans (hafter hok)
  | reader =>
    have hwriter : spec.phase channel .writer = spec.phase s.channel .writer := by
      rw [hphase, Function.update_of_ne (by decide)]
    rw [hout] at hm
    refine ⟨hinv, ⟨⟨n, ?_, hindex⟩, ?_⟩, ⟨⟨m, ?_, hexpected⟩, ?_⟩, h.errors⟩
    · rw [hadded, hwriter]
      exact hn
    · intro y hy
      rw [hwriter] at hy
      exact hbefore y hy
    · rw [htaken, hself]
      exact hm
    · intro hok
      rw [hself] at hok
      cases hok

/-- Every step of the pair. -/
lemma Counts.step {spec : Spec calls capacity} (h : Counts spec succ v s) {e : Side × Option χ}
    (hst : Pair.step calls succ blank s e = some s') : Counts spec succ v s' := by
  obtain ⟨side, c⟩ := e
  cases c with
  | none =>
    cases side with
    | writer =>
      obtain ⟨channel, hcall, rfl⟩ := Option.map_eq_some_iff.mp hst
      obtain ⟨hinv, x, hphase, hx, hout, hadded, htaken⟩ := spec.call h.channel hcall
      exact h.call hinv hphase hout hadded htaken hx (fun _ => rfl)
    | reader =>
      obtain ⟨channel, hcall, rfl⟩ := Option.map_eq_some_iff.mp hst
      obtain ⟨hinv, x, hphase, -, hout, hadded, htaken⟩ := spec.call h.channel hcall
      exact h.call hinv hphase hout hadded htaken (by rintro ⟨⟩) (by rintro ⟨⟩)
  | some c =>
    have hst' : (calls.step s.channel side c).map (fun (channel, outcome) =>
        { s with channel := channel }.absorb succ outcome side) = some s' := by
      cases side
      · exact hst
      · exact hst
    obtain ⟨⟨channel, outcome⟩, hstep, rfl⟩ := Option.map_eq_some_iff.mp hst'
    obtain ⟨hinv, p, new, old, he, hphase, hadded, htaken⟩ := spec.step h.channel hstep
    exact h.inside hinv he hphase hadded htaken

variable (succ blank) in
/-- A thread outside can begin a call. -/
lemma exists_step_none {P : σ → Prop}
    (h : ∀ x, ∃ channel, calls.call s.channel side x = some channel ∧ P channel) :
    ∃ s', Pair.step calls succ blank s (side, none) = some s' ∧ P s'.channel := by
  cases side with
  | writer =>
    obtain ⟨channel, hcall, hp⟩ := h s.index
    exact ⟨{ s with channel := channel }, Option.map_eq_some_iff.mpr ⟨channel, hcall, rfl⟩, hp⟩
  | reader =>
    obtain ⟨channel, hcall, hp⟩ := h blank
    exact ⟨{ s with channel := channel, val := blank },
      Option.map_eq_some_iff.mpr ⟨channel, hcall, rfl⟩, hp⟩

variable (succ blank) in
/-- A thread in a call can go on. -/
lemma exists_step_some {c : χ} {channel : σ} {outcome : Outcome V}
    (h : calls.step s.channel side c = some (channel, outcome)) :
    ∃ s', Pair.step calls succ blank s (side, some c) = some s' ∧ s'.channel = channel := by
  refine ⟨{ s with channel := channel }.absorb succ outcome side, ?_, ?_⟩
  · cases side <;> exact Option.map_eq_some_iff.mpr ⟨_, h, rfl⟩
  · cases side <;> rfl

omit [DecidableEq V] in
/-- Before the first call nothing was sent. -/
lemma Counts.init {spec : Spec calls capacity} {channel : σ} (hinv : spec.Inv channel)
    (hout : ∀ side, spec.phase channel side = .outside) (hadded : spec.added channel = [])
    (htaken : spec.taken channel = []) : Counts spec succ v (Pair.init channel v blank) where
  channel := hinv
  writes := by
    show Writes succ v (spec.added channel) v (spec.phase channel .writer)
    rw [hout, hadded]
    refine ⟨⟨0, rfl, rfl⟩, ?_⟩
    rintro x ⟨⟩
  reads := by
    show Reads succ v (spec.taken channel) v blank (spec.phase channel .reader)
    rw [hout, htaken]
    refine ⟨⟨0, rfl, rfl⟩, ?_⟩
    rintro ⟨⟩
  errors := rfl

omit [DecidableEq V] in
/-- What was put in are the first values, and what was taken the first ones of them; no more than
the capacity are between; and the reader has counted no error. -/
lemma Counts.result {spec : Spec calls capacity} (h : Counts spec succ v s) :
    s.errors = 0 ∧ ∃ n m, spec.added s.channel = List.iterate succ v n ∧
      spec.taken s.channel = List.iterate succ v m ∧ m ≤ n ∧ n ≤ m + capacity := by
  obtain ⟨rest, hrest, hle⟩ := spec.fifo h.channel
  obtain ⟨⟨n, hn, -⟩, -⟩ := h.writes
  have hlen := congrArg List.length hrest
  rw [hn, List.length_iterate, List.length_append] at hlen
  refine ⟨h.errors, _, (spec.taken s.channel).length, hn, ?_, by omega, by omega⟩
  have hprefix : spec.taken s.channel <+: spec.added s.channel := ⟨rest, hrest.symm⟩
  rw [List.prefix_iff_eq_take, hn, List.take_iterate, Nat.min_eq_left (by omega)] at hprefix
  exact hprefix

end Pair

/-- A pair counts right after every run. -/
theorem Pair.counts_of_run {spec : Spec calls capacity} {channel : σ} (hinv : spec.Inv channel)
    (hout : ∀ side, spec.phase channel side = .outside) (hadded : spec.added channel = [])
    (htaken : spec.taken channel = [])
    (h : Reachable (Pair.step calls succ blank) (Pair.init channel v blank) s) :
    Pair.Counts spec succ v s :=
  h.invariant (Pair.Counts.init hinv hout hadded htaken) fun _ _ _ hc _ hst => hc.step hst

end Rules

/-! ## The end of the pair -/

/-- The operations that the end of the threads and of the channel needs. -/
structure EndCalls (σ δ : Type*) where
  /-- The program was not aborted. -/
  live : σ → Bool
  /-- A thread that is cancelled ends here. -/
  cancellable : σ → Side → Bool
  /-- The destruction of the channel, with what is left in memory. -/
  destroy : σ → Option δ

/-- What a channel promises beyond its specification: a call takes a bounded number of steps, the
threads do not block each other outside of the places where they can be cancelled, and nothing is
left when the channel is destroyed. -/
structure Closing {calls : Calls σ χ V} {capacity : ℕ} (spec : Spec calls capacity)
    (ends : EndCalls σ δ) (Clean : δ → Prop) where
  toDo : σ → Side → ℕ
  bound : ℕ
  toDo_le : ∀ {s side}, spec.Inv s → toDo s side ≤ bound
  call : ∀ {s s' side v u}, spec.Inv s → calls.call s side v = some s' → u ≠ side →
    ends.cancellable s' u = ends.cancellable s u
  step : ∀ {s s' side c outcome}, spec.Inv s → calls.step s side c = some (s', outcome) →
    toDo s' side + 1 ≤ toDo s side ∧
      ∀ u, u ≠ side → toDo s' u ≤ toDo s u ∧ ends.cancellable s' u = ends.cancellable s u
  exists_step : ∀ {s side}, spec.Inv s → ends.live s = true → ends.cancellable s side = false →
    ∃ u c s' outcome, ends.cancellable s u = false ∧ calls.step s u c = some (s', outcome) ∧
      ends.live s' = true
  destroy : ∀ {s}, spec.Inv s → ends.live s = true → (∀ side, ends.cancellable s side = true) →
    ∃ d, ends.destroy s = some d ∧ Clean d

/-- Where the main thread is. -/
inductive MainPlace
  /-- Before the reader is cancelled. -/
  | sleep
  /-- Before the writer is cancelled. -/
  | cancelWriter
  | joinReader
  | joinWriter
  /-- Before the channel is destroyed. -/
  | destroy
  | returned
  deriving DecidableEq, Repr

namespace MainPlace

/-- A cancellation is pending for the thread, or has taken effect. -/
def cancelled : MainPlace → Side → Bool
  | .sleep, _ => false
  | .cancelWriter, .writer => false
  | _, _ => true

/-- The thread was joined. -/
def joined : MainPlace → Side → Bool
  | .joinWriter, .reader | .destroy, _ | .returned, _ => true
  | _, _ => false

/-- How many steps are left. -/
def left : MainPlace → ℕ
  | .sleep => 5
  | .cancelWriter => 4
  | .joinReader => 3
  | .joinWriter => 2
  | .destroy => 1
  | .returned => 0

/-- Three steps are left when both threads are to be cancelled. -/
lemma left_le {p : MainPlace} (h : p.cancelled .writer = true) : p.left ≤ 3 := by
  revert h
  cases p <;> decide

end MainPlace

/-- The pair with its main thread. -/
structure Program (σ V δ : Type*) where
  pair : Pair σ V
  ended : Side → Bool
  main : MainPlace
  destroyed : Option δ

/-- Who makes the next step. -/
inductive ProgramEvent (χ : Type*)
  /-- A thread in its loop. -/
  | loop (side : Side) (c : Option χ)
  /-- A cancellation takes effect. -/
  | cancel (side : Side)
  | main
  deriving DecidableEq, Repr

namespace Program

/-- The threads start. -/
def init (channel : σ) (v blank : V) : Program σ V δ :=
  ⟨Pair.init channel v blank, fun _ => false, .sleep, none⟩

/-- A step of the main thread. -/
def mainStep (ends : EndCalls σ δ) (s : Program σ V δ) : Option (Program σ V δ) :=
  match s.main with
  | .sleep => some { s with main := .cancelWriter }
  | .cancelWriter => some { s with main := .joinReader }
  | .joinReader => if s.ended .reader then some { s with main := .joinWriter } else none
  | .joinWriter => if s.ended .writer then some { s with main := .destroy } else none
  | .destroy =>
    (ends.destroy s.pair.channel).map fun d => { s with main := .returned, destroyed := some d }
  | .returned => none

/-- A step of the program. A thread that is to be cancelled begins no call. -/
def step [DecidableEq V] (calls : Calls σ χ V) (ends : EndCalls σ δ) (succ : V → V) (blank : V)
    (s : Program σ V δ) (e : ProgramEvent χ) : Option (Program σ V δ) :=
  if !ends.live s.pair.channel then none
  else
    match e with
    | .loop side c =>
      if s.ended side || c.isNone && s.main.cancelled side then none
      else (s.pair.step calls succ blank (side, c)).map fun pair => { s with pair := pair }
    | .cancel side =>
      if !s.ended side && s.main.cancelled side && ends.cancellable s.pair.channel side then
        some { s with ended := Function.update s.ended side true }
      else none
    | .main => s.mainStep ends

section Rules

variable [DecidableEq V] {calls : Calls σ χ V} {capacity : ℕ} {spec : Spec calls capacity}
  {ends : EndCalls σ δ} {Clean : δ → Prop} {succ : V → V} {v blank : V} {s s' : Program σ V δ}
  {side : Side} {e : ProgramEvent χ}

/-- What holds of a program. -/
structure Ends (spec : Spec calls capacity) (ends : EndCalls σ δ) (Clean : δ → Prop)
    (succ : V → V) (v : V) (s : Program σ V δ) : Prop where
  counts : Pair.Counts spec succ v s.pair
  /-- A thread ends where it can be cancelled, and does not move any more. -/
  ended : ∀ side, s.ended side = true →
    ends.cancellable s.pair.channel side = true ∧ s.main.cancelled side = true
  joined : ∀ side, s.main.joined side = true → s.ended side = true
  destroyed : s.main = .returned → ∃ d, s.destroyed = some d ∧ Clean d

/-- What is left to do once both threads are to be cancelled. -/
def potential (closing : Closing spec ends Clean) (s : Program σ V δ) : ℕ :=
  closing.toDo s.pair.channel .writer + closing.toDo s.pair.channel .reader +
    (!s.ended .writer).toNat + (!s.ended .reader).toNat + s.main.left

/-- A step of the pair does not touch the other thread, and a step in a call leaves less to do. -/
lemma pair_frame (closing : Closing spec ends Clean) (hinv : spec.Inv s.pair.channel)
    {c : Option χ} {pair : Pair σ V}
    (hst : s.pair.step calls succ blank (side, c) = some pair) :
    (∀ u, u ≠ side → ends.cancellable pair.channel u = ends.cancellable s.pair.channel u) ∧
    (c.isSome = true → closing.toDo pair.channel side + 1 ≤ closing.toDo s.pair.channel side ∧
      ∀ u, u ≠ side → closing.toDo pair.channel u ≤ closing.toDo s.pair.channel u) := by
  cases c with
  | none =>
    refine ⟨?_, fun h => (Bool.noConfusion h)⟩
    intro u hu
    cases side with
    | writer =>
      obtain ⟨channel, hcall, rfl⟩ := Option.map_eq_some_iff.mp hst
      exact closing.call hinv hcall hu
    | reader =>
      obtain ⟨channel, hcall, rfl⟩ := Option.map_eq_some_iff.mp hst
      exact closing.call hinv hcall hu
  | some c =>
    have hst' : ∃ channel outcome, calls.step s.pair.channel side c = some (channel, outcome) ∧
        pair.channel = channel := by
      cases side with
      | writer =>
        obtain ⟨⟨channel, outcome⟩, hstep, rfl⟩ := Option.map_eq_some_iff.mp hst
        exact ⟨channel, outcome, hstep, rfl⟩
      | reader =>
        obtain ⟨⟨channel, outcome⟩, hstep, rfl⟩ := Option.map_eq_some_iff.mp hst
        exact ⟨channel, outcome, hstep, rfl⟩
    obtain ⟨channel, outcome, hstep, hchannel⟩ := hst'
    obtain ⟨hlt, hothers⟩ := closing.step hinv hstep
    rw [hchannel]
    exact ⟨fun u hu => (hothers u hu).2, fun _ => ⟨hlt, fun u hu => (hothers u hu).1⟩⟩

/-- Whoever is not the given thread is the other one. -/
lemma two_sides (f : Side → ℕ) (side : Side) :
    ∃ u, u ≠ side ∧ f .writer + f .reader = f side + f u := by
  cases side with
  | writer => exact ⟨.reader, by decide, rfl⟩
  | reader => exact ⟨.writer, by decide, Nat.add_comm _ _⟩

/-- A step of a thread in its loop. -/
lemma Ends.loop (h : Ends spec ends Clean succ v s) (closing : Closing spec ends Clean)
    {c : Option χ} {pair : Pair σ V} (hrun : s.ended side = false)
    (hcall : c = none → s.main.cancelled side = false)
    (hst : s.pair.step calls succ blank (side, c) = some pair) :
    Ends spec ends Clean succ v { s with pair := pair } ∧
      (s.main.cancelled side = true →
        potential closing { s with pair := pair } + 1 ≤ potential closing s) := by
  obtain ⟨hframe, hless⟩ := pair_frame closing h.counts.channel hst
  refine ⟨⟨h.counts.step hst, ?_, h.joined, h.destroyed⟩, ?_⟩
  · intro u hu
    have hne : u ≠ side := by
      rintro rfl
      exact Bool.false_ne_true (hrun.symm.trans hu)
    obtain ⟨hplace, hcancelled⟩ := h.ended u hu
    exact ⟨(hframe u hne).trans hplace, hcancelled⟩
  · intro hcancelled
    have hsome : c.isSome = true := by
      rw [Option.isSome_iff_ne_none]
      intro hnone
      exact Bool.false_ne_true ((hcall hnone).symm.trans hcancelled)
    obtain ⟨hlt, hothers⟩ := hless hsome
    have hsum : closing.toDo pair.channel .writer + closing.toDo pair.channel .reader + 1 ≤
        closing.toDo s.pair.channel .writer + closing.toDo s.pair.channel .reader := by
      obtain ⟨u, hu, heq⟩ := two_sides (closing.toDo pair.channel) side
      obtain ⟨u', hu', heq'⟩ := two_sides (closing.toDo s.pair.channel) side
      have huu : u' = u := by
        revert hu hu'
        cases side <;> cases u <;> cases u' <;> decide
      have hother := hothers u hu
      rw [heq, heq', huu]
      omega
    show _ + _ + _ + _ + _ + 1 ≤ _ + _ + _ + _ + _
    dsimp only
    omega

omit [DecidableEq V] in
/-- A cancellation takes effect. -/
lemma Ends.cancel (h : Ends spec ends Clean succ v s) (closing : Closing spec ends Clean)
    (hrun : s.ended side = false) (hcancelled : s.main.cancelled side = true)
    (hplace : ends.cancellable s.pair.channel side = true) :
    Ends spec ends Clean succ v { s with ended := Function.update s.ended side true } ∧
      potential closing { s with ended := Function.update s.ended side true } + 1 ≤
        potential closing s := by
  have hupdate : ∀ u, Function.update s.ended side true u = true ↔ u = side ∨ s.ended u = true := by
    intro u
    by_cases hu : u = side
    · rw [hu, Function.update_self]
      exact iff_of_true rfl (Or.inl rfl)
    · rw [Function.update_of_ne hu]
      exact (or_iff_right hu).symm
  refine ⟨⟨h.counts, ?_, ?_, h.destroyed⟩, ?_⟩
  · intro u hu
    rcases (hupdate u).mp hu with rfl | hu
    · exact ⟨hplace, hcancelled⟩
    · exact h.ended u hu
  · intro u hu
    exact (hupdate u).mpr (Or.inr (h.joined u hu))
  · unfold potential
    dsimp only
    cases side with
    | writer =>
      rw [Function.update_self, Function.update_of_ne (by decide), hrun]
      simp only [Bool.not_true, Bool.not_false, Bool.toNat_false, Bool.toNat_true]
      omega
    | reader =>
      rw [Function.update_self, Function.update_of_ne (by decide), hrun]
      simp only [Bool.not_true, Bool.not_false, Bool.toNat_false, Bool.toNat_true]
      omega

omit [DecidableEq V] in
/-- The main thread goes on. -/
lemma Ends.goOn (h : Ends spec ends Clean succ v s) (closing : Closing spec ends Clean)
    {p : MainPlace} (hcancelled : ∀ side, s.main.cancelled side = true → p.cancelled side = true)
    (hjoined : ∀ side, p.joined side = true → s.ended side = true) (hp : p ≠ .returned)
    (hleft : p.left + 1 ≤ s.main.left) :
    Ends spec ends Clean succ v { s with main := p } ∧
      potential closing { s with main := p } + 1 ≤ potential closing s := by
  refine ⟨⟨h.counts, ?_, hjoined, fun hret => absurd hret hp⟩, ?_⟩
  · intro side hside
    obtain ⟨hplace, hpending⟩ := h.ended side hside
    exact ⟨hplace, hcancelled side hpending⟩
  · unfold potential
    dsimp only
    omega

omit [DecidableEq V] in
/-- When both threads were joined, nothing is left of the channel. -/
lemma Ends.clean (h : Ends spec ends Clean succ v s) (closing : Closing spec ends Clean)
    (hlive : ends.live s.pair.channel = true) (hmain : s.main = .destroy) :
    ∃ d, ends.destroy s.pair.channel = some d ∧ Clean d := by
  apply closing.destroy h.counts.channel hlive
  intro side
  apply (h.ended side (h.joined side _)).1
  rw [hmain]
  cases side <;> rfl

omit [DecidableEq V] in
/-- A step of the main thread. -/
lemma Ends.main (h : Ends spec ends Clean succ v s) (closing : Closing spec ends Clean)
    (hlive : ends.live s.pair.channel = true) (hst : s.mainStep ends = some s') :
    Ends spec ends Clean succ v s' ∧ potential closing s' + 1 ≤ potential closing s := by
  unfold mainStep at hst
  split at hst
  next hmain =>
    cases hst
    apply h.goOn closing
    · intro side hside
      rw [hmain] at hside
      cases hside
    · intro side hside
      cases side <;> cases hside
    · decide
    · rw [hmain]
      decide
  next hmain =>
    cases hst
    apply h.goOn closing
    · intro side _
      cases side <;> rfl
    · intro side hside
      cases side <;> cases hside
    · decide
    · rw [hmain]
      decide
  next hmain =>
    split_ifs at hst with hended
    cases hst
    apply h.goOn closing
    · intro side _
      cases side <;> rfl
    · intro side hside
      cases side with
      | writer => cases hside
      | reader => exact hended
    · decide
    · rw [hmain]
      decide
  next hmain =>
    split_ifs at hst with hended
    cases hst
    apply h.goOn closing
    · intro side _
      cases side <;> rfl
    · intro side _
      cases side with
      | writer => exact hended
      | reader =>
        apply h.joined
        rw [hmain]
        rfl
    · decide
    · rw [hmain]
      decide
  next hmain =>
    obtain ⟨d, hdestroy, rfl⟩ := Option.map_eq_some_iff.mp hst
    obtain ⟨d', hdestroy', hclean⟩ := h.clean closing hlive hmain
    obtain rfl := Option.some.inj (hdestroy.symm.trans hdestroy')
    refine ⟨⟨h.counts, ?_, ?_, fun _ => ⟨d, rfl, hclean⟩⟩, ?_⟩
    · intro side hside
      refine ⟨(h.ended side hside).1, ?_⟩
      cases side <;> rfl
    · intro side _
      apply h.joined
      rw [hmain]
      cases side <;> rfl
    · unfold potential
      rw [hmain]
      exact Nat.le_refl _
  next => cases hst

/-- Every step of the program, which leaves less to do when both threads are to be cancelled. -/
lemma Ends.step (h : Ends spec ends Clean succ v s) (closing : Closing spec ends Clean)
    (hst : Program.step calls ends succ blank s e = some s') :
    Ends spec ends Clean succ v s' ∧ ((∀ side, s.main.cancelled side = true) →
      potential closing s' + 1 ≤ potential closing s) := by
  unfold Program.step at hst
  split_ifs at hst with hdead
  have hlive : ends.live s.pair.channel = true := by
    rw [Bool.not_eq_true, Bool.not_eq_false'] at hdead
    exact hdead
  cases e with
  | loop side c =>
    dsimp only at hst
    split_ifs at hst with hstuck
    obtain ⟨pair, hpair, rfl⟩ := Option.map_eq_some_iff.mp hst
    rw [Bool.or_eq_true, not_or, Bool.not_eq_true, Bool.not_eq_true] at hstuck
    obtain ⟨hends, hless⟩ := h.loop closing hstuck.1 (fun hnone => by
      have hfree := hstuck.2
      rw [hnone] at hfree
      exact hfree) hpair
    exact ⟨hends, fun hall => hless (hall side)⟩
  | cancel side =>
    dsimp only at hst
    split_ifs at hst with hmay
    cases hst
    rw [Bool.and_eq_true, Bool.and_eq_true, Bool.not_eq_true'] at hmay
    obtain ⟨hends, hless⟩ := h.cancel closing hmay.1.1 hmay.1.2 hmay.2
    exact ⟨hends, fun _ => hless⟩
  | main =>
    obtain ⟨hends, hless⟩ := h.main closing hlive hst
    exact ⟨hends, fun _ => hless⟩

/-- Once both threads are to be cancelled, this remains so. -/
lemma cancelled_step (hst : Program.step calls ends succ blank s e = some s')
    (h : ∀ side, s.main.cancelled side = true) (side : Side) : s'.main.cancelled side = true := by
  unfold Program.step at hst
  split_ifs at hst
  cases e with
  | loop side' c =>
    dsimp only at hst
    split_ifs at hst
    obtain ⟨pair, -, rfl⟩ := Option.map_eq_some_iff.mp hst
    exact h side
  | cancel side' =>
    dsimp only at hst
    split_ifs at hst
    cases hst
    exact h side
  | main =>
    have hwriter := h .writer
    replace hst : s.mainStep ends = some s' := hst
    unfold mainStep at hst
    split at hst
    next hmain =>
      rw [hmain] at hwriter
      cases hwriter
    next =>
      cases hst
      cases side <;> rfl
    next =>
      split_ifs at hst
      cases hst
      cases side <;> rfl
    next =>
      split_ifs at hst
      cases hst
      cases side <;> rfl
    next =>
      obtain ⟨d, -, rfl⟩ := Option.map_eq_some_iff.mp hst
      cases side <;> rfl
    next => cases hst

omit [DecidableEq V] in
/-- The threads start. -/
lemma Ends.init {channel : σ} (hinv : spec.Inv channel)
    (hout : ∀ side, spec.phase channel side = .outside) (hadded : spec.added channel = [])
    (htaken : spec.taken channel = []) :
    Ends spec ends Clean succ v (Program.init channel v blank) where
  counts := Pair.Counts.init hinv hout hadded htaken
  ended side h := by cases h
  joined side h := by cases side <;> cases h
  destroyed h := by cases h

/-- Unless a thread has ended, a step is possible that brings it nearer to its end. -/
lemma Ends.exists_loop (h : Ends spec ends Clean succ v s) (closing : Closing spec ends Clean)
    (hlive : ends.live s.pair.channel = true) (hrun : s.ended side = false)
    (hcancelled : s.main.cancelled side = true) :
    ∃ (e : ProgramEvent χ) (s' : Program σ V δ),
      Program.step calls ends succ blank s e = some s' ∧ ends.live s'.pair.channel = true := by
  have hstep : ∀ (e : ProgramEvent χ), Program.step calls ends succ blank s e =
      match e with
      | .loop side c =>
        if s.ended side || c.isNone && s.main.cancelled side then none
        else (s.pair.step calls succ blank (side, c)).map fun pair => { s with pair := pair }
      | .cancel side =>
        if !s.ended side && s.main.cancelled side && ends.cancellable s.pair.channel side then
          some { s with ended := Function.update s.ended side true }
        else none
      | .main => s.mainStep ends := by
    intro e
    unfold Program.step
    rw [hlive]
    exact if_neg Bool.false_ne_true
  by_cases hplace : ends.cancellable s.pair.channel side = true
  · refine ⟨.cancel side, { s with ended := Function.update s.ended side true }, ?_, hlive⟩
    rw [hstep]
    apply if_pos
    rw [hrun, hcancelled, hplace]
    rfl
  · rw [Bool.not_eq_true] at hplace
    obtain ⟨u, c, channel, outcome, hu, hcall, hlive'⟩ :=
      closing.exists_step h.counts.channel hlive hplace
    have hrunning : s.ended u = false := by
      rw [← Bool.not_eq_true]
      intro hended
      exact Bool.false_ne_true (hu.symm.trans (h.ended u hended).1)
    obtain ⟨pair, hpair, hchannel⟩ :=
      Pair.exists_step_some succ blank hcall
    refine ⟨.loop u (some c), { s with pair := pair }, ?_, hchannel ▸ hlive'⟩
    rw [hstep]
    dsimp only
    rw [hrunning, hpair]
    exact if_neg Bool.false_ne_true

/-- Until the program has returned, some step is possible, with which the program goes on. -/
lemma Ends.exists_step (h : Ends spec ends Clean succ v s) (closing : Closing spec ends Clean)
    (hlive : ends.live s.pair.channel = true) (hmain : s.main ≠ .returned) :
    ∃ (e : ProgramEvent χ) (s' : Program σ V δ),
      Program.step calls ends succ blank s e = some s' ∧ ends.live s'.pair.channel = true := by
  have hgo : ∀ s', s.mainStep ends = some s' → s'.pair = s.pair →
      ∃ (e : ProgramEvent χ) (s' : Program σ V δ),
        Program.step calls ends succ blank s e = some s' ∧ ends.live s'.pair.channel = true := by
    intro s' hs' hpair
    refine ⟨.main, s', ?_, hpair ▸ hlive⟩
    unfold Program.step
    rw [hlive]
    exact hs'
  cases hplace : s.main with
  | sleep => exact hgo { s with main := .cancelWriter } (by rw [mainStep, hplace]) rfl
  | cancelWriter => exact hgo { s with main := .joinReader } (by rw [mainStep, hplace]) rfl
  | joinReader =>
    by_cases hended : s.ended .reader = true
    · exact hgo { s with main := .joinWriter } (by rw [mainStep, hplace]; exact if_pos hended) rfl
    · exact h.exists_loop closing hlive (Bool.not_eq_true _ ▸ hended) (by rw [hplace]; rfl)
  | joinWriter =>
    by_cases hended : s.ended .writer = true
    · exact hgo { s with main := .destroy } (by rw [mainStep, hplace]; exact if_pos hended) rfl
    · exact h.exists_loop closing hlive (Bool.not_eq_true _ ▸ hended) (by rw [hplace]; rfl)
  | destroy =>
    obtain ⟨d, hd, -⟩ := h.clean closing hlive hplace
    exact hgo { s with main := .returned, destroyed := some d } (by rw [mainStep, hplace, hd]; rfl)
      rfl
  | returned => exact absurd hplace hmain

/-- The reader counts no error.  Until the program has returned, some step is possible with which it
goes on; once both threads are to be cancelled, the number of steps is bounded; and when the program
has returned, nothing is left of the channel. -/
theorem ends_of_run (closing : Closing spec ends Clean) {channel : σ} (hinv : spec.Inv channel)
    (hout : ∀ side, spec.phase channel side = .outside) (hadded : spec.added channel = [])
    (htaken : spec.taken channel = [])
    (h : Reachable (Program.step calls ends succ blank) (Program.init channel v blank) s) :
    s.pair.errors = 0 ∧
    (ends.live s.pair.channel = true → s.main ≠ .returned →
      ∃ e s', Program.step calls ends succ blank s e = some s' ∧
        ends.live s'.pair.channel = true) ∧
    ((∀ side, s.main.cancelled side = true) → ∀ es s',
      execWhere (Program.step calls ends succ blank) anyStep s es = some s' →
        es.length ≤ 2 * closing.bound + 5) ∧
    (s.main = .returned → ∃ d, s.destroyed = some d ∧ Clean d) := by
  have hends : Ends spec ends Clean succ v s :=
    h.invariant (Ends.init hinv hout hadded htaken) fun _ _ _ hi _ hst => (hi.step closing hst).1
  refine ⟨hends.counts.errors, fun hlive hmain => hends.exists_step closing hlive hmain, ?_,
    hends.destroyed⟩
  intro hcancelled es s' hes
  have hstep : ∀ (t : Program σ V δ) (e : ProgramEvent χ) (u : Program σ V δ),
      (Ends spec ends Clean succ v t ∧ ∀ side, t.main.cancelled side = true) → anyStep t e →
      Program.step calls ends succ blank t e = some u →
      (Ends spec ends Clean succ v u ∧ ∀ side, u.main.cancelled side = true) ∧
        potential closing u + 1 ≤ potential closing t + 0 := by
    rintro t e u ⟨ht, hall⟩ - hst
    obtain ⟨hu, hless⟩ := ht.step closing hst
    exact ⟨⟨hu, cancelled_step hst hall⟩, hless hall⟩
  have hlength := length_le_of_potential ⟨hends, hcancelled⟩ hstep hes
  have hgranted : granted (Program.step calls ends succ blank) (fun _ _ => 0) s es ≤
      0 * es.countP (fun _ => false) := granted_le (fun _ _ => Nat.zero_le _) s es
  have hbound : potential closing s ≤ 2 * closing.bound + 5 := by
    have hwriter : closing.toDo s.pair.channel .writer ≤ _ := closing.toDo_le hends.counts.channel
    have hreader : closing.toDo s.pair.channel .reader ≤ _ := closing.toDo_le hends.counts.channel
    have hleft := MainPlace.left_le (hcancelled .writer)
    have hended := Bool.toNat_le (!s.ended .writer)
    have hended' := Bool.toNat_le (!s.ended .reader)
    unfold potential
    omega
  omega

end Rules

end Program

end Channel
