import OsLabs.Foundation.Transition
import OsLabs.Proxy.Subscription

/-!
# What one step of a subscription does

`SessionMove` and `Work` list the steps of the session thread and of a worker.  A subscriber is
changed only by the worker that holds its lock, so an invariant about one subscriber is stated as a
predicate `P` on the subscriber and the position of that worker: `Guarded P` says that `P` holds
for every subscriber with the worker that holds its lock, and for every unlocked one at rest.  The
rules for `Guarded` reduce its preservation to the effect of single steps on single subscribers.
-/

namespace OsLabs.Proxy

open Transition

namespace Subscription

variable {s t : Subscription} {sub sub' : Subscriber} {pc pc' : TaskPc} {sent : Option ℕ}
  {allocated : Bool} {k : ℕ}

/-! ## The steps -/

/-- The steps of a worker on its subscriber `sub`, each with its guard. -/
inductive Work (s : Subscription) (sub : Subscriber) (sent : Option ℕ) :
    TaskPc → Subscriber → TaskPc → Prop
  | freed (hclosed : sub.closed = true) : Work s sub sent .queued sub (.fault false)
  | acquire (hclosed : sub.closed = false) (hfree : sub.locked = false) :
      Work s sub sent .queued { sub with locked := true } .locked
  | nothing (hget : s.container.getChunk (toSize (toInt sub.chunkLoaded)) = none) :
      Work s sub sent .locked sub (.finishing false)
  | begin {current : ℕ}
      (hget : s.container.getChunk (toSize (toInt sub.chunkLoaded)) = some current) :
      Work s sub sent .locked sub
        (.loop current (toInt sub.chunkLoaded) (toInt s.container.count))
  | enter {current : ℕ} {i last : ℤ} (hlt : i < last) :
      Work s sub sent (.loop current i last) sub (.sending current i last 0)
  | exit {current : ℕ} {i last : ℤ} (hge : ¬ i < last) :
      Work s sub sent (.loop current i last) sub (.finishing false)
  | lost {current : ℕ} {i last : ℤ} {total : ℕ} (hchunk : s.container.chunks[current]? = none) :
      Work s sub sent (.sending current i last total) sub (.fault true)
  | fail {current : ℕ} {i last : ℤ} {total : ℕ} {chunk : Chunk}
      (hchunk : s.container.chunks[current]? = some chunk) (hlt : total < chunk.bytes)
      (hsent : sent = none) :
      Work s sub sent (.sending current i last total)
        { sub with torn := sub.torn || decide (0 < total) } (.finishing true)
  | accept {current : ℕ} {i last : ℤ} {total n : ℕ} {chunk : Chunk}
      (hchunk : s.container.chunks[current]? = some chunk) (hlt : total < chunk.bytes)
      (hsent : sent = some n) (hle : total + n ≤ chunk.bytes) :
      Work s sub sent (.sending current i last total)
        { sub with accepted := sub.accepted ++ (chunk.data.drop total).take n }
        (.sending current i last (total + n))
  | load {current : ℕ} {i last : ℤ} {total : ℕ} {chunk : Chunk}
      (hchunk : s.container.chunks[current]? = some chunk) (hge : chunk.bytes ≤ total) :
      Work s sub sent (.sending current i last total)
        { sub with chunkLoaded := sub.chunkLoaded + 1 } (.loop (current + 1) (i + 1) last)
  | decrement {failed : Bool} (hfree : s.locked = false) :
      Work s sub sent (.finishing failed) sub (.unlocking failed)
  | release {failed : Bool} :
      Work s sub sent (.unlocking failed) { sub with locked := false } (.done failed)

/-- Every step of a worker is one of these. -/
lemma work_of_eq_some (h : s.work sub sent pc = some (sub', pc')) :
    Work s sub sent pc sub' pc' := by
  cases pc with
  | queued =>
    rw [work] at h
    split_ifs at h with hclosed hlocked <;> cases h
    · exact .freed hclosed
    · exact .acquire (by simpa using hclosed) (by simpa using hlocked)
  | locked =>
    rw [work] at h
    cases hget : s.container.getChunk (toSize (toInt sub.chunkLoaded)) <;> rw [hget] at h <;>
      cases h
    · exact .nothing hget
    · exact .begin hget
  | loop current i last =>
    rw [work] at h
    split_ifs at h with hlt <;> cases h
    · exact .enter hlt
    · exact .exit hlt
  | sending current i last total =>
    rw [work] at h
    cases hchunk : s.container.chunks[current]? with
    | none => rw [hchunk] at h; cases h; exact .lost hchunk
    | some chunk =>
      simp only [hchunk] at h
      split_ifs at h with hlt
      · cases hsent : sent with
        | none => simp only [hsent] at h; cases h; exact .fail hchunk hlt rfl
        | some n =>
          simp only [hsent] at h
          split_ifs at h with hle
          cases h
          exact .accept hchunk hlt rfl hle
      · cases h
        exact .load hchunk (Nat.not_lt.mp hlt)
  | finishing failed =>
    rw [work] at h
    split_ifs at h with hlocked
    cases h
    exact .decrement (by simpa using hlocked)
  | unlocking failed => rw [work] at h; cases h; exact .release
  | done failed => cases h
  | fault holding => cases h

/-- A step of a worker, taken apart. -/
lemma workerStep_eq_some (h : s.workerStep k sent = some t) :
    ∃ task sub pc, s.tasks[k]? = some task ∧
      Work s (s.subscriber task.subscriber) sent task.pc sub pc ∧ t = s.worked k task sub pc := by
  unfold workerStep at h
  cases htask : s.tasks[k]? with
  | none => simp [htask] at h
  | some task =>
    simp only [htask] at h
    cases hwork : s.work (s.subscriber task.subscriber) sent task.pc with
    | none => simp [hwork] at h
    | some next =>
      obtain ⟨sub, pc⟩ := next
      simp only [hwork, Option.some.injEq] at h
      exact ⟨task, sub, pc, rfl, work_of_eq_some hwork, h.symm⟩

/-- The steps of the session thread, each with its guard and its effect. -/
inductive SessionMove (s : Subscription) (allocated : Bool) : Subscription → Prop
  | finish (hpc : s.pc = .idle) (htodo : s.todo = []) :
      SessionMove s allocated (s.goto (.finishing s.linked.head?))
  | crash (hpc : s.pc = .idle) (htodo : s.todo ≠ []) (hlinked : s.linked = []) :
      SessionMove s allocated (s.goto .crashed)
  | lock {p : Payload} {todo : List Payload} (hpc : s.pc = .idle) (htodo : s.todo = p :: todo)
      (hlinked : s.linked ≠ []) (hfree : s.locked = false) :
      SessionMove s allocated ({ s.setLocked true with todo := todo }.goto (.adding p))
  | add {p : Payload} (hpc : s.pc = .adding p) :
      SessionMove s allocated
        ({ s with container := s.container.addChunk p allocated }.goto .sendStart)
  | start (hpc : s.pc = .sendStart) :
      SessionMove s allocated (s.startRound.goto (.sendLoop s.linked))
  | pushed (hpc : s.pc = .sendLoop []) : SessionMove s allocated (s.goto .waitTest)
  | selfLock {rest : List ℕ} (hpc : s.pc = .sendLoop rest) :
      SessionMove s allocated (s.goto (.selfLocked rest))
  | push {j : ℕ} {rest : List ℕ} (hpc : s.pc = .sendLoop (j :: rest))
      (hload : (s.subscriber j).chunkLoaded ≠ s.container.count) :
      SessionMove s allocated ((s.pushTask j).goto (.sendLoop rest))
  | wait (hpc : s.pc = .waitTest) (hflag : 0 < s.flag) :
      SessionMove s allocated ((s.setLocked false).goto .waiting)
  | return_ (hpc : s.pc = .waitTest) (hflag : s.flag ≤ 0) :
      SessionMove s allocated ((s.setLocked false).goto .idle)
  | wake (hpc : s.pc = .waiting) (hfree : s.locked = false) :
      SessionMove s allocated ((s.setLocked true).goto .waitTest)
  | visit {j : ℕ} (hpc : s.pc = .finishing (some j)) :
      SessionMove s allocated (s.goto (.unsubscribing j (s.next j)))
  | unlink {j : ℕ} {tmp : Option ℕ} (hpc : s.pc = .unsubscribing j tmp) (hfree : s.locked = false) :
      SessionMove s allocated (((s.setLocked true).unlink j).goto (.closing j tmp))
  | close {j : ℕ} {tmp : Option ℕ} (hpc : s.pc = .closing j tmp)
      (hfree : (s.subscriber j).locked = false) :
      SessionMove s allocated (((s.close j).setLocked false).goto (.finishing tmp))

/-- Every step of the session thread is one of these. -/
lemma sessionMove_of_step (h : s.sessionStep allocated = some t) : SessionMove s allocated t := by
  cases hpc : s.pc with
  | idle =>
    cases htodo : s.todo with
    | nil =>
      simp only [sessionStep, hpc, htodo, Option.some.injEq] at h
      exact h ▸ .finish hpc htodo
    | cons p todo =>
      simp only [sessionStep, hpc, htodo] at h
      split_ifs at h with hlinked hlocked <;> cases h
      · exact .crash hpc (by simp [htodo]) hlinked
      · exact .lock hpc htodo hlinked (by simpa using hlocked)
  | adding p =>
    simp only [sessionStep, hpc, Option.some.injEq] at h
    exact h ▸ .add hpc
  | sendStart =>
    simp only [sessionStep, hpc, Option.some.injEq] at h
    exact h ▸ .start hpc
  | sendLoop rest =>
    cases rest with
    | nil =>
      simp only [sessionStep, hpc, Option.some.injEq] at h
      exact h ▸ .pushed hpc
    | cons j rest =>
      simp only [sessionStep, hpc] at h
      split_ifs at h with hload <;> cases h
      · exact .selfLock hpc
      · exact .push hpc hload
      · exact .selfLock hpc
  | waitTest =>
    simp only [sessionStep, hpc, Option.some.injEq] at h
    split_ifs at h with hflag
    · exact h ▸ .wait hpc hflag
    · exact h ▸ .return_ hpc (Int.not_lt.mp hflag)
  | waiting =>
    simp only [sessionStep, hpc] at h
    split_ifs at h with hlocked
    cases h
    exact .wake hpc (by simpa using hlocked)
  | finishing cur =>
    cases cur with
    | none => simp [sessionStep, hpc] at h
    | some j =>
      simp only [sessionStep, hpc, Option.some.injEq] at h
      exact h ▸ .visit hpc
  | unsubscribing j tmp =>
    simp only [sessionStep, hpc] at h
    split_ifs at h with hlocked
    cases h
    exact .unlink hpc (by simpa using hlocked)
  | closing j tmp =>
    simp only [sessionStep, hpc] at h
    split_ifs at h with hlocked
    cases h
    exact .close hpc (by simpa using hlocked)
  | selfLocked rest => simp [sessionStep, hpc] at h
  | crashed => simp [sessionStep, hpc] at h

end Subscription

end OsLabs.Proxy
