import OsLabs.Proxy.SubscriberLock

/-!
# The bytes that a subscriber gets

`chunk_loaded` is the place at which a failed upload is resumed.  `Placed` says, for every run, that
a worker is always at that chunk.  `Faithful` relates it to the bytes that `send` has accepted: they
are the data of the loaded chunks and the part of the next one that is in flight.

A `send_data_to_fd` that fails in the middle of a chunk leaves a part of the chunk behind, and the
next round begins the chunk again: if the connection then accepts bytes, they are repeated.
`staysBroken` excludes this, and `accepted_prefix` is the delivery theorem for the runs that meet
it.
-/

namespace OsLabs.Proxy

open Transition

/-! ## The place of a worker -/

/-- The local variables of a worker agree with `chunk_loaded`, and its bound with `count`. -/
def TaskPc.At (loaded count : ℕ) : TaskPc → Prop
  | .loop current i last => current = loaded ∧ i = loaded ∧ last ≤ count ∧ last < 2 ^ 31
  | .sending current i last _ =>
    current = loaded ∧ i = loaded ∧ i < last ∧ last ≤ count ∧ last < 2 ^ 31
  | _ => True

/-- The bytes of the current chunk that the running `send_data_to_fd` has sent. -/
def TaskPc.inFlight : TaskPc → ℕ
  | .sending _ _ _ total => total
  | _ => 0

namespace Subscription

variable {s : Subscription} {container : ChunkContainer} {sub sub' : Subscriber}
  {pc pc' : TaskPc} {sent : Option ℕ} {todo : List Payload}

/-- A subscriber is not ahead of the container, and its worker is at the chunk `chunk_loaded`. -/
structure Placed (container : ChunkContainer) (sub : Subscriber) (pc : TaskPc) : Prop where
  loaded : sub.chunkLoaded ≤ container.count
  small : sub.chunkLoaded < 2 ^ 31
  position : pc.At sub.chunkLoaded container.count

/-- Every step of a worker keeps it at the chunk `chunk_loaded`. -/
lemma Placed.work (h : Placed s.container sub pc) (hw : Work s sub sent pc sub' pc') :
    Placed s.container sub' pc' := by
  obtain ⟨hloaded, hsmall, hpos⟩ := h
  cases hw with
  | begin hget =>
    rw [toSize_toInt hsmall, ChunkContainer.getChunk_eq] at hget
    split_ifs at hget with hlt
    cases hget
    exact ⟨hloaded, hsmall, rfl, toInt_of_lt hsmall, toInt_le _, toInt_lt _⟩
  | enter hlt =>
    obtain ⟨hcur, hi, hlast, hbound⟩ := hpos
    exact ⟨hloaded, hsmall, hcur, hi, hlt, hlast, hbound⟩
  | load hchunk hge =>
    obtain ⟨hcur, hi, hlt, hlast, hbound⟩ := hpos
    refine ⟨?_, ?_, ?_, ?_, hlast, hbound⟩
    · dsimp only; omega
    · dsimp only; omega
    · dsimp only; omega
    · dsimp only; omega
  | accept hchunk hlt hsent hle => exact ⟨hloaded, hsmall, hpos⟩
  | freed | acquire | nothing | exit | lost | fail | decrement | release =>
    exact ⟨hloaded, hsmall, trivial⟩

/-- `Placed` is an invariant of all steps. -/
lemma placed_local (ok : Subscription → SubscriptionEvent → Prop) : Local Placed ok where
  fresh container fd := ⟨Nat.zero_le _, Nat.two_pow_pos 31, trivial⟩
  rest {container sub pc} hpc := by
    refine ⟨fun h => ⟨h.loaded, h.small, trivial⟩, fun h => ⟨h.loaded, h.small, ?_⟩⟩
    cases pc <;> trivial
  close h := ⟨h.loaded, h.small, h.position⟩
  add {container sub pc p allocated} h := by
    have hle : container.count ≤ (container.addChunk p allocated).count :=
      ChunkContainer.count_le_addChunk
    refine ⟨Nat.le_trans h.loaded hle, h.small, ?_⟩
    have hpos := h.position
    cases pc <;> simp only [TaskPc.At] at hpos ⊢ <;> omega
  work _ _ hw h := h.work hw

/-- In every reachable state the workers are at the chunks of their subscribers. -/
theorem placed_of_run {ok : Subscription → SubscriptionEvent → Prop}
    (hrun : Run step ok (initial todo) s) : Guarded Placed s :=
  guarded_of_run (placed_local ok) hrun

/-! ## The accepted bytes -/

/-- The data of the chunk `chunk_loaded`, nothing if there is no such chunk. -/
def nextData (container : ChunkContainer) (sub : Subscriber) : List UInt8 :=
  (container.chunks[sub.chunkLoaded]?).elim [] Chunk.data

/-- The accepted bytes are the data of the loaded chunks and a part of the next chunk: the part in
flight, or the part that a failed `send_data_to_fd` has left behind. -/
structure Faithful (container : ChunkContainer) (sub : Subscriber) (pc : TaskPc) : Prop where
  placed : Placed container sub pc
  fits : pc.inFlight ≤ (nextData container sub).length
  whole : sub.torn = false → sub.accepted =
    container.upTo sub.chunkLoaded ++ (nextData container sub).take pc.inFlight
  part : sub.torn = true → pc.inFlight = 0 ∧ ∃ m < (nextData container sub).length, sub.accepted =
    container.upTo sub.chunkLoaded ++ (nextData container sub).take m

/-- The condition on a step: after a `send_data_to_fd` has failed in the middle of a chunk, the
connection accepts no more bytes. -/
def staysBroken (s : Subscription) : SubscriptionEvent → Bool
  | .worker k (some n) =>
    match s.tasks[k]? with
    | some task => !(s.subscriber task.subscriber).torn || n == 0
    | none => true
  | _ => true

/-- A worker that is sending a chunk sends the next one of its subscriber. -/
lemma nextData_of_sending {current : ℕ} {i last : ℤ} {total : ℕ} {chunk : Chunk}
    (h : Placed container sub (.sending current i last total))
    (hchunk : container.chunks[current]? = some chunk) : nextData container sub = chunk.data := by
  rw [nextData, ← h.position.1, hchunk, Option.elim_some]

/-- The chunk that a worker is sending exists. -/
lemma Placed.chunk_exists {current : ℕ} {i last : ℤ} {total : ℕ}
    (h : Placed container sub (.sending current i last total)) :
    container.chunks[current]? ≠ none := by
  obtain ⟨hcur, hi, hlt, hlast, -⟩ := h.position
  rw [ne_eq, List.getElem?_eq_none_iff]
  have hcount : container.count = container.chunks.length := rfl
  omega

/-- A step of a worker keeps the account of the accepted bytes. -/
lemma Faithful.work (h : Faithful s.container sub pc) (hw : Work s sub sent pc sub' pc')
    (hbroken : sub.torn = true → ∀ n, sent = some n → n = 0) :
    Faithful s.container sub' pc' := by
  have hplaced := h.placed.work hw
  obtain ⟨hbefore, hfits, hwhole, hpart⟩ := h
  cases hw with
  | @fail current i last total chunk hchunk hlt hsent =>
    have hnext := nextData_of_sending hbefore hchunk
    rw [Chunk.bytes_eq, ← hnext] at hlt
    refine ⟨hplaced, Nat.zero_le _, fun htorn => ?_, fun htorn => ⟨rfl, ?_⟩⟩
    · obtain ⟨hold, hzero⟩ := Bool.or_eq_false_iff.mp htorn
      have htotal : total = 0 := by simpa using hzero
      have hacc := hwhole hold
      rwa [TaskPc.inFlight, htotal] at hacc
    · cases hold : sub.torn with
      | true => exact (hpart hold).2
      | false => exact ⟨total, hlt, hwhole hold⟩
  | @accept current i last total n chunk hchunk hlt hsent hle =>
    have hnext := nextData_of_sending hbefore hchunk
    rw [Chunk.bytes_eq, ← hnext] at hle
    refine ⟨hplaced, hle, fun htorn => ?_, fun htorn => ?_⟩
    · dsimp only
      rw [hwhole htorn, ← hnext, List.append_assoc]
      exact congrArg _ List.take_add.symm
    · obtain ⟨hzero, m, hm, hacc⟩ := hpart htorn
      obtain rfl := hbroken htorn n hsent
      have htotal : total = 0 := hzero
      refine ⟨htotal, m, hm, ?_⟩
      dsimp only
      rw [List.take_zero, List.append_nil]
      exact hacc
  | @load current i last total chunk hchunk hge =>
    have hnext := nextData_of_sending hbefore hchunk
    rw [Chunk.bytes_eq, ← hnext] at hge
    have hcur : s.container.chunks[sub.chunkLoaded]? = some chunk := hbefore.position.1 ▸ hchunk
    refine ⟨hplaced, Nat.zero_le _, fun htorn => ?_, fun htorn => ?_⟩
    · have hacc := hwhole htorn
      rw [TaskPc.inFlight, List.take_of_length_le hge, hnext, ← ChunkContainer.upTo_succ hcur]
        at hacc
      exact hacc.trans (List.append_nil _).symm
    · -- A torn chunk is not empty, and none of its bytes are in flight.
      obtain ⟨hzero, m, hm, -⟩ := hpart htorn
      have htotal : total = 0 := hzero
      omega
  | lost hchunk => exact absurd hchunk hbefore.chunk_exists
  | freed | acquire | nothing | begin | enter | exit | decrement | release =>
    exact ⟨hplaced, Nat.zero_le _, hwhole, hpart⟩

/-- A chunk that exists is still the next one after `__add_chunk`. -/
lemma nextData_addChunk (p : Payload) (allocated : Bool)
    (h : sub.chunkLoaded < container.count) :
    nextData (container.addChunk p allocated) sub = nextData container sub := by
  have hget := List.getElem?_eq_getElem h
  rw [nextData, nextData, ChunkContainer.getElem?_addChunk hget, hget]

/-- At the end of the container there is no next chunk. -/
lemma nextData_eq_nil (h : container.count ≤ sub.chunkLoaded) : nextData container sub = [] := by
  rw [nextData, List.getElem?_eq_none h, Option.elim_none]

/-- `__add_chunk` changes neither the loaded chunks nor the part of a chunk that was sent. -/
lemma Faithful.addChunk {p : Payload} {allocated : Bool} (h : Faithful container sub pc) :
    Faithful (container.addChunk p allocated) sub pc := by
  obtain ⟨hplaced, hfits, hwhole, hpart⟩ := h
  have hplaced' : Placed (container.addChunk p allocated) sub pc :=
    (placed_local Transition.anyStep).add hplaced
  have hupTo := ChunkContainer.upTo_addChunk p allocated hplaced.loaded
  rcases Nat.lt_or_ge sub.chunkLoaded container.count with hlt | hge
  · have hnext := nextData_addChunk p allocated hlt
    exact ⟨hplaced', hnext ▸ hfits, hnext ▸ hupTo ▸ hwhole, hnext ▸ hupTo ▸ hpart⟩
  · -- The subscriber has all chunks, so nothing is in flight.
    have hnil := nextData_eq_nil hge
    rw [hnil] at hfits hwhole hpart
    have hzero : pc.inFlight = 0 := Nat.le_zero.mp hfits
    refine ⟨hplaced', hzero ▸ Nat.zero_le _, fun htorn => ?_, fun htorn => ?_⟩
    · rw [hzero, List.take_zero, hupTo, hwhole htorn, List.take_nil]
    · obtain ⟨-, m, hm, -⟩ := hpart htorn
      exact absurd hm (Nat.not_lt_zero m)

/-- `Faithful` is an invariant of the steps that meet the condition. -/
lemma faithful_local : Local Faithful (staysBroken · · = true) where
  fresh container fd := by
    refine ⟨(placed_local anyStep).fresh container fd, Nat.zero_le _, fun _ => ?_, fun h => ?_⟩
    · simp [TaskPc.inFlight, ChunkContainer.upTo]
    · cases h
  rest {container sub pc} hpc := by
    have hzero : pc.inFlight = 0 := by cases pc <;> first | rfl | cases hpc
    have hplaced : Placed container sub pc ↔ Placed container sub .queued :=
      (placed_local anyStep).rest hpc
    constructor
    · rintro ⟨hp, hfits, hwhole, hpart⟩
      rw [hzero] at hfits hwhole hpart
      exact ⟨hplaced.mp hp, hfits, hwhole, hpart⟩
    · rintro ⟨hp, hfits, hwhole, hpart⟩
      refine ⟨hplaced.mpr hp, ?_, ?_, ?_⟩ <;> rw [hzero] <;> assumption
  close h := ⟨⟨h.placed.loaded, h.placed.small, h.placed.position⟩, h.fits, h.whole, h.part⟩
  add h := h.addChunk
  work {s k sent task sub pc} hk hok hw h := by
    refine h.work hw fun htorn n hn => ?_
    simpa [staysBroken, hn, hk, htorn] using hok

/-- The accepted bytes begin the content of the container. -/
lemma Faithful.prefix_all (h : Faithful container sub pc) :
    sub.accepted <+: container.content := by
  obtain ⟨hplaced, -, hwhole, hpart⟩ := h
  obtain ⟨m, hm⟩ : ∃ m, sub.accepted =
      container.upTo sub.chunkLoaded ++ (nextData container sub).take m := by
    cases htorn : sub.torn with
    | false => exact ⟨_, hwhole htorn⟩
    | true =>
      obtain ⟨-, m, -, hacc⟩ := hpart htorn
      exact ⟨m, hacc⟩
  rw [hm]
  cases hchunk : container.chunks[sub.chunkLoaded]? with
  | none =>
    rw [nextData, hchunk, Option.elim_none, List.take_nil, List.append_nil]
    exact container.upTo_prefix _
  | some chunk =>
    rw [nextData, hchunk, Option.elim_some]
    have hsucc := ChunkContainer.upTo_succ hchunk
    refine List.IsPrefix.trans ?_ (container.upTo_prefix (sub.chunkLoaded + 1))
    rw [hsucc]
    exact List.prefix_append_right_inj _ |>.mpr (List.take_prefix m chunk.data)

/-- The data of the loaded chunks were accepted first. -/
lemma Faithful.upTo_prefix (h : Faithful container sub pc) :
    container.upTo sub.chunkLoaded <+: sub.accepted := by
  cases htorn : sub.torn with
  | false => exact h.whole htorn ▸ List.prefix_append _ _
  | true =>
    obtain ⟨-, m, -, hacc⟩ := h.part htorn
    exact hacc ▸ List.prefix_append _ _

/-- In a run in which a connection that has failed in the middle of a chunk accepts no more bytes,
the bytes accepted from every subscriber are, at every moment, a prefix of the content of the
container, and they contain the chunks that count as loaded in full. -/
theorem accepted_prefix
    (hrun : Run step (staysBroken · · = true) (initial todo) s) (j : ℕ) :
    (s.subscriber j).accepted <+: s.container.content ∧
      s.container.upTo (s.subscriber j).chunkLoaded <+: (s.subscriber j).accepted := by
  obtain ⟨pc, h⟩ := (guarded_of_run faithful_local hrun).exists (locks_of_run hrun) j
  exact ⟨h.prefix_all, h.upTo_prefix⟩

/-- Steps of the session thread, all of whose allocations succeed. -/
def sessionSteps (n : ℕ) : List SubscriptionEvent := List.replicate n (.session true)

/-- Steps of the worker of task `k`, with the results of its calls of `send`. -/
def workerSteps (k : ℕ) (sent : List (Option ℕ)) : List SubscriptionEvent :=
  sent.map (.worker k)

/-- The two chunks `ab` and `c`. -/
def twoChunks : List Payload := [Payload.ofBytes [97, 98], Payload.ofBytes [99]]

/-- A subscriber whose connection breaks in the middle of the first chunk, and stays broken in the
second round, has got a prefix of the content. -/
theorem accepted_prefix_broken :
    ∃ s, Run step (staysBroken · · = true) (initial twoChunks) s ∧
      (s.subscriber 0).torn = true ∧ s.round = 2 ∧
      ((s.subscriber 0).accepted <+: s.container.content ∧
        s.container.upTo (s.subscriber 0).chunkLoaded <+: (s.subscriber 0).accepted) := by
  have hrun := Run.get_execWhere step (staysBroken · · = true) (initial twoChunks)
    (.subscribe 5 true :: sessionSteps 6 ++
      workerSteps 0 [some 0, some 0, some 0, some 1, none, none, none] ++ sessionSteps 8 ++
      workerSteps 1 [none, none, none, none]) (by decide +kernel)
  exact ⟨_, hrun, by decide +kernel, by decide +kernel, accepted_prefix hrun 0⟩

/-- A `send` accepts one byte of `ab` and the next one fails; in the second round the upload begins
the chunk again, and its first byte is sent twice. -/
theorem accepted_repeated :
    ∃ s, Reachable step (initial twoChunks) s ∧ (s.subscriber 0).accepted = [97, 97, 98] ∧
      s.container.content = [97, 98, 99] ∧
      ¬ (s.subscriber 0).accepted <+: s.container.content := by
  have hrun := Run.get_execWhere step anyStep (initial twoChunks)
    (.subscribe 5 true :: sessionSteps 6 ++
      workerSteps 0 [none, none, none, some 1, none, none, none] ++ sessionSteps 8 ++
      workerSteps 1 [none, none, none, some 2]) (by decide +kernel)
  exact ⟨_, hrun, by decide +kernel, by decide +kernel, by decide +kernel⟩

end Subscription

end OsLabs.Proxy
