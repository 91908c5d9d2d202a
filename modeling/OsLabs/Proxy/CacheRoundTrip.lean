import OsLabs.Proxy.SessionEnd

/-!
# The round trip through the cache

`share_cache` gives the content of a saved container to a manager whose session thread makes the
calls of `add_chunk` while its workers send the chunks and other clients subscribe.
`cache_round_trip` says what the container is when these calls have returned, and that they return
in every run where a round of `__send_chunks` meets at most 127 subscribers.  With 128 of them
`add_chunk` returns while its tasks are unfinished.  A worker may then send the next chunk, too,
before `__send_chunks` begins, which waits for `manager->lock` in the thread that holds it; the rest
of the file is never read.
-/

namespace OsLabs.Proxy

open Transition

/-- A filling of the buffer has data. -/
lemma hasData_of_fillings (buffers : List (List UInt8)) :
    ∀ p ∈ buffers.map Payload.ofBytes, p.hasData = true := by
  intro p hp
  obtain ⟨buffer, -, rfl⟩ := List.mem_map.mp hp
  rfl

/-- The container has what was saved, in full buffers up to the last one, and gives the same file
again. -/
structure Restored (files : Files) (saved : ChunkContainer) (cachename : CharArray cachenameLen)
    (container : ChunkContainer) : Prop where
  shared : Shared saved.content container
  again : saveCache (saveCache files saved cachename) container cachename =
    saveCache files saved cachename

/-- The second part follows from the first one. -/
lemma Shared.restored {saved container : ChunkContainer} (h : Shared saved.content container)
    (files : Files) (cachename : CharArray cachenameLen) :
    Restored files saved cachename container := by
  refine ⟨h, ?_⟩
  rw [saveCache_eq _ container, h.content, saveCache_eq, Function.update_idem]

namespace SessionState

variable {s t : SessionState} {e : SessionEvent}

/-- Until the calls of `add_chunk` have returned, the session has not ended. -/
lemma not_ended_of_returned (h : s.manager.returned = false) : s.manager.pc.ended = false := by
  cases hpc : s.manager.pc with
  | finishing cur =>
    rw [Subscription.returned, hpc] at h
    cases cur <;> cases h.symm.trans (Bool.or_true _)
  | _ => rfl

/-- After `save_cache`, the calls of `add_chunk` that `share_cache` makes give a manager with an
empty container and a subscriber what was saved, once they have returned, whatever the interleaving
with its workers and other clients.  In every run whose rounds fit they do return, whatever `send`
accepts or refuses: until then some thread can go on without a spurious wake-up, nobody waits for
itself, and the number of steps is bounded. -/
theorem cache_round_trip (files : Files) (container : ChunkContainer)
    (cachename : CharArray cachenameLen) :
    ∃ calls, shareCache (saveCache files container cachename) cachename = some calls ∧
      (∀ s₀ s, Subscription.Begins calls s₀ →
        Run Subscription.step (Subscription.allSucceed · · = true) s₀ s →
        s.pc ≠ .crashed ∧ (s.returned = true → Restored files container cachename s.container)) ∧
      ∀ fd clients es s, 1 ≤ clients →
        execWhere step (fun s e => s.orderly clients e = true ∧ s.roundFits e = true)
          (start calls fd) es = some s →
        s.Healthy ∧ (s.manager.returned = false → s.GoesOn) ∧
          (s.manager.returned = true →
            Restored files container cachename s.manager.container) ∧
          es.length ≤
            calls.length * (clients * ((calls.map fun p => p.bytes + 2).sum + 8) + 5) +
              4 * clients + 2 * es.countP SessionEvent.isSpurious := by
  have hfile : saveCache files container cachename (fullCachename cachename).toCString =
      some container.content := by
    rw [saveCache_eq, Function.update_self]
  obtain ⟨buffers, hcalls, hbuffers⟩ := exists_shareCache hfile
  have hrestored : Restored files container cachename (addAll (buffers.map Payload.ofBytes)) :=
    hbuffers.shared.restored files cachename
  refine ⟨_, hcalls, fun s₀ s hbegins hrun => ?_, fun fd clients es s hpos hrun => ?_⟩
  · obtain ⟨halive, hcontainer⟩ := Subscription.container_of_calls hbegins hrun
    refine ⟨halive, fun hreturned => ?_⟩
    rw [hcontainer hreturned]
    exact hrestored
  · obtain ⟨hsound, hlength⟩ := sound_of_run (hasData_of_fillings buffers) fd hpos
      (fun _ _ _ hok => hok) hrun
    refine ⟨hsound.healthy, fun hnot => hsound.goesOn (not_ended_of_returned hnot),
      fun hreturned => ?_, hlength⟩
    rw [hsound.known.sharing.container_eq hreturned]
    exact hrestored

/-- A second client joins while the session thread waits for the task of the first one, and gets the
only chunk from nobody. -/
def sharedWithTwo : List SessionEvent :=
  List.replicate 6 (.choice (.session true)) ++
    .choice (.subscribe 6 true) :: .spuriousWakeUp :: .choice (.session true) ::
    List.replicate 10 (.choice (.worker 0 (some 1))) ++
    List.replicate 2 (.choice (.session true))

/-- Two saved chunks of different sizes become one, which the first client gets. -/
theorem cache_round_trip_two : ∃ calls s,
    shareCache (saveCache (fun _ => none) (addAll [.ofBytes [97, 98], .ofBytes [99]])
      sampleCachename) sampleCachename = some calls ∧
    execWhere step (fun s e => s.orderly 2 e = true ∧ s.roundFits e = true) (start calls 5)
      sharedWithTwo = some s ∧
    s.manager.returned = true ∧ (s.manager.subscriber 0).accepted = [97, 98, 99] ∧ s.Healthy ∧
    Restored (fun _ => none) (addAll [.ofBytes [97, 98], .ofBytes [99]]) sampleCachename
      s.manager.container := by
  obtain ⟨calls, hcalls, -, hruns⟩ := cache_round_trip (fun _ => none)
    (addAll [.ofBytes [97, 98], .ofBytes [99]]) sampleCachename
  obtain rfl : [Payload.ofBytes [97, 98, 99]] = calls := Option.some.inj hcalls
  have hrun := (Option.some_get (x := execWhere step
    (fun s e => s.orderly 2 e = true ∧ s.roundFits e = true)
    (start [Payload.ofBytes [97, 98, 99]] 5) sharedWithTwo) (by decide +kernel)).symm
  obtain ⟨hhealthy, -, hrestored, -⟩ := hruns 5 2 _ _ (by decide) hrun
  exact ⟨_, _, hcalls, hrun, by decide +kernel, by decide +kernel, hhealthy,
    hrestored (by decide +kernel)⟩

/-! ## With 128 subscribers -/

/-- The session thread waits for `manager->lock`, which it holds. -/
def selfWaiting (s : SessionState) : Bool :=
  match s.manager.pc with
  | .selfLocked _ => true
  | _ => false

/-- It is so at one place. -/
lemma exists_rest_of_selfWaiting (h : s.selfWaiting = true) :
    ∃ rest, s.manager.pc = .selfLocked rest := by
  rw [selfWaiting] at h
  cases hpc : s.manager.pc with
  | selfLocked rest => exact ⟨rest, rfl⟩
  | _ => rw [hpc] at h; cases h

/-- The calls of `add_chunk` have then not returned. -/
lemma returned_of_selfWaiting (h : s.selfWaiting = true) : s.manager.returned = false := by
  obtain ⟨rest, hpc⟩ := exists_rest_of_selfWaiting h
  rw [Subscription.returned, hpc]
  rfl

/-- Who waits for itself does so for ever, and nothing more is added to the container. -/
lemma stays_selfWaiting (h : s.selfWaiting = true) (hrun : Run step anyStep s t) :
    t.selfWaiting = true ∧ t.manager.container = s.manager.container := by
  apply hrun.invariant (I := fun t => t.selfWaiting = true ∧
    t.manager.container = s.manager.container) ⟨h, rfl⟩
  rintro t e u ⟨ht, hcontainer⟩ - hst
  obtain ⟨rest, hpc⟩ := exists_rest_of_selfWaiting ht
  rcases step_cases hst with ⟨e, -, -, hm, -⟩ | ⟨-, hasleep, -, -⟩
  · cases e with
    | subscribe fd allocated =>
      rw [Subscription.step] at hm
      split_ifs at hm
      obtain heq : t.manager.subscribe fd allocated = u.manager := Option.some.inj hm
      -- a client changes neither the place of the session thread nor the container
      rw [selfWaiting, ← heq]
      cases allocated <;> exact ⟨ht, hcontainer⟩
    | session allocated =>
      rw [Subscription.step, Subscription.sessionStep, hpc] at hm
      cases hm
    | worker k sent =>
      obtain ⟨task, sub, pc, -, -, heq⟩ := Subscription.workerStep_eq_some hm
      rw [selfWaiting, heq]
      exact ⟨ht, hcontainer⟩
  · rw [asleep, hpc] at hasleep
    cases hasleep

/-- Full fillings of the buffer and a last one. -/
lemma shareLoop_flatten {last : List UInt8} (hne : last ≠ [])
    (hlast : last.length ≤ cacheBufferSize) {buffers : List (List UInt8)}
    (hfull : ∀ buffer ∈ buffers, buffer.length = cacheBufferSize)
    (front : List UInt8) {fuel : ℕ} (hfuel : (buffers.flatten ++ last).length < fuel) :
    shareLoop (front ++ (buffers.flatten ++ last)) fuel front.length =
      some ((buffers ++ [last]).map Payload.ofBytes) := by
  have hpos : 0 < last.length := List.length_pos_iff.mpr hne
  induction buffers generalizing front fuel with
  | nil =>
    have hfuel : last.length < fuel := hfuel
    obtain ⟨fuel, rfl⟩ : ∃ n, fuel = n + 2 := ⟨fuel - 2, by omega⟩
    have hread : fread (front ++ last) front.length = last := by
      rw [fread, List.drop_left, List.take_of_length_le hlast]
    -- the round after the last filling reads nothing
    have hend : fread (front ++ last) (front.length + last.length) = [] := by
      rw [fread, ← List.length_append, List.drop_length, List.take_nil]
    show shareLoop (front ++ last) (fuel + 2) front.length = _
    rw [shareLoop, hread, if_pos hpos, shareLoop, hend]
    rfl
  | cons buffer buffers ih =>
    obtain ⟨hbuffer, hbuffers⟩ := List.forall_mem_cons.mp hfull
    have hsize : 0 < buffer.length := hbuffer ▸ (by decide : 0 < cacheBufferSize)
    rw [List.flatten_cons, List.append_assoc, List.length_append] at hfuel
    obtain ⟨fuel, rfl⟩ := Nat.exists_eq_add_one.mpr (Nat.zero_lt_of_lt hfuel)
    have hread : fread (front ++ buffer ++ (buffers.flatten ++ last)) front.length = buffer := by
      rw [fread, List.append_assoc, List.drop_left, List.take_left' hbuffer]
    have hrest : shareLoop (front ++ buffer ++ (buffers.flatten ++ last)) fuel
        (front ++ buffer).length = some ((buffers ++ [last]).map Payload.ofBytes) :=
      ih hbuffers (front ++ buffer) (by omega)
    rw [List.flatten_cons, List.append_assoc, ← List.append_assoc front, shareLoop, hread,
      if_pos hsize, ← List.length_append, hrest]
    rfl

/-- The calls of `add_chunk` for a saved container, when its content is known in fillings. -/
lemma shareCache_of_fillings (files : Files) (cachename : CharArray cachenameLen)
    {container : ChunkContainer} {buffers : List (List UInt8)} {last : List UInt8}
    (hcontent : container.content = buffers.flatten ++ last)
    (hfull : ∀ buffer ∈ buffers, buffer.length = cacheBufferSize)
    (hne : last ≠ []) (hlast : last.length ≤ cacheBufferSize) :
    shareCache (saveCache files container cachename) cachename =
      some ((buffers ++ [last]).map Payload.ofBytes) := by
  rw [saveCache_eq, shareCache, Function.update_self, hcontent]
  exact shareLoop_flatten hne hlast hfull [] (Nat.lt_succ_self _)

/-- Two full fillings of the buffer. -/
def twoFillings : List (List UInt8) := List.replicate 2 (List.replicate cacheBufferSize 97)

/-- The calls of `add_chunk` for a file of two full fillings of the buffer and one byte. -/
def threeFillings : List Payload := (twoFillings ++ [[98]]).map Payload.ofBytes

/-- The length of this file. -/
lemma length_threeFillings : (addAll threeFillings).content.length = 2 * cacheBufferSize + 1 := by
  rw [threeFillings, content_addAll, List.flatten_append, List.length_append, twoFillings,
    List.length_flatten, List.map_replicate, List.length_replicate, List.sum_replicate_nat]
  rfl

/-- All 128 clients have subscribed when `add_chunk` is called, which returns before their tasks
begin; after the second `__add_chunk` the task of the first client sends both chunks. -/
def earlyReturn : List SessionEvent :=
  List.replicate 127 (.choice (.subscribe 5 true)) ++
    List.replicate 135 (.choice (.session true)) ++
    List.replicate 3 (.choice (.worker 0 (some 1))) ++
    List.replicate 5 (.choice (.worker 0 (some cacheBufferSize))) ++
    List.replicate 2 (.choice (.session true))

/-- The session thread waits then for itself, and two fillings are in the container. -/
lemma exists_earlyReturn : ∃ s,
    execWhere step (orderly 128 · · = true) (start threeFillings 5) earlyReturn = some s ∧
      s.selfWaiting = true ∧ s.manager.container.content.length = 2 * cacheBufferSize := by
  have hrun := (Option.some_get (x := execWhere step (orderly 128 · · = true)
    (start threeFillings 5) earlyReturn) (by decide +kernel)).symm
  exact ⟨_, hrun, by decide +kernel, by decide +kernel⟩

/-- With 128 subscribers the session thread may come to wait for itself in the second call, with the
third filling of the buffer still to come. -/
theorem share_cache_selfLocks :
    shareCache (saveCache (fun _ => none) (addAll threeFillings) sampleCachename) sampleCachename =
        some threeFillings ∧
      ∃ s, execWhere step (orderly 128 · · = true) (start threeFillings 5) earlyReturn = some s ∧
        ∀ t, Run step anyStep s t →
          t.manager.returned = false ∧
            ¬ Shared (addAll threeFillings).content t.manager.container := by
  refine ⟨?_, ?_⟩
  · have hcontent : (addAll threeFillings).content = twoFillings.flatten ++ [98] := by
      rw [threeFillings, content_addAll, List.flatten_append]
      rfl
    apply shareCache_of_fillings _ _ hcontent _ (List.cons_ne_nil _ _) (by decide)
    intro buffer hmem
    rw [List.eq_of_mem_replicate hmem, List.length_replicate]
  · obtain ⟨s, hrun, hself, hshort⟩ := exists_earlyReturn
    refine ⟨s, hrun, fun t ht => ?_⟩
    obtain ⟨hself', hcontainer⟩ := stays_selfWaiting hself ht
    refine ⟨returned_of_selfWaiting hself', fun hshared => ?_⟩
    have hlength := congrArg List.length hshared.content
    rw [hcontainer, length_threeFillings, hshort] at hlength
    omega

end SessionState

end OsLabs.Proxy
