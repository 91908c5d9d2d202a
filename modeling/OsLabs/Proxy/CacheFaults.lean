import OsLabs.Proxy.Cache

/-!
# Cache entries that were not written in full

`save_cache` with a file that cannot be opened, with writes that are short or fail, and with a
program that stops before the end.  `fwrite` puts bytes into the buffer of the stream, from which
they reach the file later, at the latest in `fclose`; whenever that fails, bytes may be lost.  The
file is there from `fopen` on, and the results of `fwrite` and `fclose` are ignored, so whatever has
reached the file is what `__check_cache` finds later and `share_cache` reads.  Where that is every
byte, the effect is the one of `saveCache` (`saveCacheWith_eq`).
-/

namespace OsLabs.Proxy

variable {files : Files} {container : ChunkContainer} {cachename : CharArray cachenameLen}

/-- A stream that is open for writing: the file, and what is in the buffer of the stream. -/
structure Stream where
  file : List UInt8
  buffer : List UInt8

/-- What happens in a call of `fwrite`: so many bytes are taken into the buffer, then so many bytes
of the buffer reach the file, and so many behind them are lost. -/
structure FwriteOutcome where
  accepted : ℕ
  written : ℕ
  lost : ℕ

namespace Stream

/-- The stream after `fopen(full_cachename, "wb")`. -/
def empty : Stream := ⟨[], []⟩

/-- `fwrite(chunk->data, chunk->element_size, chunk->size, file)`. -/
def fwrite (stream : Stream) (chunk : Chunk) (outcome : FwriteOutcome) : Stream :=
  let buffer := stream.buffer ++
    (chunk.data.take (chunk.elementSize * chunk.size)).take outcome.accepted
  ⟨stream.file ++ buffer.take outcome.written, buffer.drop (outcome.written + outcome.lost)⟩

/-- `fclose`, in which so many bytes of the buffer reach the file; `none` where the program stops
before it. -/
def fclose (stream : Stream) (written : Option ℕ) : List UInt8 :=
  stream.file ++ stream.buffer.take (written.getD 0)

end Stream

/-- What happens after `fopen`: one outcome for each `fwrite` that is made before the program stops,
and the one of `fclose`. -/
structure SaveOutcome where
  fwrites : List FwriteOutcome
  fclose : Option ℕ

/-- The loop of `save_cache` and its `fclose`, with the bytes that are in the file in the end. -/
def writeLoop : List Chunk → List FwriteOutcome → Option ℕ → Stream → List UInt8
  | [], _, written, stream => stream.fclose written
  | current :: next, outcome :: outcomes, written, stream =>
    writeLoop next outcomes written (stream.fwrite current outcome)
  -- the program stops
  | _ :: _, [], _, stream => stream.file

/-- `save_cache`; `none` is a failing `fopen`. -/
def saveCacheWith (files : Files) (container : ChunkContainer)
    (cachename : CharArray cachenameLen) : Option SaveOutcome → Files
  | none => files
  | some outcome =>
    Function.update files (fullCachename cachename).toCString
      (some (writeLoop container.chunks outcome.fwrites outcome.fclose Stream.empty))

/-- `cache_exists(cachename) == 0`. -/
def cacheExists (files : Files) (cachename : CharArray cachenameLen) : Bool :=
  (files (fullCachename cachename).toCString).isSome

/-- Every byte reaches the file, when so many are in the buffer: each `fwrite` takes all bytes of
its chunk, none is lost behind those that are written, and what is left in the end is written by
`fclose`.  A program that stops has nothing left to write. -/
def AllReach : ℕ → List Chunk → List FwriteOutcome → Option ℕ → Prop
  | buffered, [], _, written => buffered ≤ written.getD 0
  | buffered, current :: next, outcome :: outcomes, written =>
    current.data.length ≤ outcome.accepted ∧
    (outcome.lost = 0 ∨ buffered + current.data.length ≤ outcome.written) ∧
    AllReach (buffered + current.data.length - outcome.written) next outcomes written
  | buffered, current :: next, [], _ => buffered = 0 ∧ ∀ chunk ∈ current :: next, chunk.data = []

/-- A later hit reads the content of the container. -/
def StoredInFull (files : Files) (container : ChunkContainer) (cachename : CharArray cachenameLen) :
    Prop :=
  cacheExists files cachename = true → ∃ calls, shareCache files cachename = some calls ∧
    (addAll calls).content = container.content

/-- A call of `fwrite` whose bytes are all taken, and that loses none. -/
lemma Stream.fwrite_of_full (stream : Stream) {chunk : Chunk} {outcome : FwriteOutcome}
    (haccepted : chunk.data.length ≤ outcome.accepted)
    (hlost : outcome.lost = 0 ∨ stream.buffer.length + chunk.data.length ≤ outcome.written) :
    stream.fwrite chunk outcome =
      ⟨stream.file ++ (stream.buffer ++ chunk.data).take outcome.written,
        (stream.buffer ++ chunk.data).drop outcome.written⟩ := by
  rw [Stream.fwrite, ← chunk.length_data, List.take_length, List.take_of_length_le haccepted]
  rcases hlost with hlost | hlost
  · rw [hlost, Nat.add_zero]
  · rw [← List.length_append] at hlost
    rw [List.drop_of_length_le (Nat.le_add_right_of_le hlost), List.drop_of_length_le hlost]

/-- What a call of `fwrite` adds to the file, and what is in the buffer behind it. -/
lemma Stream.exists_fwrite (stream : Stream) (chunk : Chunk) (outcome : FwriteOutcome) :
    ∃ bytes, (stream.fwrite chunk outcome).file = stream.file ++ bytes ∧
      bytes.length + (stream.fwrite chunk outcome).buffer.length ≤
        stream.buffer.length + chunk.data.length ∧
      (bytes.length + (stream.fwrite chunk outcome).buffer.length =
        stream.buffer.length + chunk.data.length → chunk.data.length ≤ outcome.accepted ∧
          (outcome.lost = 0 ∨ stream.buffer.length + chunk.data.length ≤ outcome.written)) := by
  refine ⟨_, rfl, ?_, fun hlen => ?_⟩
  · unfold Stream.fwrite
    simp only [List.length_take, List.length_drop, List.length_append]
    omega
  · unfold Stream.fwrite at hlen
    simp only [List.length_take, List.length_drop, List.length_append, ← chunk.length_data,
      Nat.min_self] at hlen
    omega

/-- What the loop adds to the file is no longer than the buffer and the chunks, and as long only if
every byte reaches the file. -/
lemma writeLoop_spec (chunks : List Chunk) (outcomes : List FwriteOutcome) (written : Option ℕ)
    (stream : Stream) :
    ∃ bytes, writeLoop chunks outcomes written stream = stream.file ++ bytes ∧
      bytes.length ≤ stream.buffer.length + (chunks.flatMap Chunk.data).length ∧
      (bytes = stream.buffer ++ chunks.flatMap Chunk.data ↔
        AllReach stream.buffer.length chunks outcomes written) := by
  induction chunks generalizing outcomes stream with
  | nil =>
    refine ⟨stream.buffer.take (written.getD 0), rfl, ?_, ?_⟩
    · rw [List.length_take]
      exact Nat.le_trans (Nat.min_le_right _ _) (Nat.le_add_right _ _)
    · rw [List.flatMap_nil, List.append_nil, List.take_eq_self_iff]
      rfl
  | cons chunk chunks ih =>
    cases outcomes with
    | nil =>
      refine ⟨[], (List.append_nil _).symm, Nat.zero_le _, ?_⟩
      rw [eq_comm, List.append_eq_nil_iff, List.flatMap_eq_nil_iff, ← List.length_eq_zero_iff]
      rfl
    | cons outcome outcomes =>
      obtain ⟨added, hfile, hle, hall⟩ := stream.exists_fwrite chunk outcome
      obtain ⟨bytes, hloop, hbytes, hreach⟩ := ih outcomes (stream.fwrite chunk outcome)
      have hnext : ∀ (haccepted : chunk.data.length ≤ outcome.accepted)
          (hlost : outcome.lost = 0 ∨ stream.buffer.length + chunk.data.length ≤ outcome.written),
          (added ++ bytes = stream.buffer ++ (chunk.data ++ chunks.flatMap Chunk.data) ↔
            AllReach (stream.buffer.length + chunk.data.length - outcome.written) chunks outcomes
              written) := by
        intro haccepted hlost
        have hstream := stream.fwrite_of_full haccepted hlost
        rw [hstream] at hfile hreach
        rw [List.length_drop, List.length_append] at hreach
        rw [← hreach, ← List.append_cancel_left hfile, ← List.append_assoc stream.buffer,
          ← List.append_cancel_left_eq ((stream.buffer ++ chunk.data).take outcome.written) bytes,
          ← List.append_assoc, List.take_append_drop]
      refine ⟨added ++ bytes, ?_, ?_, ?_⟩
      · rw [writeLoop, hloop, hfile, List.append_assoc]
      · rw [List.flatMap_cons, List.length_append, List.length_append]
        omega
      · rw [List.flatMap_cons, AllReach]
        constructor
        · intro heq
          -- no byte is missing, so this call has taken all of them and lost none
          have hlen := congrArg List.length heq
          simp only [List.length_append] at hlen
          obtain ⟨haccepted, hlost⟩ := hall (by omega)
          exact ⟨haccepted, hlost, (hnext haccepted hlost).mp heq⟩
        · rintro ⟨haccepted, hlost, hrest⟩
          exact (hnext haccepted hlost).mpr hrest

/-- When every byte reaches the file, `save_cache` does what it does without a failure. -/
theorem saveCacheWith_eq {outcome : SaveOutcome}
    (h : AllReach 0 container.chunks outcome.fwrites outcome.fclose) :
    saveCacheWith files container cachename (some outcome) =
      saveCache files container cachename := by
  obtain ⟨bytes, hloop, -, hreach⟩ := writeLoop_spec container.chunks outcome.fwrites
    outcome.fclose Stream.empty
  rw [saveCacheWith, hloop, hreach.mpr h, saveCache_eq, ChunkContainer.content]
  rfl

/-- `share_cache` reads the file as it is. -/
lemma exists_calls_of_file {file : List UInt8}
    (hfile : files (fullCachename cachename).toCString = some file) :
    ∃ calls, shareCache files cachename = some calls ∧ (addAll calls).content = file := by
  obtain ⟨buffers, hcalls, hbuffers⟩ := exists_shareCache hfile
  exact ⟨_, hcalls, hbuffers.shared.content⟩

/-- A file is stored in full if it has the content of the container. -/
lemma storedInFull_iff {file : List UInt8}
    (hfile : files (fullCachename cachename).toCString = some file) :
    StoredInFull files container cachename ↔ file = container.content := by
  obtain ⟨calls, hcalls, hcontent⟩ := exists_calls_of_file hfile
  constructor
  · intro h
    obtain ⟨calls', hcalls', hcontent'⟩ := h (by rw [cacheExists, hfile, Option.isSome_some])
    obtain rfl := Option.some.inj (hcalls'.symm.trans hcalls)
    rw [← hcontent, hcontent']
  · rintro rfl _
    exact ⟨calls, hcalls, hcontent⟩

/-- Where there was no file for the request, `save_cache` leaves an entry that is complete or absent
if and only if the file cannot be opened or every byte of the chunks reaches it. -/
theorem saveCache_stored_iff (hnone : cacheExists files cachename = false)
    (outcome : Option SaveOutcome) :
    StoredInFull (saveCacheWith files container cachename outcome) container cachename ↔
      ∀ opened ∈ outcome, AllReach 0 container.chunks opened.fwrites opened.fclose := by
  cases outcome with
  | none =>
    refine iff_of_true (fun hexists => ?_) nofun
    rw [saveCacheWith, hnone] at hexists
    cases hexists
  | some opened =>
    obtain ⟨bytes, hloop, -, hreach⟩ := writeLoop_spec container.chunks opened.fwrites
      opened.fclose Stream.empty
    have hfile : saveCacheWith files container cachename (some opened)
        (fullCachename cachename).toCString = some bytes := by
      rw [saveCacheWith, Function.update_self, hloop]
      rfl
    rw [storedInFull_iff hfile, ChunkContainer.content]
    exact ⟨fun h o ho => Option.some.inj ho ▸ hreach.mp h, fun h => hreach.mpr (h opened rfl)⟩

/-- The chunks `ab` and `c`, of which the first one stays in the buffer until `fclose`. -/
theorem saveCache_stored_two :
    StoredInFull
      (saveCacheWith (fun _ => none) (addAll [.ofBytes [97, 98], .ofBytes [99]])
        sampleCachename (some ⟨[⟨2, 0, 0⟩, ⟨1, 1, 0⟩], some 2⟩))
      (addAll [.ofBytes [97, 98], .ofBytes [99]]) sampleCachename := by
  refine (saveCache_stored_iff rfl (some ⟨[⟨2, 0, 0⟩, ⟨1, 1, 0⟩], some 2⟩)).mpr ?_
  rintro opened ⟨⟩
  exact ⟨by decide, Or.inl rfl, by decide, Or.inl rfl, Nat.le_refl 2⟩

/-- After the chunks `ab` and `c` were saved, the cache serves `ab` as the whole response. -/
def ServesFirstChunk (outcome : SaveOutcome) : Prop :=
  ∃ files calls,
    files = saveCacheWith (fun _ => none) (addAll [.ofBytes [97, 98], .ofBytes [99]])
      sampleCachename (some outcome) ∧
    cacheExists files sampleCachename = true ∧ shareCache files sampleCachename = some calls ∧
    (addAll calls).content = [97, 98] ∧
    ¬ StoredInFull files (addAll [.ofBytes [97, 98], .ofBytes [99]]) sampleCachename

/-- It is so when the file has these two bytes. -/
lemma servesFirstChunk_of_file {outcome : SaveOutcome}
    (hfile : saveCacheWith (fun _ => none) (addAll [.ofBytes [97, 98], .ofBytes [99]])
      sampleCachename (some outcome) (fullCachename sampleCachename).toCString =
        some [97, 98]) :
    ServesFirstChunk outcome := by
  obtain ⟨calls, hcalls, hcontent⟩ := exists_calls_of_file hfile
  refine ⟨_, calls, rfl, ?_, hcalls, hcontent, ?_⟩
  · rw [cacheExists, hfile, Option.isSome_some]
  · rw [storedInFull_iff hfile]
    decide

/-- The first chunk is served as the whole response: when the second `fwrite` fails, when `fclose`
writes only two of the three bytes in the buffer, and when the program stops with the third one in
the buffer. -/
theorem saveCache_truncated :
    ServesFirstChunk ⟨[⟨2, 0, 0⟩, ⟨0, 0, 0⟩], some 2⟩ ∧
      ServesFirstChunk ⟨[⟨2, 0, 0⟩, ⟨1, 0, 0⟩], some 2⟩ ∧
      ServesFirstChunk ⟨[⟨2, 2, 0⟩, ⟨1, 0, 0⟩], none⟩ :=
  ⟨servesFirstChunk_of_file rfl, servesFirstChunk_of_file rfl, servesFirstChunk_of_file rfl⟩

end OsLabs.Proxy
