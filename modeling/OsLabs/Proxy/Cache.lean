import OsLabs.Foundation.CText
import OsLabs.Proxy.Barrier
import OsLabs.Proxy.ChunkMemory

/-!
# The cache

`save_cache` and `share_cache` of `lab3/src/chunk/cache.c`, with file operations that succeed.
`save_cache` writes the chunks as they are; `share_cache` reads the file through a buffer of
`CACHE_BUFFER_SIZE` bytes and calls `add_chunk` for each filling, with the number of bytes as the
`element_size`. These calls are made by the session thread of `Subscription.lean`, which appends the
chunks while the workers send them; `Sharing` is what all runs preserve meanwhile.
-/

namespace OsLabs.Proxy

open Transition

/-- `CACHE_BUFFER_SIZE`. -/
def cacheBufferSize : ℕ := 4048

/-- `CACHENAME_LEN`. -/
def cachenameLen : ℕ := 512

/-- The text `../cache/`. -/
def cacheDirectory : CString :=
  ⟨CString.ascii ['.', '.', '/', 'c', 'a', 'c', 'h', 'e', '/'], by decide⟩

/-- A name in the cache directory fits into `full_cachename`. -/
lemma length_fullCachename (cachename : CharArray cachenameLen) :
    (cacheDirectory ++ cachename.toCString).bytes.length < cachenameLen + 10 := by
  have hlen := cachename.fits
  show (cacheDirectory.bytes ++ cachename.bytes).length < cachenameLen + 10
  rw [List.length_append, show cacheDirectory.bytes.length = 9 from rfl]
  omega

/-- `sprintf(full_cachename, "../cache/%s", cachename)`. -/
def fullCachename (cachename : CharArray cachenameLen) : CharArray (cachenameLen + 10) :=
  ⟨cacheDirectory ++ cachename.toCString, length_fullCachename cachename⟩

/-- The name `GET_a_1.cch`. -/
def sampleCachename : CharArray cachenameLen :=
  ⟨⟨CString.ascii ['G', 'E', 'T', '_', 'a', '_', '1', '.', 'c', 'c', 'h'], by decide⟩, by decide⟩

/-- The files, by their names; `none` where there is none. -/
abbrev Files := CString → Option (List UInt8)

/-- `fwrite(chunk->data, chunk->element_size, chunk->size, file)`, with the bytes that are in the
file once `fclose` has written what is left in the buffer of the stream. -/
def Chunk.fwrite (chunk : Chunk) (file : List UInt8) : List UInt8 :=
  file ++ chunk.data.take (chunk.elementSize * chunk.size)

/-- The loop of `save_cache` on the chunks in memory, from the chunk `current`. -/
def saveLoop (nodes : Heap ChunkNode) : ℕ → Option ℕ → List UInt8 → Option (List UInt8)
  | _, none, file => some file
  | 0, some _, _ => none
  | fuel + 1, some current, file =>
    (nodes.cell current).bind fun chunk =>
      chunk.data.bind fun data =>
        saveLoop nodes fuel chunk.next (file ++ data.take (chunk.elementSize * chunk.size))

/-- `save_cache`. -/
def saveCache (files : Files) (container : ChunkContainer) (cachename : CharArray cachenameLen) :
    Files :=
  Function.update files (fullCachename cachename).toCString
    (some (container.chunks.foldl (fun file chunk => chunk.fwrite file) []))

/-- The bytes that `fread(buffer, 1, CACHE_BUFFER_SIZE, file)` reads at a position of the file. -/
def fread (file : List UInt8) (position : ℕ) : List UInt8 :=
  (file.drop position).take cacheBufferSize

/-- The arguments of the calls of `add_chunk` in the loop of `share_cache`, from a position of the
file on; no more than `fuel` rounds. -/
def shareLoop (file : List UInt8) : ℕ → ℕ → Option (List Payload)
  | 0, _ => none
  | fuel + 1, position =>
    if 0 < (fread file position).length then
      (shareLoop file fuel (position + (fread file position).length)).map
        (Payload.ofBytes (fread file position) :: ·)
    else some []

/-- The arguments of the calls of `add_chunk` that `share_cache` makes. -/
def shareCache (files : Files) (cachename : CharArray cachenameLen) : Option (List Payload) :=
  match files (fullCachename cachename).toCString with
  | none => some []
  | some file => shareLoop file (file.length + 1) 0

/-! ## Writing -/

/-- `fwrite` writes the data of the chunk. -/
lemma Chunk.fwrite_eq (chunk : Chunk) (file : List UInt8) :
    chunk.fwrite file = file ++ chunk.data := by
  rw [fwrite, ← chunk.length_data, List.take_length]

/-- The loop of `save_cache` writes the data of all chunks. -/
lemma foldl_fwrite (chunks : List Chunk) (file : List UInt8) :
    chunks.foldl (fun file chunk => chunk.fwrite file) file =
      file ++ chunks.flatMap Chunk.data := by
  induction chunks generalizing file with
  | nil => exact (List.append_nil file).symm
  | cons chunk chunks ih =>
    rw [List.foldl_cons, ih, chunk.fwrite_eq, List.flatMap_cons, List.append_assoc]

/-- `save_cache` writes the content of the container. -/
lemma saveCache_eq (files : Files) (container : ChunkContainer)
    (cachename : CharArray cachenameLen) :
    saveCache files container cachename =
      Function.update files (fullCachename cachename).toCString (some container.content) := by
  rw [saveCache, foldl_fwrite, List.nil_append, ChunkContainer.content]

/-- On the chunks in memory the loop of `save_cache` follows no bad pointer and writes the same. -/
lemma saveLoop_eq {nodes : Heap ChunkNode} {current : Option ℕ} {l : List (ℕ × ChunkFields)}
    {chunks : List Chunk} {file : List UInt8} {fuel : ℕ}
    (hpath : nodes.Path ChunkNode.next ChunkNode.toChunkFields current l none)
    (hfields : l.map Prod.snd = chunks.map Chunk.fields) (hfuel : l.length ≤ fuel) :
    saveLoop nodes fuel current file =
      some (chunks.foldl (fun file chunk => chunk.fwrite file) file) := by
  induction chunks generalizing l current file fuel with
  | nil =>
    rw [List.map_eq_nil_iff.mp hfields] at hpath
    rw [hpath.eq_of_nil, saveLoop]
    rfl
  | cons chunk chunks ih =>
    cases l with
    | nil => cases hfields
    | cons x l =>
      rw [List.map_cons, List.map_cons, List.cons.injEq] at hfields
      obtain ⟨fuel, rfl⟩ := Nat.exists_eq_add_one.mpr (Nat.lt_of_lt_of_le (Nat.succ_pos _) hfuel)
      obtain ⟨node, hnode, hval, hrest⟩ := hpath.head
      have hchunk : node.toChunkFields = chunk.fields := hval.trans hfields.1
      rw [hpath.start_eq, saveLoop, hnode, Option.bind_some, hchunk]
      exact ih hrest hfields.2 (Nat.le_of_succ_le_succ hfuel)

/-- In memory that holds a container, the loop writes what `saveCache` puts into the file. -/
theorem ContainerMemory.Represents.saveLoop {memory : ContainerMemory}
    {l : List (ℕ × ChunkFields)} {container : ChunkContainer}
    (h : memory.Represents l container) :
    saveLoop memory.nodes memory.nodes.cells.length memory.first [] =
      some (container.chunks.foldl (fun file chunk => chunk.fwrite file) []) :=
  saveLoop_eq h.linked.forward h.fields h.linked.forward.length_le

/-! ## Reading -/

/-- A list of bytes cut into pieces of the size of the buffer, of which only the last one may be
shorter. -/
structure Fillings (bytes : List UInt8) (buffers : List (List UInt8)) : Prop where
  flatten : buffers.flatten = bytes
  nonempty : ∀ buffer ∈ buffers, buffer ≠ []
  full : ∀ buffer ∈ buffers.dropLast, buffer.length = cacheBufferSize

/-- A filling of the buffer and what is behind it are the rest of the file. -/
lemma fread_append (file : List UInt8) (position : ℕ) :
    fread file position ++ file.drop (position + (fread file position).length) =
      file.drop position := by
  rw [← List.drop_drop, fread, List.length_take]
  rcases Nat.le_total cacheBufferSize (file.drop position).length with h | h
  · rw [Nat.min_eq_left h, List.take_append_drop]
  · rw [Nat.min_eq_right h, List.take_of_length_le h, List.drop_length, List.append_nil]

/-- A filling in front of others that begin where it ends. -/
lemma Fillings.cons {file : List UInt8} {position : ℕ} {buffers : List (List UInt8)}
    (h : Fillings (file.drop (position + (fread file position).length)) buffers)
    (hpos : 0 < (fread file position).length) :
    Fillings (file.drop position) (fread file position :: buffers) := by
  refine ⟨?_, ?_, ?_⟩
  · rw [List.flatten_cons, h.flatten, fread_append]
  · intro buffer hmem
    rcases List.mem_cons.mp hmem with rfl | hmem
    · exact List.length_pos_iff.mp hpos
    · exact h.nonempty buffer hmem
  · cases buffers with
    | nil => exact nofun
    | cons next buffers =>
      intro buffer hmem
      rw [List.dropLast_cons_cons] at hmem
      rcases List.mem_cons.mp hmem with rfl | hmem
      · -- behind a filling that is not full there is nothing left
        by_contra hshort
        have hlen : (fread file position).length =
            min cacheBufferSize (file.length - position) := by
          rw [fread, List.length_take, List.length_drop]
        have hnil : (next :: buffers).flatten = [] := by
          rw [h.flatten, List.drop_eq_nil_of_le]
          omega
        exact h.nonempty next List.mem_cons_self
          (List.flatten_eq_nil_iff.mp hnil next List.mem_cons_self)
      · exact h.full buffer hmem

/-- The loop of `share_cache` reads the rest of the file in fillings of the buffer. -/
lemma exists_shareLoop (file : List UInt8) (fuel position : ℕ)
    (hfuel : file.length - position < fuel) :
    ∃ buffers, shareLoop file fuel position = some (buffers.map Payload.ofBytes) ∧
      Fillings (file.drop position) buffers := by
  induction fuel generalizing position with
  | zero => omega
  | succ fuel ih =>
    have hlen : (fread file position).length = min cacheBufferSize (file.length - position) := by
      rw [fread, List.length_take, List.length_drop]
    have hsize : 0 < cacheBufferSize := by decide
    by_cases hpos : 0 < (fread file position).length
    · obtain ⟨buffers, hloop, hbuffers⟩ :=
        ih (position + (fread file position).length) (by omega)
      refine ⟨fread file position :: buffers, ?_, hbuffers.cons hpos⟩
      rw [shareLoop, if_pos hpos, hloop, Option.map_some, List.map_cons]
    · refine ⟨[], by rw [shareLoop, if_neg hpos]; rfl, ?_, nofun, nofun⟩
      rw [List.flatten_nil, List.drop_eq_nil_of_le]
      omega

/-- The calls of `add_chunk` in `share_cache` are those for the fillings of the file. -/
lemma exists_shareCache {files : Files} {cachename : CharArray cachenameLen} {file : List UInt8}
    (hfile : files (fullCachename cachename).toCString = some file) :
    ∃ buffers, shareCache files cachename = some (buffers.map Payload.ofBytes) ∧
      Fillings file buffers := by
  obtain ⟨buffers, hloop, hbuffers⟩ := exists_shareLoop file (file.length + 1) 0 (by omega)
  rw [List.drop_zero] at hbuffers
  refine ⟨buffers, ?_, hbuffers⟩
  rw [shareCache, hfile]
  exact hloop

/-! ## The chunks of the reader -/

/-- The container after `add_chunk` was called with these arguments. -/
def addAll (calls : List Payload) : ChunkContainer :=
  calls.foldl (fun container p => container.addChunk p true) ChunkContainer.create

/-- One call more. -/
lemma addAll_concat (calls : List Payload) (p : Payload) :
    addAll (calls ++ [p]) = (addAll calls).addChunk p true := by
  rw [addAll, List.foldl_append]
  rfl

/-- Each filling of the buffer becomes a chunk. -/
lemma data_addAll (buffers : List (List UInt8)) :
    (addAll (buffers.map Payload.ofBytes)).chunks.map Chunk.data = buffers := by
  induction buffers using List.reverseRecOn with
  | nil => rfl
  | append_singleton buffers buffer ih =>
    obtain ⟨hlength, hpush⟩ := (addAll (buffers.map Payload.ofBytes)).addChunk_of_data
      (p := Payload.ofBytes buffer) (by decide : 1 ≠ 0) rfl
    rw [List.map_append, List.map_singleton, addAll_concat, hpush, ChunkContainer.push,
      List.map_append, ih]
    rfl

/-- The content of these chunks. -/
lemma content_addAll (buffers : List (List UInt8)) :
    (addAll (buffers.map Payload.ofBytes)).content = buffers.flatten := by
  rw [ChunkContainer.content, List.flatMap_def, data_addAll]

/-- The container of the reader has the content of the file, in chunks of the size of the buffer. -/
structure Shared (content : List UInt8) (container : ChunkContainer) : Prop where
  content : container.content = content
  full : ∀ chunk ∈ container.chunks.dropLast, chunk.data.length = cacheBufferSize
  nonempty : ∀ chunk ∈ container.chunks, chunk.data ≠ []

/-- The chunks for the fillings of the buffer are those of the reader. -/
lemma Fillings.shared {content : List UInt8} {buffers : List (List UInt8)}
    (h : Fillings content buffers) : Shared content (addAll (buffers.map Payload.ofBytes)) := by
  have hdata := data_addAll buffers
  refine ⟨?_, fun chunk hmem => ?_, fun chunk hmem => ?_⟩
  · rw [content_addAll, h.flatten]
  · refine h.full chunk.data ?_
    rw [← hdata, ← List.map_dropLast]
    exact List.mem_map_of_mem hmem
  · refine h.nonempty chunk.data ?_
    rw [← hdata]
    exact List.mem_map_of_mem hmem

/-! ## The calls of the session thread -/

/-- The arguments of the current call of `add_chunk`, as long as its chunk is not appended. -/
def SessionPc.pending : SessionPc → List Payload
  | .adding p => [p]
  | _ => []

namespace Subscription

variable {s s₀ t : Subscription} {calls : List Payload} {e : SubscriptionEvent}

/-- A manager with an empty container and at least one subscriber, whose session thread is about to
make the calls of `add_chunk`. -/
structure Begins (calls : List Payload) (s : Subscription) : Prop where
  container : s.container = ChunkContainer.create
  pc : s.pc = .idle
  todo : s.todo = calls
  linked : s.linked ≠ []

/-- The calls of `add_chunk` have returned: the session thread is before `finish_pending_chunks` or
in it. -/
def returned (s : Subscription) : Bool := s.pc.betweenCalls && s.todo.isEmpty || s.pc.tearing

/-- The container has the chunks of the calls that were made; there is a subscriber until the
session ends, and it ends after the last call. -/
structure Sharing (calls : List Payload) (s : Subscription) : Prop where
  linked : s.pc.tearing = false → s.linked ≠ []
  alive : s.pc ≠ .crashed
  ended : s.pc.tearing = true → s.todo = []
  made : ∃ made, calls = made ++ (s.pc.pending ++ s.todo) ∧ s.container = addAll made

/-- At the beginning no call was made. -/
lemma Begins.sharing (h : Begins calls s) : Sharing calls s := by
  refine ⟨fun _ => h.linked, ?_, fun htearing => ?_, [], ?_, h.container⟩
  · rw [h.pc]
    exact nofun
  · rw [h.pc] at htearing
    cases htearing
  · rw [h.pc, h.todo]
    rfl

/-- A step of the session thread. -/
lemma Sharing.session (h : Sharing calls s) (hm : SessionMove s true t) : Sharing calls t := by
  obtain ⟨hlinked, halive, hended, made, hcalls, hcontainer⟩ := h
  cases hm with
  | crash hpc _ hnone => exact absurd hnone (hlinked (by rw [hpc]; rfl))
  | lock hpc htodo hsome _ =>
    rw [hpc, htodo] at hcalls
    exact ⟨fun _ => hsome, nofun, nofun, made, hcalls, hcontainer⟩
  | @add p hpc =>
    rw [hpc] at hlinked hcalls
    refine ⟨hlinked, nofun, nofun, made ++ [p], ?_, ?_⟩
    · rw [hcalls, List.append_assoc]
      rfl
    · show s.container.addChunk p true = _
      rw [hcontainer, addAll_concat]
  | finish hpc htodo =>
    rw [hpc] at hcalls
    exact ⟨nofun, nofun, fun _ => htodo, made, hcalls, hcontainer⟩
  | visit hpc | unlink hpc | close hpc =>
    rw [hpc] at hended hcalls
    exact ⟨nofun, nofun, hended, made, hcalls, hcontainer⟩
  | start hpc | pushed hpc | selfLock hpc | push hpc | wait hpc | return_ hpc | wake hpc =>
    rw [hpc] at hlinked hcalls
    exact ⟨hlinked, nofun, nofun, made, hcalls, hcontainer⟩

/-- Every step of the system. -/
lemma Sharing.step (h : Sharing calls s) (hok : allSucceed s e = true) (hst : s.step e = some t) :
    Sharing calls t := by
  cases e with
  | subscribe fd allocated =>
    obtain rfl : allocated = true := hok
    simp only [Subscription.step] at hst
    split_ifs at hst
    cases hst
    exact ⟨fun _ => List.append_ne_nil_of_right_ne_nil _ (List.cons_ne_nil _ _), h.alive, h.ended,
      h.made⟩
  | session allocated =>
    obtain rfl : allocated = true := hok
    exact h.session (sessionMove_of_step hst)
  | worker k sent =>
    obtain ⟨task, sub, pc, -, -, rfl⟩ := workerStep_eq_some hst
    exact ⟨h.linked, h.alive, h.ended, h.made⟩

/-- When the calls of `add_chunk` have returned, the container has their chunks. -/
lemma Sharing.container_eq (h : Sharing calls s) (hreturned : s.returned = true) :
    s.container = addAll calls := by
  obtain ⟨-, -, hended, made, hcalls, hcontainer⟩ := h
  have hrest : s.pc.pending = [] ∧ s.todo = [] := by
    rcases Bool.or_eq_true_iff.mp hreturned with hidle | htearing
    · obtain ⟨hpc, htodo⟩ := Bool.and_eq_true_iff.mp hidle
      refine ⟨?_, List.isEmpty_iff.mp htodo⟩
      cases hpc' : s.pc <;> rw [hpc'] at hpc <;> first | rfl | cases hpc
    · refine ⟨?_, hended htearing⟩
      cases hpc' : s.pc <;> rw [hpc'] at htearing <;> first | rfl | cases htearing
  rw [hcontainer, hcalls, hrest.1, hrest.2, List.append_nil, List.append_nil]

/-- In every run without failures the session thread finds a subscriber, and when its calls have
returned, the container has their chunks. -/
theorem container_of_calls (hbegins : Begins calls s₀)
    (hrun : Run step (allSucceed · · = true) s₀ s) :
    s.pc ≠ .crashed ∧ (s.returned = true → s.container = addAll calls) := by
  have hsharing : Sharing calls s := hrun.invariant hbegins.sharing fun _ _ _ h hok hst =>
    h.step hok hst
  exact ⟨hsharing.alive, hsharing.container_eq⟩

end Subscription

end OsLabs.Proxy
