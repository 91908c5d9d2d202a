import Mathlib.Data.List.Infix
import Mathlib.Data.Nat.Notation
import Mathlib.Tactic.SplitIfs

/-!
# Chunks

`lab3/src/chunk/chunk.c`: the chunks of a download in the order of their arrival.  A pointer to a
chunk is its position in the list, and a container carries the fact that every chunk has its
position as its `index`, which is what lets `get_chunk` walk from either end.
-/

namespace OsLabs.Proxy

/-- `chunk_t`, without the links. -/
structure Chunk where
  index : ℕ
  elementSize : ℕ
  size : ℕ
  data : List UInt8
  length_data : data.length = elementSize * size

/-- The number of bytes that is sent for a chunk: `size * element_size`. -/
def Chunk.bytes (chunk : Chunk) : ℕ := chunk.size * chunk.elementSize

/-- These are all bytes of its data. -/
lemma Chunk.bytes_eq (chunk : Chunk) : chunk.bytes = chunk.data.length := by
  rw [bytes, Nat.mul_comm, chunk.length_data]

/-- The arguments `data`, `element_size` and `size` of `add_chunk`; `none` is a null pointer. -/
structure Payload where
  data : Option (List UInt8)
  elementSize : ℕ
  size : ℕ
  length_data : ∀ d, data = some d → d.length = elementSize * size

/-- The arguments for the bytes of a buffer, as the callback of the download passes them. -/
def Payload.ofBytes (data : List UInt8) : Payload where
  data := some data
  elementSize := data.length
  size := 1
  length_data d hd := by rw [← Option.some.inj hd, Nat.mul_one]

/-- `chunk_container_t`: the chunks from `first` to `last`. -/
structure ChunkContainer where
  chunks : List Chunk
  indexed : ∀ (i : ℕ) (chunk : Chunk), chunks[i]? = some chunk → chunk.index = i

namespace ChunkContainer

/-- `create_chunk_container`. -/
def create : ChunkContainer := ⟨[], fun i chunk h => by simp at h⟩

/-- `count`. -/
def count (container : ChunkContainer) : ℕ := container.chunks.length

/-- The index of a new chunk: `container->last ? container->last->index + 1 : 0`. -/
def newIndex (container : ChunkContainer) : ℕ :=
  match container.chunks.getLast? with
  | some last => last.index + 1
  | none => 0

/-- The new index is the number of chunks. -/
lemma newIndex_eq (container : ChunkContainer) : container.newIndex = container.count := by
  unfold newIndex count
  cases hlast : container.chunks.getLast? with
  | none => rw [List.getLast?_eq_none_iff.mp hlast, List.length_nil]
  | some last =>
    rw [List.getLast?_eq_getElem?] at hlast
    have hlen : container.chunks.length - 1 < container.chunks.length :=
      (List.getElem?_eq_some_iff.mp hlast).1
    simp only [container.indexed _ _ hlast]
    omega

/-- Appends a chunk with the next index. -/
def push (container : ChunkContainer) (data : List UInt8) (elementSize size : ℕ)
    (h : data.length = elementSize * size) : ChunkContainer where
  chunks := container.chunks ++ [⟨container.newIndex, elementSize, size, data, h⟩]
  indexed i chunk hi := by
    rcases Nat.lt_trichotomy i container.chunks.length with hlt | rfl | hgt
    · rw [List.getElem?_append_left hlt] at hi
      exact container.indexed i chunk hi
    · rw [List.getElem?_concat_length, Option.some.injEq] at hi
      rw [← hi]
      exact container.newIndex_eq
    · rw [List.getElem?_eq_none (by rw [List.length_append, List.length_singleton]; omega)] at hi
      cases hi

/-- `__add_chunk`, whose allocations succeed or not. -/
def addChunk (container : ChunkContainer) (p : Payload) (allocated : Bool) : ChunkContainer :=
  match h : p.data with
  | none => container
  | some data =>
    if p.size = 0 || !allocated then container
    else container.push data p.elementSize p.size (p.length_data data h)

/-- `get_chunk`: the walk starts at the end that is nearer to the index. -/
def getChunk (container : ChunkContainer) (index : ℕ) : Option ℕ :=
  if container.count ≤ index then none
  else if index < container.count / 2 then
    container.chunks.findIdx? (·.index == index)
  else (container.chunks.reverse.findIdx? (·.index == index)).map (container.count - 1 - ·)

/-- The data of the first `k` chunks. -/
def upTo (container : ChunkContainer) (k : ℕ) : List UInt8 :=
  (container.chunks.take k).flatMap Chunk.data

/-- The data of all chunks. -/
def content (container : ChunkContainer) : List UInt8 := container.chunks.flatMap Chunk.data

section Laws

variable {container : ChunkContainer} {p : Payload} {allocated : Bool}

/-- `__add_chunk` appends one chunk or leaves the container as it is. -/
lemma addChunk_chunks (container : ChunkContainer) (p : Payload) (allocated : Bool) :
    ∃ new, (container.addChunk p allocated).chunks = container.chunks ++ new := by
  unfold addChunk
  split
  · exact ⟨[], (List.append_nil _).symm⟩
  · split_ifs
    · exact ⟨[], (List.append_nil _).symm⟩
    · exact ⟨_, rfl⟩

/-- A call with the size 0 or a null pointer is skipped. -/
lemma addChunk_of_skip (h : p.size = 0 ∨ p.data = none) :
    container.addChunk p allocated = container := by
  unfold addChunk
  split
  · rfl
  · rename_i data hdata
    rcases h with hsize | hnull
    · exact if_pos (by simp [hsize])
    · rw [hdata] at hnull
      cases hnull

/-- Nothing is added when an allocation fails. -/
lemma addChunk_of_not_allocated (container : ChunkContainer) (p : Payload) :
    container.addChunk p false = container := by
  unfold addChunk
  split
  · rfl
  · rw [Bool.not_false, Bool.or_true, if_pos rfl]

/-- Otherwise a chunk is appended. -/
lemma addChunk_of_data (container : ChunkContainer) {data : List UInt8} (hsize : p.size ≠ 0)
    (hdata : p.data = some data) :
    ∃ h, container.addChunk p true = container.push data p.elementSize p.size h := by
  refine ⟨p.length_data data hdata, ?_⟩
  unfold addChunk
  split
  · rename_i hnull
    rw [hdata] at hnull
    cases hnull
  · rename_i data' hdata'
    obtain rfl := Option.some.inj (hdata.symm.trans hdata')
    rw [if_neg (by simp [hsize])]

/-- The container never loses a chunk. -/
lemma count_le_addChunk : container.count ≤ (container.addChunk p allocated).count := by
  obtain ⟨new, hnew⟩ := addChunk_chunks container p allocated
  rw [count, count, hnew, List.length_append]
  exact Nat.le_add_right _ _

/-- A chunk that exists stays where it is. -/
lemma getElem?_addChunk {k : ℕ} {chunk : Chunk} (h : container.chunks[k]? = some chunk) :
    (container.addChunk p allocated).chunks[k]? = some chunk := by
  obtain ⟨new, hnew⟩ := addChunk_chunks container p allocated
  rw [hnew, List.getElem?_append_left (List.getElem?_eq_some_iff.mp h).1, h]

/-- The data of the chunks that exist does not change. -/
lemma upTo_addChunk (p : Payload) (allocated : Bool) {k : ℕ} (h : k ≤ container.count) :
    (container.addChunk p allocated).upTo k = container.upTo k := by
  obtain ⟨new, hnew⟩ := addChunk_chunks container p allocated
  rw [upTo, upTo, hnew, List.take_append_of_le_length h]

/-- A chunk adds its data. -/
lemma upTo_succ {k : ℕ} {chunk : Chunk} (h : container.chunks[k]? = some chunk) :
    container.upTo (k + 1) = container.upTo k ++ chunk.data := by
  rw [upTo, upTo, List.take_add_one, h, List.flatMap_append, Option.toList_some]
  simp

/-- All chunks together are the content. -/
lemma upTo_count (container : ChunkContainer) :
    container.upTo container.count = container.content := by
  rw [upTo, count, List.take_length, content]

/-- The data of the first chunks begins the content. -/
lemma upTo_prefix (container : ChunkContainer) (k : ℕ) : container.upTo k <+: container.content :=
  (List.take_prefix k container.chunks).flatMap Chunk.data

/-- The walk from the front finds the chunk at the position of its index. -/
lemma findIdx?_index {k : ℕ} (h : k < container.count) :
    container.chunks.findIdx? (·.index == k) = some k := by
  have hindex : ∀ (i : ℕ) (hi : i < container.chunks.length), container.chunks[i].index = i :=
    fun i hi => container.indexed i _ (List.getElem?_eq_getElem hi)
  have hk : k < container.chunks.length := h
  rw [List.findIdx?_eq_some_iff_getElem]
  refine ⟨hk, by rw [hindex, beq_self_eq_true], fun j hj => ?_⟩
  rw [hindex, beq_iff_eq]
  exact Nat.ne_of_lt hj

/-- The walk from the back finds it as well. -/
lemma findIdx?_reverse_index {k : ℕ} (h : k < container.count) :
    container.chunks.reverse.findIdx? (·.index == k) = some (container.count - 1 - k) := by
  have hindex : ∀ (i : ℕ) (hi : i < container.chunks.reverse.length),
      container.chunks.reverse[i].index = container.count - 1 - i := by
    intro i hi
    rw [List.getElem_reverse]
    exact container.indexed _ _ (List.getElem?_eq_getElem _)
  have hk : container.count - 1 - k < container.chunks.reverse.length := by
    rw [List.length_reverse, count] at *
    omega
  rw [List.findIdx?_eq_some_iff_getElem]
  refine ⟨hk, ?_, fun j hj => ?_⟩
  · rw [hindex, beq_iff_eq]
    omega
  · rw [hindex, beq_iff_eq]
    omega

/-- `get_chunk` finds the chunk at the position of the index, from either end. -/
theorem getChunk_eq (container : ChunkContainer) (index : ℕ) :
    container.getChunk index = if index < container.count then some index else none := by
  unfold getChunk
  rcases Nat.lt_or_ge index container.count with hlt | hge
  · rw [if_neg (Nat.not_le.mpr hlt), if_pos hlt]
    split_ifs with hhalf
    · exact findIdx?_index hlt
    · rw [findIdx?_reverse_index hlt, Option.map_some, Option.some.injEq]
      omega
  · rw [if_pos hge, if_neg (Nat.not_lt.mpr hge)]

end Laws

end ChunkContainer

end OsLabs.Proxy
