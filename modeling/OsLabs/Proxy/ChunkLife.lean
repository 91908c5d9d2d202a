import OsLabs.Foundation.Ownership
import OsLabs.Proxy.ChunkMemory

/-!
# The life of a chunk container

`ChunkMemory.lean` says how the chunks are linked; here it is counted which of them are allocated.
A chunk whose data get no memory is freed by `__add_chunk` itself, so that there are never more
chunks in memory than `count` says (`Counted`).  As many are linked, so `free_chunk_container`,
which goes along the links from `first`, frees every chunk once and leaves none.
-/

namespace OsLabs.Proxy

open Transition

namespace ContainerMemory

/-- `free_chunk_container`, up to the release of the container: what is left of the chunks.  The
data are freed with their chunk. -/
def freeChunkContainer (container : ContainerMemory) : Option (Heap ChunkNode) :=
  Heap.freeAll ChunkNode.next container.nodes.cells.length container.nodes container.first

/-- There are no more chunks in memory than `count` says. -/
def Counted (container : ContainerMemory) : Prop :=
  ∃ ns, container.nodes.Owns ns ∧ ns.length ≤ container.count

variable {container container' : ContainerMemory} {ns : List ℕ} {new : ℕ} {p : Payload}
  {node : Option ℕ} {allocated : Bool}

/-- The new container. -/
lemma counted_create : Counted create := ⟨[], Heap.owns_empty, Nat.le_refl 0⟩

/-- The link to a new chunk allocates none. -/
lemma owns_linkNext (hown : container.nodes.Owns ns)
    (hnext : container.linkNext new = some container') :
    container'.nodes.Owns ns ∧ container'.count = container.count := by
  unfold linkNext at hnext
  split at hnext
  next =>
    obtain ⟨nodes, hmod, rfl⟩ := Option.map_eq_some_iff.mp hnext
    exact ⟨hown.modify hmod, rfl⟩
  next =>
    cases hnext
    exact ⟨hown, rfl⟩

/-- A linked chunk is counted. -/
lemma owns_link (hown : container.nodes.Owns ns) (hlink : container.link new = some container') :
    container'.nodes.Owns ns ∧ container'.count = container.count + 1 := by
  obtain ⟨middle, hnext, hrest⟩ := Option.bind_eq_some_iff.mp hlink
  obtain ⟨nodes, hmod, rfl⟩ := Option.map_eq_some_iff.mp hrest
  obtain ⟨hmiddle, hcount⟩ := owns_linkNext hown hnext
  refine ⟨hmiddle.modify hmod, ?_⟩
  dsimp only
  rw [hcount]

/-- `__add_chunk` leaves no chunk in memory that is not counted. -/
lemma Counted.addChunk (h : Counted container)
    (hadd : container.addChunk p node allocated = some container') : Counted container' := by
  obtain ⟨ns, hown, hle⟩ := h
  unfold ContainerMemory.addChunk at hadd
  by_cases hskip : p.size = 0 ∨ p.data = none
  · rw [if_pos hskip] at hadd
    cases hadd
    exact ⟨ns, hown, hle⟩
  rw [if_neg hskip] at hadd
  cases node with
  | none =>
    cases hadd
    exact ⟨ns, hown, hle⟩
  | some new =>
    obtain ⟨index, -, hrest⟩ := Option.bind_eq_some_iff.mp hadd
    obtain ⟨nodes, hal, hrest⟩ := Option.bind_eq_some_iff.mp hrest
    have hnew := hown.alloc hal
    cases allocated with
    | true =>
      rw [if_pos rfl] at hrest
      obtain ⟨nodes', hmod, hlink⟩ := Option.bind_eq_some_iff.mp hrest
      obtain ⟨hown', hcount⟩ :=
        owns_link (hnew.modify hmod) hlink
      refine ⟨new :: ns, hown', ?_⟩
      rw [hcount]
      exact Nat.succ_le_succ hle
    | false =>
      -- the chunk without data is freed again
      rw [if_neg Bool.false_ne_true] at hrest
      obtain ⟨nodes', hfree, rfl⟩ := Option.map_eq_some_iff.mp hrest
      have hnot : new ∉ ns := by
        rw [← hown new, (Heap.alloc_eq_some hal).1]
        exact Bool.noConfusion
      refine ⟨ns, hnew.free hfree fun n => ?_, hle⟩
      rw [List.mem_cons]
      constructor
      · intro hn
        exact ⟨Or.inr hn, fun heq => hnot (heq ▸ hn)⟩
      · rintro ⟨hn, hne⟩
        exact hn.resolve_left hne

/-- `free_chunk_container` follows no bad pointer, frees every chunk once and leaves none. -/
lemma Represents.freeChunkContainer {l : List (ℕ × ChunkFields)} {chunks : ChunkContainer}
    (h : Represents container l chunks) (hcounted : Counted container) :
    ∃ nodes, container.freeChunkContainer = some nodes ∧ nodes.Owns [] := by
  obtain ⟨ns, hown, hle⟩ := hcounted
  rw [h.count] at hle
  have hall : container.nodes.Owns (l.map Prod.fst ++ []) := by
    rw [List.append_nil]
    exact hown.of_path h.linked.forward hle
  obtain ⟨nodes, hfree, hnone, -⟩ := hall.freeAll h.linked.forward
    (fun _ _ => List.not_mem_nil) h.linked.forward.length_le
  exact ⟨nodes, hfree, hnone⟩

end ContainerMemory

namespace ChunkRun

open ContainerMemory

variable {s t : ChunkRun} {call : ChunkCall}

/-- Every call keeps the chunks counted. -/
lemma counted_step (h : Counted s.container) (hst : s.step call = some t) :
    Counted t.container := by
  unfold ChunkRun.step at hst
  split_ifs at hst
  split at hst
  next =>
    cases hst
    exact h
  next hadd =>
    cases hst
    exact h.addChunk hadd

/-- After every sequence of calls of `__add_chunk`, whatever was skipped or failed,
`free_chunk_container` goes only through chunks that are allocated, frees each of them once, and
leaves no chunk in memory. -/
theorem chunk_container_freed (h : Reachable step init s) :
    ∃ nodes, s.container.freeChunkContainer = some nodes ∧ ∀ n, nodes.cell n = none := by
  obtain ⟨⟨-, l, chunks, hrep, -⟩, hcounted⟩ :=
    h.invariant (I := fun s => Inv s ∧ Counted s.container)
      ⟨⟨rfl, [], ChunkContainer.create, represents_create, rfl⟩, counted_create⟩
      fun _ _ _ hs _ hst => ⟨hs.1.step hst, counted_step hs.2 hst⟩
  obtain ⟨nodes, hfree, hown⟩ := hrep.freeChunkContainer hcounted
  refine ⟨nodes, hfree, fun n => ?_⟩
  rw [← Option.not_isSome_iff_eq_none, hown n]
  exact List.not_mem_nil

/-- Two chunks are freed, and the one between them, whose data got no memory, was freed before. -/
theorem chunk_container_freed_two : ∃ s : ChunkRun,
    s.container.count = 2 ∧ s.calls.length = 4 ∧
    ∃ nodes, s.container.freeChunkContainer = some nodes ∧ ∀ n, nodes.cell n = none := by
  have hrun := Run.get_execWhere step anyStep init
    [⟨.ofBytes [97], some 4, true⟩, ⟨.ofBytes [98], some 5, false⟩, ⟨.ofBytes [99], none, true⟩,
      ⟨.ofBytes [100], some 6, true⟩] (by decide +kernel)
  exact ⟨_, by decide +kernel, by decide +kernel, chunk_container_freed hrun⟩

end ChunkRun

end OsLabs.Proxy
