import OsLabs.Foundation.DoublyLinked
import OsLabs.Foundation.Transition
import OsLabs.Proxy.Chunk
import Mathlib.Data.List.Basic

/-!
# The chunk container in memory

`__add_chunk` and `get_chunk` of `lab3/src/chunk/chunk.c` on chunks in memory, which are linked in
both directions. An operation answers `none` where it would go through a bad pointer; the loop of
`get_chunk` carries a bound on its rounds, the number of chunks that were ever in memory, and
answers `none` beyond it. Indices and `count` are natural numbers, since no memory holds `2 ^ 64`
chunks.

`Represents` connects the memory with the container of `Chunk.lean`, and `chunk_container_linked` is
the invariant of every sequence of calls, with what `get_chunk` answers after it.
-/

namespace OsLabs.Proxy

open Transition

/-- The fields of `chunk_t` that are not links. -/
structure ChunkFields where
  index : ℕ
  elementSize : ℕ
  size : ℕ
  /-- The bytes behind `data`; `none` before the second `malloc`. -/
  data : Option (List UInt8)
  deriving DecidableEq

/-- `chunk_t` in memory. -/
structure ChunkNode extends ChunkFields where
  next : Option ℕ
  prev : Option ℕ

/-- `chunk_container_t` with its chunks in memory. -/
structure ContainerMemory where
  nodes : Heap ChunkNode
  first : Option ℕ
  last : Option ℕ
  count : ℕ

namespace ContainerMemory

/-- `create_chunk_container`. -/
def create : ContainerMemory := ⟨Heap.empty, none, none, 0⟩

/-- The index of a new chunk: `container->last ? container->last->index + 1 : 0`. -/
def newIndex (container : ContainerMemory) : Option ℕ :=
  match container.last with
  | some last => (container.nodes.cell last).map fun chunk => chunk.index + 1
  | none => some 0

/-- The link to a new chunk, from the last chunk or from the container. -/
def linkNext (container : ContainerMemory) (new : ℕ) : Option ContainerMemory :=
  match container.last with
  | some last =>
    (container.nodes.modify (some last) fun chunk => { chunk with next := some new }).map
      fun nodes => { container with nodes := nodes }
  | none => some { container with first := some new }

/-- The links of a new chunk and the new values of `last` and `count`. -/
def link (container : ContainerMemory) (new : ℕ) : Option ContainerMemory :=
  (container.linkNext new).bind fun container =>
    (container.nodes.modify (some new) fun chunk => { chunk with prev := container.last }).map
      fun nodes => ⟨nodes, container.first, some new, container.count + 1⟩

/-- `__add_chunk`; `node` is the answer of `malloc(sizeof(chunk_t))`, and `allocated` says whether
`malloc(element_size * size)` succeeds. -/
def addChunk (container : ContainerMemory) (p : Payload) (node : Option ℕ) (allocated : Bool) :
    Option ContainerMemory :=
  if p.size = 0 ∨ p.data = none then some container
  else
    match node with
    | none => some container
    | some new =>
      container.newIndex.bind fun index =>
        (container.nodes.alloc new ⟨⟨index, p.elementSize, p.size, none⟩, none, none⟩).bind
          fun nodes =>
            if allocated then
              (nodes.modify (some new) fun chunk => { chunk with data := p.data }).bind
                fun nodes => { container with nodes := nodes }.link new
            else (nodes.free (some new)).map fun nodes => { container with nodes := nodes }

/-- The loop of `get_chunk`, from the chunk `current`. -/
def walk (nodes : Heap ChunkNode) (forward : Bool) (index : ℕ) : ℕ → Option ℕ → Option ℕ
  | 0, _ => none
  | fuel + 1, current =>
    (nodes.load current).bind fun chunk =>
      if chunk.index ≠ index then
        walk nodes forward index fuel (if forward then chunk.next else chunk.prev)
      else current

/-- The search of `get_chunk` in one direction. -/
def find (container : ContainerMemory) (forward : Bool) (index : ℕ) : Option ℕ :=
  walk container.nodes forward index container.nodes.cells.length
    (if forward then container.first else container.last)

/-- `get_chunk`; the inner `none` is `NULL`. -/
def getChunk (container : ContainerMemory) (index : ℕ) : Option (Option ℕ) :=
  if container.count ≤ index then some none
  else (container.find (index < container.count / 2) index).map some

/-! ## The memory holds a container -/

end ContainerMemory

/-- The fields of a chunk. -/
def Chunk.fields (chunk : Chunk) : ChunkFields :=
  ⟨chunk.index, chunk.elementSize, chunk.size, some chunk.data⟩

namespace ContainerMemory

/-- The chunks of a container are linked in both directions at the addresses in a list. -/
structure Represents (container : ContainerMemory) (l : List (ℕ × ChunkFields))
    (chunks : ChunkContainer) : Prop where
  linked : container.nodes.Linked ChunkNode.next ChunkNode.prev ChunkNode.toChunkFields
    container.first container.last l
  count : container.count = l.length
  fields : l.map Prod.snd = chunks.chunks.map Chunk.fields

variable {container : ContainerMemory} {l : List (ℕ × ChunkFields)} {chunks : ChunkContainer}
  {p : Payload} {node : Option ℕ} {allocated : Bool}

/-- The new container is empty. -/
lemma represents_create : Represents create [] ChunkContainer.create := ⟨.nil, rfl, rfl⟩

/-- The last chunk is in memory, and its fields are those of the last chunk of the container. -/
lemma Represents.last {last : ℕ} (h : Represents container l chunks)
    (hlast : container.last = some last) :
    ∃ l' chunk c, l = l' ++ [(last, chunk.toChunkFields)] ∧
      container.nodes.cell last = some chunk ∧ chunks.chunks.getLast? = some c ∧
      c.fields = chunk.toChunkFields := by
  have hlinked := h.linked
  rw [hlast] at hlinked
  obtain ⟨l', v, rfl⟩ := hlinked.eq_concat
  obtain ⟨chunk, hchunk, rfl⟩ := hlinked.forward.exists_cell (x := (last, v)) (by simp)
  have hfields := congrArg List.getLast? h.fields
  rw [List.map_append, List.getLast?_map, List.map_singleton, List.getLast?_concat] at hfields
  obtain ⟨c, hc, heq⟩ := Option.map_eq_some_iff.mp hfields.symm
  exact ⟨l', chunk, c, rfl, hchunk, hc, heq⟩

/-- The index of the new chunk is the one that the container gives it. -/
lemma Represents.newIndex (h : Represents container l chunks) :
    container.newIndex = some chunks.newIndex := by
  unfold ContainerMemory.newIndex ChunkContainer.newIndex
  cases hlast : container.last with
  | none =>
    have hlinked := h.linked
    rw [hlast] at hlinked
    obtain ⟨rfl, -⟩ := hlinked.eq_nil
    rw [List.map_eq_nil_iff.mp h.fields.symm]
    rfl
  | some last =>
    obtain ⟨l', chunk, c, -, hchunk, hc, hfields⟩ := h.last hlast
    have hindex : c.index = chunk.index := congrArg ChunkFields.index hfields
    simp only [hchunk, hc, hindex, Option.map_some]

/-- The first chunk is linked from the container. -/
lemma linkNext_of_none {new : ℕ} (hlast : container.last = none) :
    container.linkNext new = some { container with first := some new } := by
  rw [linkNext, hlast]

/-- Every other chunk is linked from the last one. -/
lemma linkNext_of_some {new last : ℕ} {chunk : ChunkNode} (hlast : container.last = some last)
    (hchunk : container.nodes.cell last = some chunk) :
    container.linkNext new = some { container with
      nodes := container.nodes.set last (some { chunk with next := some new }) } := by
  rw [linkNext, hlast]
  simp only [Heap.modify_of_cell hchunk, Option.map_some]

/-- What is left after the link to the new chunk. -/
lemma link_of_linkNext {new : ℕ} {container' : ContainerMemory} {chunk : ChunkNode}
    (hnext : container.linkNext new = some container')
    (hchunk : container'.nodes.cell new = some chunk) :
    container.link new = some
      ⟨container'.nodes.set new (some { chunk with prev := container'.last }), container'.first,
        some new, container'.count + 1⟩ := by
  rw [link, hnext, Option.bind_some, Heap.modify_of_cell hchunk, Option.map_some]

/-- A chunk whose fields are complete is linked behind the last one. -/
lemma Represents.link {new : ℕ} {fields : ChunkFields} {nodes : Heap ChunkNode}
    (h : Represents container l chunks) (hfree : container.nodes.cell new = none)
    (hnew : nodes.cell new = some ⟨fields, none, none⟩)
    (hkeep : ∀ m, m ≠ new → nodes.cell m = container.nodes.cell m) :
    ∃ container', { container with nodes := nodes }.link new = some container' ∧
      container'.nodes.Linked ChunkNode.next ChunkNode.prev ChunkNode.toChunkFields
        container'.first container'.last (l ++ [(new, fields)]) ∧
      container'.count = container.count + 1 := by
  have hlinked := h.linked
  rcases Option.eq_none_or_eq_some container.last with hlast | ⟨last, hlast⟩
  · rw [hlast] at hlinked
    obtain ⟨rfl, -⟩ := hlinked.eq_nil
    refine ⟨_, link_of_linkNext (linkNext_of_none hlast) hnew, ?_, rfl⟩
    have hcell : (nodes.set new (some ⟨fields, none, container.last⟩)).cell new =
        some ⟨fields, none, container.last⟩ := by rw [Heap.cell_set_self]
    exact .single hcell rfl hlast
  · obtain ⟨l', chunk, -, rfl, hchunk, -⟩ := h.last hlast
    have hne : last ≠ new := Heap.ne_of_cell hchunk hfree
    have hnew' : (nodes.set last (some { chunk with next := some new })).cell new =
        some ⟨fields, none, none⟩ := by
      rw [Heap.cell_set_of_ne hne.symm, hnew]
    refine ⟨_, link_of_linkNext (linkNext_of_some hlast ((hkeep last hne).trans hchunk)) hnew', ?_,
      rfl⟩
    refine hlinked.append (a := ⟨fields, none, container.last⟩)
      (c := { chunk with next := some new }) hchunk hfree ?_ rfl rfl rfl ?_ rfl rfl
      fun m hm hm' => ?_
    · rw [Heap.cell_set_of_ne hne, Heap.cell_set_self]
    · simp only [Heap.cell_set_self]
    · rw [Heap.cell_set_of_ne hm', Heap.cell_set_of_ne hm]
      exact hkeep m hm'

/-- `__add_chunk` does what the container does, whether it is skipped, fails or adds a chunk. -/
theorem Represents.addChunk (h : Represents container l chunks) (p : Payload)
    (allocated : Bool) (hnode : ∀ new, node = some new → container.nodes.cell new = none) :
    ∃ container' l', container.addChunk p node allocated = some container' ∧
      Represents container' l' (chunks.addChunk p (node.isSome && allocated)) := by
  unfold ContainerMemory.addChunk
  by_cases hskip : p.size = 0 ∨ p.data = none
  · rw [ChunkContainer.addChunk_of_skip hskip, if_pos hskip]
    exact ⟨container, l, rfl, h⟩
  rw [if_neg hskip]
  cases node with
  | none =>
    rw [Option.isSome_none, Bool.false_and, ChunkContainer.addChunk_of_not_allocated]
    exact ⟨container, l, rfl, h⟩
  | some new =>
    have hfree := hnode new rfl
    have hcell : ∀ chunk : ChunkNode,
        (container.nodes.set new (some chunk)).cell new = some chunk := by
      intro chunk
      rw [Heap.cell_set_self]
    simp only [h.newIndex, Option.bind_some, Heap.alloc_of_free hfree, Option.isSome_some,
      Bool.true_and]
    cases allocated with
    | false =>
      -- the chunk is freed again
      rw [if_neg Bool.false_ne_true, Heap.free_of_cell (hcell _), Option.map_some,
        ChunkContainer.addChunk_of_not_allocated]
      refine ⟨_, l, rfl, h.linked.congr fun m hm => ?_, h.count, h.fields⟩
      have hne : m ≠ new := fun heq => h.linked.forward.notMem_of_cell hfree (heq ▸ hm)
      simp only [Heap.cell_set_of_ne hne]
    | true =>
      obtain ⟨hsize, hnull⟩ := not_or.mp hskip
      obtain ⟨data, hdata⟩ := Option.ne_none_iff_exists'.mp hnull
      obtain ⟨hlength, hpush⟩ :=
        chunks.addChunk_of_data hsize hdata
      rw [if_pos rfl, Heap.modify_of_cell (hcell _), Option.bind_some, hpush, hdata]
      let fields : ChunkFields := ⟨chunks.newIndex, p.elementSize, p.size, none⟩
      have hnew : ((container.nodes.set new (some ⟨fields, none, none⟩)).set new
          (some ⟨{ fields with data := some data }, none, none⟩)).cell new =
            some ⟨{ fields with data := some data }, none, none⟩ := by
        rw [Heap.cell_set_self]
      obtain ⟨container', hlink, hlinked, hcount⟩ := h.link hfree hnew fun m hm => by
        simp only [Heap.cell_set_of_ne hm]
      refine ⟨container', _, hlink, hlinked, ?_, ?_⟩
      · rw [hcount, h.count, List.length_append, List.length_singleton]
      · rw [List.map_append, h.fields, ChunkContainer.push, List.map_append]
        rfl

/-! ## The walk of `get_chunk` -/

/-- The walk along either link ends at the first chunk with the index. -/
lemma walk_eq {nodes : Heap ChunkNode} {forward : Bool} {current : Option ℕ} {index fuel : ℕ}
    {l l' : List (ℕ × ChunkFields)} {x : ℕ × ChunkFields}
    (hpath : nodes.Path (fun chunk => if forward then chunk.next else chunk.prev)
      ChunkNode.toChunkFields current (l ++ x :: l') none)
    (hbefore : ∀ y ∈ l, y.2.index ≠ index) (hx : x.2.index = index)
    (hfuel : (l ++ x :: l').length ≤ fuel) :
    walk nodes forward index fuel current = some x.1 := by
  induction l generalizing current fuel with
  | nil =>
    obtain ⟨fuel, rfl⟩ := Nat.exists_eq_add_one.mpr (Nat.lt_of_lt_of_le (Nat.succ_pos _) hfuel)
    obtain ⟨chunk, hchunk, hfields, -⟩ := hpath.head
    have hindex : chunk.index = index := (congrArg ChunkFields.index hfields).trans hx
    rw [walk, hpath.start_eq, Heap.load_some, hchunk, Option.bind_some, if_neg (not_not.mpr hindex)]
  | cons y l ih =>
    obtain ⟨fuel, rfl⟩ := Nat.exists_eq_add_one.mpr (Nat.lt_of_lt_of_le (Nat.succ_pos _) hfuel)
    obtain ⟨chunk, hchunk, hfields, hrest⟩ := hpath.head
    have hindex : chunk.index ≠ index := fun heq =>
      hbefore y List.mem_cons_self ((congrArg ChunkFields.index hfields).symm.trans heq)
    rw [walk, hpath.start_eq, Heap.load_some, hchunk, Option.bind_some, if_pos hindex]
    exact ih hrest (fun z hz => hbefore z (List.mem_cons_of_mem y hz))
      (Nat.le_of_succ_le_succ hfuel)

/-- The chunk at a position has this position as its index. -/
lemma Represents.index_eq (h : Represents container l chunks) {i : ℕ} {x : ℕ × ChunkFields}
    (hx : l[i]? = some x) : x.2.index = i := by
  have hi := congrArg (·[i]?) h.fields
  simp only [List.getElem?_map, hx, Option.map_some] at hi
  obtain ⟨c, hc, heq⟩ := Option.map_eq_some_iff.mp hi.symm
  rw [← heq]
  exact chunks.indexed i c hc

/-- `get_chunk` answers `NULL` beyond the last chunk, and otherwise the chunk at the position of the
index; its walk goes through no bad pointer and ends within its bound, from either end. -/
theorem Represents.getChunk (h : Represents container l chunks) (index : ℕ) :
    container.getChunk index = some (l[index]?.map Prod.fst) := by
  unfold ContainerMemory.getChunk
  rcases Nat.lt_or_ge index l.length with hlt | hge
  · have hsplit : l = l.take index ++ l[index] :: l.drop (index + 1) := by
      rw [List.getElem_cons_drop, List.take_append_drop]
    have hlen := h.linked.forward.length_le
    have hfront : ∀ y ∈ l.take index, y.2.index ≠ index := by
      intro y hy
      obtain ⟨i, hi⟩ := List.mem_iff_getElem?.mp hy
      rw [List.getElem?_take] at hi
      split_ifs at hi with hlt'
      rw [h.index_eq hi]
      omega
    have hback : ∀ y ∈ (l.drop (index + 1)).reverse, y.2.index ≠ index := by
      intro y hy
      obtain ⟨i, hi⟩ := List.mem_iff_getElem?.mp (List.mem_reverse.mp hy)
      rw [List.getElem?_drop] at hi
      rw [h.index_eq hi]
      omega
    have hx : l[index].2.index = index := h.index_eq (List.getElem?_eq_getElem hlt)
    have hfind : ∀ forward, container.find forward index = some l[index].1 := by
      intro forward
      cases forward with
      | true =>
        have hpath := h.linked.forward
        rw [hsplit] at hpath
        exact walk_eq hpath hfront hx (hsplit ▸ hlen)
      | false =>
        have hpath := h.linked.backward
        rw [← List.length_reverse] at hlen
        rw [hsplit, List.reverse_append, List.reverse_cons, List.append_assoc] at hpath hlen
        exact walk_eq hpath hback hx hlen
    rw [h.count, if_neg (Nat.not_le.mpr hlt), hfind, List.getElem?_eq_getElem hlt]
    rfl
  · rw [h.count, if_pos hge, List.getElem?_eq_none hge, Option.map_none]

end ContainerMemory

/-! ## Sequences of calls -/

/-- A call of `__add_chunk`, with the answers of `malloc`. -/
structure ChunkCall where
  payload : Payload
  /-- The address of the chunk. -/
  node : Option ℕ
  /-- Whether the data have got memory. -/
  allocated : Bool

/-- The call was neither skipped nor did an allocation fail. -/
def ChunkCall.accepted (call : ChunkCall) : Bool :=
  decide (call.payload.size ≠ 0) && call.payload.data.isSome && (call.node.isSome && call.allocated)

/-- What the chunk at a position has when the arguments of its call were `p`. -/
def Payload.fields (index : ℕ) (p : Payload) : ChunkFields := ⟨index, p.elementSize, p.size, p.data⟩

/-- A chunk for each accepted call, in order. -/
def acceptedFields (calls : List ChunkCall) : List ChunkFields :=
  ((calls.filter ChunkCall.accepted).map ChunkCall.payload).mapIdx Payload.fields

/-- The container in memory, whether a bad pointer was followed, and the calls so far. -/
structure ChunkRun where
  container : ContainerMemory
  faulted : Bool
  calls : List ChunkCall

namespace ChunkRun

open ContainerMemory

/-- The state after `create_chunk_container`. -/
def init : ChunkRun := ⟨ContainerMemory.create, false, []⟩

/-- One call; `none` where `malloc` cannot answer an address that is in use. -/
def step (s : ChunkRun) (call : ChunkCall) : Option ChunkRun :=
  if call.node.any fun new => (s.container.nodes.cell new).isSome then none
  else
    match s.container.addChunk call.payload call.node call.allocated with
    | none => some { s with faulted := true }
    | some container => some { s with container := container, calls := s.calls ++ [call] }

variable {s t : ChunkRun} {call : ChunkCall}

/-- An accepted call adds its chunk at the end. -/
lemma acceptedFields_concat (calls : List ChunkCall) (call : ChunkCall) :
    acceptedFields (calls ++ [call]) = acceptedFields calls ++
      if call.accepted then [call.payload.fields (acceptedFields calls).length] else [] := by
  unfold acceptedFields
  rw [List.filter_append, List.map_append, List.mapIdx_append, List.length_mapIdx]
  cases haccepted : call.accepted <;> simp [haccepted]

/-- The chunks of the container are those of the accepted calls. -/
lemma fields_addChunk {chunks : ChunkContainer} {calls : List ChunkCall}
    (h : chunks.chunks.map Chunk.fields = acceptedFields calls) (call : ChunkCall) :
    (chunks.addChunk call.payload (call.node.isSome && call.allocated)).chunks.map Chunk.fields =
      acceptedFields (calls ++ [call]) := by
  have hlen : chunks.count = (acceptedFields calls).length := by
    rw [← h, List.length_map, ChunkContainer.count]
  rw [acceptedFields_concat]
  by_cases hskip : call.payload.size = 0 ∨ call.payload.data = none
  · have haccepted : call.accepted = false := by
      rcases hskip with hsize | hnull
      · simp [ChunkCall.accepted, hsize]
      · simp [ChunkCall.accepted, hnull]
    rw [ChunkContainer.addChunk_of_skip hskip, haccepted, h]
    simp
  · obtain ⟨hsize, hnull⟩ := not_or.mp hskip
    obtain ⟨data, hdata⟩ := Option.ne_none_iff_exists'.mp hnull
    have haccepted : call.accepted = (call.node.isSome && call.allocated) := by
      simp [ChunkCall.accepted, hsize, hdata]
    rw [haccepted]
    cases call.node.isSome && call.allocated with
    | false =>
      rw [ChunkContainer.addChunk_of_not_allocated, h]
      simp
    | true =>
      obtain ⟨hlength, hpush⟩ := chunks.addChunk_of_data hsize hdata
      rw [hpush, ChunkContainer.push, List.map_append, h, if_pos rfl, chunks.newIndex_eq, hlen]
      simp [Payload.fields, Chunk.fields, hdata]

/-- The memory holds the chunks of the accepted calls. -/
def Inv (s : ChunkRun) : Prop :=
  s.faulted = false ∧ ∃ l chunks, Represents s.container l chunks ∧
    chunks.chunks.map Chunk.fields = acceptedFields s.calls

/-- Every call keeps the invariant. -/
lemma Inv.step (h : Inv s) (hst : s.step call = some t) : Inv t := by
  obtain ⟨hok, l, chunks, hrep, hfields⟩ := h
  unfold ChunkRun.step at hst
  split_ifs at hst with hused
  have hnode : ∀ new, call.node = some new → s.container.nodes.cell new = none := by
    intro new hnew
    rw [hnew, Option.any_some, Option.not_isSome_iff_eq_none] at hused
    exact hused
  obtain ⟨container', l', hadd, hrep'⟩ := hrep.addChunk call.payload call.allocated hnode
  rw [hadd] at hst
  obtain rfl := Option.some.inj hst
  exact ⟨hok, l', _, hrep', fields_addChunk hfields call⟩

/-- After every sequence of calls of `__add_chunk`, whatever was skipped or failed, the chunks of
the accepted calls are linked in both directions, in order and with their positions as indices; no
bad pointer was followed; and `get_chunk` answers `NULL` from `count` on and the chunk at the
position of the index before. -/
theorem chunk_container_linked (h : Reachable step init s) :
    s.faulted = false ∧ ∃ l,
      s.container.nodes.Linked ChunkNode.next ChunkNode.prev ChunkNode.toChunkFields
        s.container.first s.container.last l ∧
      s.container.count = l.length ∧ l.map Prod.snd = acceptedFields s.calls ∧
      ∀ index, s.container.getChunk index = some (l[index]?.map Prod.fst) ∧
        (s.container.getChunk index = some none ↔ s.container.count ≤ index) := by
  obtain ⟨hok, l, chunks, hrep, hfields⟩ := h.invariant (I := Inv)
    ⟨rfl, [], ChunkContainer.create, represents_create, rfl⟩ fun _ _ _ hs _ hst => hs.step hst
  refine ⟨hok, l, hrep.linked, hrep.count, hrep.fields.trans hfields, fun index => ?_⟩
  rw [hrep.getChunk index, hrep.count]
  refine ⟨rfl, ?_⟩
  rw [Option.some.injEq, Option.map_eq_none_iff, List.getElem?_eq_none_iff]

/-- Three chunks, with a skipped call and two failed ones between them; the first chunk is found
from the front and the others from the back. -/
theorem chunk_container_linked_three : ∃ s : ChunkRun,
    s.container.count = 3 ∧ s.container.getChunk 0 = some (some 4) ∧
    s.container.getChunk 2 = some (some 7) ∧ s.container.getChunk 3 = some none ∧
    s.faulted = false ∧ ∃ l,
      s.container.nodes.Linked ChunkNode.next ChunkNode.prev ChunkNode.toChunkFields
        s.container.first s.container.last l ∧
      s.container.count = l.length ∧ l.map Prod.snd = acceptedFields s.calls ∧
      ∀ index, s.container.getChunk index = some (l[index]?.map Prod.fst) ∧
        (s.container.getChunk index = some none ↔ s.container.count ≤ index) := by
  have hrun := Run.get_execWhere step anyStep init
    [⟨.ofBytes [97], some 4, true⟩, ⟨.ofBytes [98], some 5, false⟩,
      ⟨.ofBytes [99, 100], some 5, true⟩, ⟨⟨some [], 1, 0, by simp⟩, some 6, true⟩,
      ⟨.ofBytes [101], none, true⟩,
      ⟨.ofBytes [102], some 7, true⟩] (by decide +kernel)
  exact ⟨_, by decide +kernel, by decide +kernel, by decide +kernel, by decide +kernel,
    chunk_container_linked hrun⟩

end ChunkRun

end OsLabs.Proxy
