import OsLabs.BoundedQueue.NodeList
import OsLabs.Foundation.Ownership

/-!
# What the queues leave in memory

`NodeList.lean` says which nodes form the list; here it is counted which nodes are allocated.
`Owned q l ns`: these are the nodes of the list and those in `ns`, which a caller has allocated and
not linked.  `freeNodes` is the loop of `queue_destroy`.
-/

namespace OsLabs.BoundedQueue

namespace NodeList

variable {q q' : NodeList} {l : List (ℕ × ℤ)} {x : ℕ × ℤ} {new : ℕ} {val : ℤ} {ns : List ℕ}

/-- The loop of `queue_destroy`: what is left of the nodes. -/
def freeNodes (q : NodeList) : Option (Heap QNode) :=
  Heap.freeAll QNode.next q.nodes.cells.length q.nodes q.first

/-- The nodes in memory are those of the list and the given ones. -/
structure Owned (q : NodeList) (l : List (ℕ × ℤ)) (ns : List ℕ) : Prop where
  represents : q.Represents l
  owns : q.nodes.Owns (l.map Prod.fst ++ ns)

/-- The new list. -/
lemma owned_initial : initial.Owned [] [] := ⟨represents_initial, Heap.owns_empty⟩

/-- An allocation. -/
lemma Owned.allocate (h : q.Owned l ns) (hal : q.allocate new val = some q') :
    q'.Owned l (new :: ns) := by
  obtain ⟨hlist, -, -⟩ := h.represents.allocate hal
  obtain ⟨nodes, hnodes, rfl⟩ := Option.map_eq_some_iff.mp hal
  refine ⟨hlist, (h.owns.alloc hnodes).congr fun n => ?_⟩
  exact List.perm_middle.mem_iff

/-- A link changes only nodes that are allocated. -/
lemma owns_link {ms : List ℕ} (hown : q.nodes.Owns ms) (hlink : q.link new = some q') :
    q'.nodes.Owns ms := by
  unfold NodeList.link at hlink
  split_ifs at hlink
  · cases hlink
    exact hown
  · obtain ⟨nodes, hnodes, hrest⟩ := Option.bind_eq_some_iff.mp hlink
    obtain ⟨last, -, hq'⟩ := Option.bind_eq_some_iff.mp hrest
    cases hq'
    exact hown.modify hnodes

/-- A new node is linked, and belongs to the list. -/
lemma Owned.link (h : q.Owned l (new :: ns)) (hnew : q.nodes.cell new = some ⟨val, none⟩)
    (hnot : new ∉ l.map Prod.fst) (hlink : q.link new = some q') :
    q'.Owned (l ++ [(new, val)]) ns := by
  obtain ⟨q'', hlink', hlist, -⟩ := h.represents.link hnew hnot
  obtain rfl := Option.some.inj (hlink'.symm.trans hlink)
  refine ⟨hlist, (owns_link h.owns hlink).congr fun n => ?_⟩
  rw [List.map_append, List.append_assoc]
  exact Iff.rfl

/-- The first node is taken and freed. -/
lemma Owned.takeFirst (h : q.Owned (x :: l) ns) (hapart : x.1 ∉ ns)
    (htake : q.takeFirst = some (val, q')) : q'.Owned l ns := by
  obtain ⟨q'', htake', hlist, hcell⟩ := h.represents.takeFirst
  obtain rfl := (Prod.mk.inj (Option.some.inj (htake'.symm.trans htake))).2
  refine ⟨hlist, fun n => ?_⟩
  have hnot : x.1 ∉ l.map Prod.fst := (List.nodup_cons.mp h.represents.path.nodup).1
  rw [hcell]
  rcases eq_or_ne n x.1 with rfl | hne
  · rw [Function.update_self, List.mem_append]
    exact iff_of_false Bool.noConfusion (not_or.mpr ⟨hnot, hapart⟩)
  · rw [Function.update_of_ne hne, h.owns n, List.map_cons, List.cons_append, List.mem_cons]
    exact or_iff_right hne

/-- The destruction frees the nodes of the list, each of them once, and no others. -/
lemma Owned.freeNodes (h : q.Owned l ns) (hapart : ∀ n ∈ l.map Prod.fst, n ∉ ns) :
    ∃ nodes, q.freeNodes = some nodes ∧ nodes.Owns ns := by
  obtain ⟨nodes, hfree, hown, -⟩ :=
    h.owns.freeAll h.represents.path hapart h.represents.path.length_le
  exact ⟨nodes, hfree, hown⟩

end NodeList

end OsLabs.BoundedQueue
