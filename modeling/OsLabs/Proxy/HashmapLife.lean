import OsLabs.Foundation.Ownership
import OsLabs.Proxy.HashmapMemory

/-!
# The life of the hash map

`HashmapMemory.lean` says what the calls of the hash map answer; here it is counted which nodes they
leave in memory.  After every sequence of calls the chains are all that is allocated (`Sole`), so
that `destroy_hashmap`, which frees one chain after the other, frees every node once and leaves
nothing.
-/

namespace OsLabs.Proxy

open Transition

variable {V : Type*}

namespace HashmapMemory

/-- `destroy_hashmap`, up to the release of the table: what is left of the nodes. -/
def destroyHashmap (ht : HashmapMemory V) : Option (Heap (MapNode V)) :=
  (List.finRange tableSize).foldlM
    (fun nodes i => Heap.freeAll MapNode.next ht.nodes.cells.length nodes (ht.table i)) ht.nodes

/-- The addresses of all nodes in the chains. -/
def addresses (chain : Fin tableSize → List (ℕ × Node V)) : List ℕ :=
  (List.finRange tableSize).flatMap fun i => (chain i).map Prod.fst

/-- The nodes in memory are those of the chains. -/
structure Sole (ht : HashmapMemory V) (chain : Fin tableSize → List (ℕ × Node V)) : Prop where
  represents : Represents ht chain
  owns : ht.nodes.Owns (addresses chain)

variable {ht ht' : HashmapMemory V} {chain : Fin tableSize → List (ℕ × Node V)} {key : CString}
  {value : V} {new n : ℕ} {i : Fin tableSize}

/-- An address is in one of the chains. -/
lemma mem_addresses : n ∈ addresses chain ↔ ∃ i, n ∈ (chain i).map Prod.fst := by
  unfold addresses
  rw [List.mem_flatMap]
  constructor
  · rintro ⟨i, -, hn⟩
    exact ⟨i, hn⟩
  · rintro ⟨i, hn⟩
    exact ⟨i, List.mem_finRange i, hn⟩

/-- The addresses after one chain was replaced. -/
lemma mem_addresses_update {l : List (ℕ × Node V)} :
    n ∈ addresses (Function.update chain i l) ↔
      n ∈ l.map Prod.fst ∨ ∃ j, j ≠ i ∧ n ∈ (chain j).map Prod.fst := by
  rw [mem_addresses]
  constructor
  · rintro ⟨j, hj⟩
    rcases eq_or_ne j i with rfl | hne
    · rw [Function.update_self] at hj
      exact Or.inl hj
    · rw [Function.update_of_ne hne] at hj
      exact Or.inr ⟨j, hne, hj⟩
  · rintro (hl | ⟨j, hne, hj⟩)
    · exact ⟨i, by rw [Function.update_self]; exact hl⟩
    · exact ⟨j, by rw [Function.update_of_ne hne]; exact hj⟩

/-- The addresses, one chain apart. -/
lemma mem_addresses_split (i : Fin tableSize) : n ∈ addresses chain ↔
    n ∈ (chain i).map Prod.fst ∨ ∃ j, j ≠ i ∧ n ∈ (chain j).map Prod.fst := by
  rw [← mem_addresses_update, Function.update_eq_self]

/-- The new table. -/
lemma sole_createTable : Sole (createTable : HashmapMemory V) fun _ => [] := by
  refine ⟨represents_createTable, Heap.owns_empty.congr fun n => ?_⟩
  rw [mem_addresses]
  refine iff_of_false ?_ List.not_mem_nil
  rintro ⟨_, hn⟩
  exact List.not_mem_nil hn

/-- `insert` allocates the new node and no other. -/
lemma Sole.insert (h : Sole ht chain) (hins : ht.insert key value new = some ht') :
    ∃ chain', Sole ht' chain' := by
  obtain ⟨nodes, hal, rfl⟩ := Option.map_eq_some_iff.mp hins
  obtain ⟨hfree, hcell⟩ := Heap.alloc_eq_some hal
  have hnot : ∀ j, new ∉ (chain j).map Prod.fst :=
    fun j => (h.represents.path j).notMem_of_cell hfree
  have hkeep : ∀ j, nodes.Path MapNode.next MapNode.node (ht.table j) (chain j) none := by
    intro j
    apply (h.represents.path j).congr
    intro m hm a ha
    have hne : m ≠ new := by
      rintro rfl
      exact hnot j hm
    refine ⟨a, ?_, rfl, rfl⟩
    rw [hcell, Function.update_of_ne hne, ha]
  have hnew := congrFun hcell new
  rw [Function.update_self] at hnew
  refine ⟨_, h.represents.replace (.cons hnew (hkeep _)) fun j hj => ⟨hkeep j, ?_⟩, ?_⟩
  · intro m hm
    rcases List.mem_cons.mp hm with rfl | hm
    · exact hnot j
    · exact h.represents.apart _ j hj.symm m hm
  · apply (h.owns.alloc hal).congr
    intro m
    rw [mem_addresses_update, List.map_cons, List.mem_cons, List.mem_cons, or_assoc,
      mem_addresses_split (Hashmap.index key)]

/-- Taking out a node frees it and no other. -/
lemma owns_unlink {ns ns' : List ℕ} {previous next : Option ℕ} {current : ℕ}
    (hown : ht.nodes.Owns ns) (hunlink : ht.unlink i previous current next = some ht')
    (hmem : ∀ m, m ∈ ns' ↔ m ∈ ns ∧ m ≠ current) : ht'.nodes.Owns ns' := by
  cases previous with
  | none =>
    obtain ⟨nodes, hfree, rfl⟩ := Option.map_eq_some_iff.mp hunlink
    exact hown.free hfree hmem
  | some previous =>
    obtain ⟨nodes, hmod, hrest⟩ := Option.bind_eq_some_iff.mp hunlink
    obtain ⟨nodes', hfree, rfl⟩ := Option.map_eq_some_iff.mp hrest
    exact (hown.modify hmod).free hfree hmem

/-- The addresses after a node was taken out of its chain. -/
lemma mem_addresses_remove (h : Represents ht chain) {front back : List (ℕ × Node V)}
    {x : ℕ × Node V} (hchain : chain i = front ++ x :: back) (n : ℕ) :
    n ∈ addresses (Function.update chain i (front ++ back)) ↔ n ∈ addresses chain ∧ n ≠ x.1 := by
  have hpath := h.path i
  rw [hchain] at hpath
  obtain ⟨hnot, -⟩ := Heap.nodup_map_middle hpath.nodup
  have hx : x.1 ∈ (chain i).map Prod.fst := by
    rw [hchain, List.map_append, List.map_cons]
    exact List.mem_append_right _ List.mem_cons_self
  have hother : ∀ j, j ≠ i → x.1 ∉ (chain j).map Prod.fst :=
    fun j hj => h.apart i j hj.symm x.1 hx
  rw [mem_addresses_update, mem_addresses_split i, hchain]
  simp only [List.map_append, List.map_cons, List.mem_append, List.mem_cons] at hnot ⊢
  constructor
  · rintro ((hn | hn) | ⟨j, hj, hn⟩)
    · exact ⟨Or.inl (Or.inl hn), fun heq => hnot (Or.inl (heq ▸ hn))⟩
    · exact ⟨Or.inl (Or.inr (Or.inr hn)), fun heq => hnot (Or.inr (heq ▸ hn))⟩
    · exact ⟨Or.inr ⟨j, hj, hn⟩, fun heq => hother j hj (heq ▸ hn)⟩
  · rintro ⟨(hn | hn | hn) | hn, hne⟩
    · exact Or.inl (Or.inl hn)
    · exact absurd hn hne
    · exact Or.inl (Or.inr hn)
    · exact Or.inr hn

/-- The loop of `delete` frees the node that it takes out of the chain. -/
lemma Sole.deleteLoop (h : Sole ht chain) (key : CString) (front : List (ℕ × Node V))
    {rest : List (ℕ × Node V)} {current : Option ℕ}
    (hchain : chain (Hashmap.index key) = front ++ rest)
    (hpath : ht.nodes.Path MapNode.next MapNode.node current rest none) {fuel : ℕ}
    (hloop : ht.deleteLoop key fuel (front.getLast?.map Prod.fst) current = some ht') :
    ∃ chain', Sole ht' chain' := by
  induction rest generalizing front current fuel with
  | nil =>
    obtain rfl := hpath.eq_of_nil
    rw [HashmapMemory.deleteLoop] at hloop
    cases hloop
    exact ⟨chain, h⟩
  | cons x rest ih =>
    obtain ⟨node, hnode, hval, hrest⟩ := hpath.head
    rw [hpath.start_eq] at hloop
    cases fuel with
    | zero => cases hloop
    | succ fuel =>
      rw [HashmapMemory.deleteLoop, hnode] at hloop
      simp only [Option.bind_some, sameKey_eq, hval] at hloop
      split_ifs at hloop with hsame
      · rcases front.eq_nil_or_concat' with rfl | ⟨front, y, rfl⟩
        · obtain ⟨ht'', hunlink, hrep⟩ := h.represents.unlink_head hchain hnode
          obtain rfl := Option.some.inj (hunlink.symm.trans hloop)
          exact ⟨_, hrep, owns_unlink h.owns hunlink (mem_addresses_remove h.represents hchain)⟩
        · obtain ⟨ht'', hunlink, hrep⟩ := h.represents.unlink hchain hnode
          rw [List.getLast?_concat] at hloop
          obtain rfl := Option.some.inj (hunlink.symm.trans hloop)
          exact ⟨_, hrep, owns_unlink h.owns hunlink (mem_addresses_remove h.represents hchain)⟩
      · have hlast : (front ++ [x]).getLast?.map Prod.fst = some x.1 := by
          rw [List.getLast?_concat]
          rfl
        rw [← hlast] at hloop
        exact ih (front ++ [x]) (by rw [hchain, List.append_assoc]; rfl) hrest hloop

/-- `destroy_hashmap` follows no bad pointer, frees every node once and leaves nothing. -/
lemma Sole.destroyHashmap (h : Sole ht chain) :
    ∃ nodes, ht.destroyHashmap = some nodes ∧ nodes.Owns [] := by
  apply h.owns.freeLists
  · intro i _
    exact h.represents.path i
  · exact (List.nodup_finRange tableSize).imp fun hij => h.represents.apart _ _ hij
  · intro i _
    exact (h.represents.path i).length_le

/-- Every call keeps the nodes in memory accounted for. -/
lemma Sole.step {s s' : MapRun V} {request : MapRequest V} (h : ∃ chain, Sole s.map chain)
    (hst : s.step request = some s') : ∃ chain, Sole s'.map chain := by
  obtain ⟨chain, hsole⟩ := h
  cases request with
  | insert key value new =>
    obtain ⟨ht', hinsert, rfl⟩ := Option.map_eq_some_iff.mp hst
    exact hsole.insert hinsert
  | delete key =>
    unfold MapRun.step at hst
    dsimp only at hst
    split at hst
    next =>
      cases hst
      exact ⟨chain, hsole⟩
    next ht' hdelete =>
      cases hst
      exact hsole.deleteLoop key [] rfl (hsole.represents.path _) hdelete
  | get key =>
    unfold MapRun.step at hst
    dsimp only at hst
    split at hst
    next =>
      cases hst
      exact ⟨chain, hsole⟩
    next =>
      cases hst
      exact ⟨chain, hsole⟩

/-- After every sequence of calls `destroy_hashmap` goes only through nodes that are allocated,
frees each of them once, and leaves no node in memory. -/
theorem hashmap_destroyed {s : MapRun V} (h : Reachable MapRun.step MapRun.init s) :
    ∃ nodes, s.map.destroyHashmap = some nodes ∧ ∀ n, nodes.cell n = none := by
  obtain ⟨chain, hsole⟩ := h.invariant (I := fun s => ∃ chain, Sole s.map chain)
    ⟨_, sole_createTable⟩ fun _ _ _ hs _ hst => Sole.step hs hst
  obtain ⟨nodes, hdestroy, hown⟩ := hsole.destroyHashmap
  refine ⟨nodes, hdestroy, fun n => ?_⟩
  rw [← Option.not_isSome_iff_eq_none, hown n]
  exact List.not_mem_nil

/-- Two nodes are in a chain when the table is destroyed, and one was deleted before. -/
theorem hashmap_destroyed_two : ∃ s : MapRun ℕ,
    s.log = [.insert http11 1, .insert http11 2, .insert http10 3, .delete http11] ∧
    ∃ nodes, s.map.destroyHashmap = some nodes ∧ ∀ n, nodes.cell n = none := by
  have hrun := Run.get_execWhere MapRun.step anyStep MapRun.init
    [.insert http11 1 0, .insert http11 2 1, .insert http10 3 2, .delete http11]
    (by decide +kernel)
  exact ⟨_, by decide +kernel, hashmap_destroyed hrun⟩

end HashmapMemory

end OsLabs.Proxy
