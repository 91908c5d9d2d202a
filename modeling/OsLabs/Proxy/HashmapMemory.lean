import OsLabs.Foundation.Heap
import OsLabs.Foundation.Transition
import OsLabs.Proxy.Hashmap
import OsLabs.Proxy.Request

/-!
# The hash map in memory

`insert`, `get` and `delete` of `lab3/src/common/hashmap.c` on nodes in memory: a key is an array of
`MAX_KEY_LENGTH` characters that `strncpy` has filled, the chains are followed by pointers, and
`delete` unlinks a node at the head of a chain or behind another one.  An operation answers `none`
where it would go through a bad pointer or read behind the end of a string.  The loops carry a bound
on their rounds, the number of nodes that were ever in memory, and answer `none` beyond it.

`Represents` connects the memory with the table of chains of `Hashmap.lean`; `Accounts` says what a
sequence of calls should answer, in terms of one list of entries with the newest first.
-/

namespace OsLabs.Proxy

open Transition

variable {V : Type*}

/-- `node_t` in memory. -/
structure MapNode (V : Type*) where
  /-- `key`, which need not be terminated. -/
  key : List UInt8
  length_key : key.length = maxKeyLength
  value : V
  next : Option ℕ

/-- The node without its link, with the string in its array. -/
def MapNode.node (node : MapNode V) : Node V := ⟨CString.ofArray node.key, node.value⟩

/-- `hashmap_t` with its nodes in memory. -/
structure HashmapMemory (V : Type*) where
  nodes : Heap (MapNode V)
  table : Fin tableSize → Option ℕ

namespace HashmapMemory

/-- `create_table`. -/
def createTable : HashmapMemory V := ⟨Heap.empty, fun _ => none⟩

/-- The test `strncmp(node->key, key, MAX_KEY_LENGTH) == 0`. -/
def sameKey (node : MapNode V) (key : CString) : Option Bool :=
  CString.strncmp maxKeyLength node.key (key.bytes ++ [0])

/-- `insert`; `malloc` answers the address `new`. -/
def insert (ht : HashmapMemory V) (key : CString) (value : V) (new : ℕ) :
    Option (HashmapMemory V) :=
  let index := Hashmap.index key
  (ht.nodes.alloc new ⟨key.strncpy maxKeyLength, key.length_strncpy maxKeyLength, value,
    ht.table index⟩).map fun nodes => ⟨nodes, Function.update ht.table index (some new)⟩

/-- The loop of `get`, from the node `current`. -/
def getLoop (nodes : Heap (MapNode V)) (key : CString) : ℕ → Option ℕ → Option (Option V)
  | _, none => some none
  | 0, some _ => none
  | fuel + 1, some current =>
    (nodes.cell current).bind fun node =>
      (sameKey node key).bind fun same =>
        if same then some (some node.value) else getLoop nodes key fuel node.next

/-- `get`; the inner `none` is `NULL`. -/
def get (ht : HashmapMemory V) (key : CString) : Option (Option V) :=
  getLoop ht.nodes key ht.nodes.cells.length (ht.table (Hashmap.index key))

/-- The end of `delete`: the node `current` is taken out of its chain, which goes on with `next`,
and freed. -/
def unlink (ht : HashmapMemory V) (index : Fin tableSize) (previous : Option ℕ) (current : ℕ)
    (next : Option ℕ) : Option (HashmapMemory V) :=
  match previous with
  | none =>
    (ht.nodes.free (some current)).map fun nodes => ⟨nodes, Function.update ht.table index next⟩
  | some previous =>
    (ht.nodes.modify (some previous) fun node => { node with next := next }).bind fun nodes =>
      (nodes.free (some current)).map fun nodes => ⟨nodes, ht.table⟩

/-- The loop of `delete`, from the node `current` behind the node `previous`. -/
def deleteLoop (ht : HashmapMemory V) (key : CString) :
    ℕ → Option ℕ → Option ℕ → Option (HashmapMemory V)
  | _, _, none => some ht
  | 0, _, some _ => none
  | fuel + 1, previous, some current =>
    (ht.nodes.cell current).bind fun node =>
      (sameKey node key).bind fun same =>
        if same then ht.unlink (Hashmap.index key) previous current node.next
        else deleteLoop ht key fuel (some current) node.next

/-- `delete`. -/
def delete (ht : HashmapMemory V) (key : CString) : Option (HashmapMemory V) :=
  deleteLoop ht key ht.nodes.cells.length none (ht.table (Hashmap.index key))

/-! ## The memory holds a table of chains -/

/-- The chain of each index is in memory, and no node is in two chains. -/
structure Represents (ht : HashmapMemory V) (chain : Fin tableSize → List (ℕ × Node V)) : Prop where
  path : ∀ i, ht.nodes.Path MapNode.next MapNode.node (ht.table i) (chain i) none
  apart : ∀ i j, i ≠ j → ∀ n ∈ (chain i).map Prod.fst, n ∉ (chain j).map Prod.fst

/-- The table of chains, without the addresses. -/
def toHashmap (chain : Fin tableSize → List (ℕ × Node V)) : Hashmap V :=
  ⟨fun i => (chain i).map Prod.snd⟩

variable {ht ht' : HashmapMemory V} {chain : Fin tableSize → List (ℕ × Node V)} {key : CString}
  {value : V} {new : ℕ}

/-- The new table is empty. -/
lemma represents_createTable : Represents (createTable : HashmapMemory V) fun _ => [] :=
  ⟨fun _ => .nil _, fun _ _ _ _ h => (List.not_mem_nil h).elim⟩

/-- The comparison with a node stays within both strings and is that of the table of chains. -/
lemma sameKey_eq (node : MapNode V) (key : CString) :
    sameKey node key = some (Hashmap.isFor key node.node) :=
  CString.strncmp_eq node.length_key key

/-- The loop of `get` finds the first node for the key. -/
lemma getLoop_eq {nodes : Heap (MapNode V)} {start : Option ℕ} {l : List (ℕ × Node V)}
    (h : nodes.Path MapNode.next MapNode.node start l none) {fuel : ℕ} (hfuel : l.length ≤ fuel) :
    getLoop nodes key fuel start =
      some (((l.map Prod.snd).find? (Hashmap.isFor key)).map Node.value) := by
  induction l generalizing start fuel with
  | nil =>
    obtain rfl := h.eq_of_nil
    rw [getLoop]
    rfl
  | cons x l ih =>
    obtain ⟨fuel, rfl⟩ := Nat.exists_eq_add_one.mpr (Nat.lt_of_lt_of_le (Nat.succ_pos _) hfuel)
    obtain ⟨node, hnode, hval, hrest⟩ := h.head
    have hstep : getLoop nodes key (fuel + 1) (some x.1) =
        if Hashmap.isFor key x.2 then some (some node.value)
        else getLoop nodes key fuel node.next := by
      rw [getLoop, hnode]
      simp only [Option.bind_some, sameKey_eq, hval]
    rw [h.start_eq, hstep, List.map_cons, List.find?_cons]
    cases hsame : Hashmap.isFor key x.2 with
    | true =>
      rw [if_pos rfl, ← hval]
      rfl
    | false =>
      rw [if_neg Bool.false_ne_true]
      exact ih hrest (by rw [List.length_cons] at hfuel; omega)

/-- `get` answers what the table of chains has. -/
theorem Represents.get (h : Represents ht chain) (key : CString) :
    ht.get key = some ((toHashmap chain).get key) :=
  getLoop_eq (h.path _) (h.path _).length_le

/-- One chain is replaced; the others are still there, and the new one has no node of theirs. -/
lemma Represents.replace {nodes : Heap (MapNode V)} {i : Fin tableSize} {start : Option ℕ}
    {l : List (ℕ × Node V)} (h : Represents ht chain)
    (hpath : nodes.Path MapNode.next MapNode.node start l none)
    (hothers : ∀ j, j ≠ i →
      nodes.Path MapNode.next MapNode.node (ht.table j) (chain j) none ∧
        ∀ n ∈ l.map Prod.fst, n ∉ (chain j).map Prod.fst) :
    Represents ⟨nodes, Function.update ht.table i start⟩ (Function.update chain i l) := by
  constructor
  · intro j
    rcases eq_or_ne j i with rfl | hj
    · show nodes.Path _ _ (Function.update ht.table j start j) _ none
      rw [Function.update_self, Function.update_self]
      exact hpath
    · show nodes.Path _ _ (Function.update ht.table i start j) _ none
      rw [Function.update_of_ne hj, Function.update_of_ne hj]
      exact (hothers j hj).1
  · intro j k hjk n hn
    rcases eq_or_ne j i with rfl | hj
    · rw [Function.update_self] at hn
      rw [Function.update_of_ne hjk.symm]
      exact (hothers k hjk.symm).2 n hn
    · rw [Function.update_of_ne hj] at hn
      rcases eq_or_ne k i with rfl | hk
      · rw [Function.update_self]
        exact fun hmem => (hothers j hj).2 n hmem hn
      · rw [Function.update_of_ne hk]
        exact h.apart j k hjk n hn

/-- The table of chains after one chain was replaced. -/
lemma toHashmap_update (chain : Fin tableSize → List (ℕ × Node V)) (i : Fin tableSize)
    (l : List (ℕ × Node V)) : toHashmap (Function.update chain i l) =
      ⟨Function.update (toHashmap chain).table i (l.map Prod.snd)⟩ := by
  unfold toHashmap
  congr
  funext j
  rcases eq_or_ne j i with rfl | hj
  · rw [Function.update_self, Function.update_self]
  · rw [Function.update_of_ne hj, Function.update_of_ne hj]

/-- `insert` puts a new node before the chain of its index. -/
theorem Represents.insert (h : Represents ht chain) (key : CString) (value : V)
    (hfree : ht.nodes.cell new = none) :
    ∃ ht' chain', ht.insert key value new = some ht' ∧ Represents ht' chain' ∧
      toHashmap chain' = (toHashmap chain).insert key value := by
  have hnot : ∀ j, new ∉ (chain j).map Prod.fst := fun j => (h.path j).notMem_of_cell hfree
  have hnode : (⟨key.strncpy maxKeyLength, key.length_strncpy maxKeyLength, value,
      ht.table (Hashmap.index key)⟩ : MapNode V).node = ⟨key.truncate maxKeyLength, value⟩ := by
    unfold MapNode.node
    rw [CString.ofArray_strncpy]
  refine ⟨_, Function.update chain (Hashmap.index key)
    ((new, ⟨key.truncate maxKeyLength, value⟩) :: chain (Hashmap.index key)),
    by rw [HashmapMemory.insert, Heap.alloc_of_free hfree]; rfl,
    h.replace ?_ fun j hj => ⟨?_, ?_⟩, ?_⟩
  · rw [← hnode]
    exact .cons (by rw [Heap.cell_set_self])
      ((h.path (Hashmap.index key)).set_of_notMem (hnot _) _)
  · exact (h.path j).set_of_notMem (hnot j) _
  · intro n hn
    rw [List.map_cons] at hn
    rcases List.mem_cons.mp hn with rfl | hn
    · exact hnot j
    · exact h.apart _ j hj.symm n hn
  · rw [toHashmap_update]
    rfl

/-- Taking out a node that is not at the head of its chain. -/
lemma Represents.unlink {i : Fin tableSize} {l l' : List (ℕ × Node V)} {y x : ℕ × Node V}
    {node : MapNode V} (h : Represents ht chain) (hchain : chain i = l ++ [y] ++ x :: l')
    (hx : ht.nodes.cell x.1 = some node) :
    ∃ ht', ht.unlink i (some y.1) x.1 node.next = some ht' ∧
      Represents ht' (Function.update chain i (l ++ [y] ++ l')) := by
  have hpath := h.path i
  rw [hchain] at hpath
  obtain ⟨before, hbefore, hval⟩ := hpath.exists_cell (x := y) (by simp)
  have hnd := hpath.nodup
  rw [List.map_append, List.nodup_append] at hnd
  have hne : x.1 ≠ y.1 := fun heq => hnd.2.2 y.1 (by simp) x.1 (by simp) heq.symm
  have hcell : (ht.nodes.set y.1 (some { before with next := node.next })).cell x.1 =
      some node := by rw [Heap.cell_set_of_ne hne, hx]
  refine ⟨_, by rw [HashmapMemory.unlink, Heap.modify_of_cell hbefore, Option.bind_some,
    Heap.free_of_cell hcell]; rfl, ?_⟩
  have hreplace := h.replace (i := i) (hpath.unlink hx (b := { before with next := node.next })
    hval rfl) fun j hj => ?_
  · rwa [Function.update_eq_self] at hreplace
  · have hapart : ∀ n ∈ (l ++ [y] ++ x :: l').map Prod.fst, n ∉ (chain j).map Prod.fst :=
      fun n hn => h.apart i j hj.symm n (hchain ▸ hn)
    refine ⟨((h.path j).set_of_notMem (hapart y.1 (by simp)) _).set_of_notMem
      (hapart x.1 (by simp)) _, fun n hn => hapart n ?_⟩
    simp only [List.map_append, List.map_cons, List.mem_append, List.mem_cons] at hn ⊢
    tauto

/-- Taking out the node at the head of its chain. -/
lemma Represents.unlink_head {i : Fin tableSize} {l' : List (ℕ × Node V)} {x : ℕ × Node V}
    {node : MapNode V} (h : Represents ht chain) (hchain : chain i = x :: l')
    (hx : ht.nodes.cell x.1 = some node) :
    ∃ ht', ht.unlink i none x.1 node.next = some ht' ∧
      Represents ht' (Function.update chain i l') := by
  have hpath := h.path i
  rw [hchain] at hpath
  obtain ⟨node', hnode', -, hrest⟩ := hpath.head
  obtain rfl := Option.some.inj (hx.symm.trans hnode')
  have hnot : x.1 ∉ l'.map Prod.fst := (List.nodup_cons.mp hpath.nodup).1
  refine ⟨_, by rw [HashmapMemory.unlink, Heap.free_of_cell hx]; rfl,
    h.replace (hrest.set_of_notMem hnot none) fun j hj => ?_⟩
  have hapart : ∀ n ∈ (x :: l').map Prod.fst, n ∉ (chain j).map Prod.fst :=
    fun n hn => h.apart i j hj.symm n (hchain ▸ hn)
  exact ⟨(h.path j).set_of_notMem (hapart x.1 (by simp)) none,
    fun n hn => hapart n (List.mem_cons_of_mem _ hn)⟩

/-- The loop of `delete` removes the first node for the key from what is left of its chain. -/
lemma Represents.deleteLoop (h : Represents ht chain) (key : CString) (front : List (ℕ × Node V))
    {rest : List (ℕ × Node V)} {current : Option ℕ}
    (hchain : chain (Hashmap.index key) = front ++ rest)
    (hpath : ht.nodes.Path MapNode.next MapNode.node current rest none) {fuel : ℕ}
    (hfuel : rest.length ≤ fuel) :
    ∃ ht' l', ht.deleteLoop key fuel (front.getLast?.map Prod.fst) current = some ht' ∧
      Represents ht' (Function.update chain (Hashmap.index key) l') ∧
      l'.map Prod.snd = front.map Prod.snd ++ (rest.map Prod.snd).eraseP (Hashmap.isFor key) := by
  induction rest generalizing front current fuel with
  | nil =>
    obtain rfl := hpath.eq_of_nil
    rw [List.append_nil] at hchain
    refine ⟨ht, front, by rw [HashmapMemory.deleteLoop], ?_, (List.append_nil _).symm⟩
    rwa [← hchain, Function.update_eq_self]
  | cons x rest ih =>
    obtain ⟨fuel, rfl⟩ := Nat.exists_eq_add_one.mpr (Nat.lt_of_lt_of_le (Nat.succ_pos _) hfuel)
    obtain ⟨node, hnode, hval, hrest⟩ := hpath.head
    have hstep : ∀ previous, ht.deleteLoop key (fuel + 1) previous (some x.1) =
        if Hashmap.isFor key x.2 then ht.unlink (Hashmap.index key) previous x.1 node.next
        else ht.deleteLoop key fuel (some x.1) node.next := by
      intro previous
      rw [HashmapMemory.deleteLoop, hnode]
      simp only [Option.bind_some, sameKey_eq, hval]
    rw [hpath.start_eq, hstep, List.map_cons]
    cases hsame : Hashmap.isFor key x.2 with
    | true =>
      rw [if_pos rfl, List.eraseP_cons_of_pos hsame]
      rcases front.eq_nil_or_concat' with rfl | ⟨front, y, rfl⟩
      · obtain ⟨ht', hunlink, hht'⟩ := h.unlink_head hchain hnode
        exact ⟨ht', rest, hunlink, hht', rfl⟩
      · obtain ⟨ht', hunlink, hht'⟩ := h.unlink hchain hnode
        rw [List.getLast?_concat]
        exact ⟨ht', _, hunlink, hht', List.map_append⟩
    | false =>
      rw [if_neg Bool.false_ne_true, List.eraseP_cons_of_neg (by simp [hsame])]
      have hlast : (front ++ [x]).getLast?.map Prod.fst = some x.1 := by
        rw [List.getLast?_concat]
        rfl
      obtain ⟨ht', l', hloop, hht', hl'⟩ := ih (front ++ [x]) (by simp [hchain]) hrest
        (Nat.le_of_succ_le_succ hfuel)
      refine ⟨ht', l', hlast ▸ hloop, hht', ?_⟩
      rw [hl', List.map_append, List.append_assoc]
      rfl

/-- `delete` removes the first node for the key from the chain of its index. -/
theorem Represents.delete (h : Represents ht chain) (key : CString) :
    ∃ ht' chain', ht.delete key = some ht' ∧ Represents ht' chain' ∧
      toHashmap chain' = (toHashmap chain).delete key := by
  obtain ⟨ht', l', hloop, hht', hl'⟩ :=
    h.deleteLoop key [] rfl (h.path _) (h.path _).length_le
  refine ⟨ht', _, hloop, hht', ?_⟩
  rw [toHashmap_update, hl']
  rfl

/-! ## Sequences of calls -/

/-- A call that has returned, with the answer of `get`. -/
inductive MapCall (V : Type*)
  | insert (key : CString) (value : V)
  | delete (key : CString)
  | get (key : CString) (answer : Option V)
  deriving DecidableEq

/-- The hash map in memory, whether a bad pointer was followed, and the calls so far. -/
structure MapRun (V : Type*) where
  map : HashmapMemory V
  faulted : Bool
  log : List (MapCall V)

/-- A call, with the answer of `malloc`. -/
inductive MapRequest (V : Type*)
  | insert (key : CString) (value : V) (malloc : ℕ)
  | delete (key : CString)
  | get (key : CString)

/-- The state after `create_table`. -/
def MapRun.init : MapRun V := ⟨createTable, false, []⟩

/-- One call; `none` where `malloc` cannot answer an address that is in use. -/
def MapRun.step (s : MapRun V) : MapRequest V → Option (MapRun V)
  | .insert key value new => (s.map.insert key value new).map fun ht =>
    { s with map := ht, log := s.log ++ [.insert key value] }
  | .delete key =>
    match s.map.delete key with
    | none => some { s with faulted := true }
    | some ht => some { s with map := ht, log := s.log ++ [.delete key] }
  | .get key =>
    match s.map.get key with
    | none => some { s with faulted := true }
    | some answer => some { s with log := s.log ++ [.get key answer] }

/-- Two keys are the same for the table. -/
def isKey (key : CString) (entry : CString × V) : Bool := CString.agree entry.1 key maxKeyLength

/-- The value of the newest entry whose key agrees with the given one. -/
def newest (entries : List (CString × V)) (key : CString) : Option V :=
  (entries.find? (isKey key)).map Prod.snd

/-- What a sequence of calls does to a list of entries, the newest first: an insertion adds an
entry, a deletion removes the newest one whose key agrees and nothing else, and `get` answers the
value of the newest one whose key agrees. -/
inductive Accounts : List (MapCall V) → List (CString × V) → Prop
  | start : Accounts [] []
  | insert {log entries} (key : CString) (value : V) : Accounts log entries →
      Accounts (log ++ [.insert key value]) ((key, value) :: entries)
  | delete {log entries} (key : CString) : Accounts log entries →
      Accounts (log ++ [.delete key]) (entries.eraseP (isKey key))
  | get {log entries} (key : CString) : Accounts log entries →
      Accounts (log ++ [.get key (newest entries key)]) entries

/-- Under every key the table has the values of the entries whose keys agree. -/
def Agrees (ht : Hashmap V) (entries : List (CString × V)) : Prop :=
  ∀ key, ht.stack key = (entries.filter (isKey key)).map Prod.snd

variable {entries : List (CString × V)}

/-- Keys that agree are the same for all entries. -/
lemma isKey_eq_of_agree {key key' : CString} (h : CString.agree key key' maxKeyLength = true) :
    isKey (V := V) key = isKey key' := by
  rw [CString.agree_iff] at h
  funext entry
  simp only [isKey, CString.agree, h]

/-- An entry is not under two keys that do not agree. -/
lemma isKey_disjoint {key key' : CString} (h : ¬ CString.agree key key' maxKeyLength = true)
    (entry : CString × V) (hentry : isKey key entry = true) : isKey key' entry = false := by
  rw [← Bool.not_eq_true]
  intro hentry'
  rw [isKey, CString.agree_iff] at hentry hentry'
  exact h (CString.agree_iff.mpr (hentry.symm.trans hentry'))

/-- An insertion adds the entry. -/
lemma Agrees.insert {ht : Hashmap V} (h : Agrees ht entries) (key : CString) (value : V) :
    Agrees (ht.insert key value) ((key, value) :: entries) := by
  intro key'
  rw [Hashmap.stack_insert, List.filter_cons]
  by_cases hkey : CString.agree key key' maxKeyLength = true
  · rw [if_pos hkey, if_pos (show isKey key' (key, value) = true from hkey), List.map_cons, h key']
  · rw [if_neg hkey, if_neg (show ¬ isKey key' (key, value) = true from hkey), h key']

/-- A deletion removes the newest entry under the key, and no entry under another key. -/
lemma Agrees.delete {ht : Hashmap V} (h : Agrees ht entries) (key : CString) :
    Agrees (ht.delete key) (entries.eraseP (isKey key)) := by
  intro key'
  rw [Hashmap.stack_delete]
  by_cases hkey : CString.agree key key' maxKeyLength = true
  · rw [if_pos hkey, h key', isKey_eq_of_agree hkey, Hashmap.filter_eraseP_self, List.map_tail]
  · rw [if_neg hkey, h key', Hashmap.filter_eraseP_of_disjoint (isKey_disjoint hkey)]

/-- `get` answers the newest entry under the key. -/
lemma Agrees.get {ht : Hashmap V} (h : Agrees ht entries) (key : CString) :
    ht.get key = newest entries key := by
  rw [Hashmap.get_eq_head?, h key, List.head?_map, List.head?_filter, newest]

/-- The memory holds a table that agrees with the entries that the calls have left. -/
def Inv (s : MapRun V) : Prop :=
  s.faulted = false ∧ ∃ chain entries, Represents s.map chain ∧ Accounts s.log entries ∧
    Agrees (toHashmap chain) entries

/-- Every call keeps the invariant. -/
lemma Inv.step {s s' : MapRun V} {request : MapRequest V} (h : Inv s)
    (hst : s.step request = some s') : Inv s' := by
  obtain ⟨hok, chain, entries, hrep, hlog, hagrees⟩ := h
  cases request with
  | insert key value new =>
    obtain ⟨ht', hinsert, rfl⟩ := Option.map_eq_some_iff.mp hst
    have hfree : s.map.nodes.cell new = none := by
      obtain ⟨nodes, hal, -⟩ := Option.map_eq_some_iff.mp hinsert
      exact (Heap.alloc_eq_some hal).1
    obtain ⟨ht'', chain', hinsert', hrep', hmap⟩ := hrep.insert key value hfree
    obtain rfl := Option.some.inj (hinsert.symm.trans hinsert')
    exact ⟨hok, chain', _, hrep', hlog.insert key value, hmap ▸ hagrees.insert key value⟩
  | delete key =>
    obtain ⟨ht', chain', hdelete, hrep', hmap⟩ := hrep.delete key
    rw [MapRun.step, hdelete] at hst
    obtain rfl := Option.some.inj hst
    exact ⟨hok, chain', _, hrep', hlog.delete key, hmap ▸ hagrees.delete key⟩
  | get key =>
    rw [MapRun.step, hrep.get key, hagrees.get key] at hst
    obtain rfl := Option.some.inj hst
    exact ⟨hok, chain, entries, hrep, hlog.get key, hagrees⟩

/-- The hash map is a map of stacks: for every sequence of calls no bad pointer was followed, the
answers of `get` are those of the list of entries that the calls make, and so is the next one,
whatever its key; and the next deletion and insertion work. -/
theorem hashmap_refines {s : MapRun V} (h : Reachable MapRun.step MapRun.init s) :
    s.faulted = false ∧ ∃ entries, Accounts s.log entries ∧
      (∀ key, s.map.get key = some (newest entries key)) ∧
      (∀ key, ∃ ht, s.map.delete key = some ht) ∧
      ∀ key value new, s.map.nodes.cell new = none →
        ∃ ht, s.map.insert key value new = some ht := by
  obtain ⟨hok, chain, entries, hrep, hlog, hagrees⟩ := h.invariant (I := Inv)
    ⟨rfl, _, [], represents_createTable, .start, Hashmap.stack_createTable⟩
    fun _ _ _ hs _ hst => hs.step hst
  refine ⟨hok, entries, hlog, fun key => ?_, fun key => ?_, fun key value new hfree => ?_⟩
  · rw [hrep.get key, hagrees.get key]
  · obtain ⟨ht, -, hdelete, -⟩ := hrep.delete key
    exact ⟨ht, hdelete⟩
  · obtain ⟨ht, -, hinsert, -⟩ := hrep.insert key value hfree
    exact ⟨ht, hinsert⟩

/-- Two values under one key and one under another; after a deletion the first value is found again,
and the freed node is used for the next one. -/
theorem hashmap_refines_three : ∃ s : MapRun ℕ,
    s.log = [.insert http11 1, .insert http10 2, .insert http11 3, .delete http11,
      .get http11 (some 1), .insert refusedPath 4] ∧
    s.faulted = false ∧ ∃ entries, Accounts s.log entries ∧
      (∀ key, s.map.get key = some (newest entries key)) ∧
      (∀ key, ∃ ht, s.map.delete key = some ht) ∧
      ∀ key value new, s.map.nodes.cell new = none →
        ∃ ht, s.map.insert key value new = some ht := by
  have hrun := Run.get_execWhere MapRun.step anyStep MapRun.init
    [.insert http11 1 0, .insert http10 2 1, .insert http11 3 2, .delete http11, .get http11,
      .insert refusedPath 4 2] (by decide +kernel)
  exact ⟨_, by decide +kernel, hashmap_refines hrun⟩

end HashmapMemory

end OsLabs.Proxy
