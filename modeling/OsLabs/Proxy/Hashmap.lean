import OsLabs.Foundation.CString
import Mathlib.Logic.Function.Basic

/-!
# The hash map of the proxy

`lab3/src/common/hashmap.c` with `hashn` of `common.c`: a table of `TABLE_SIZE` chains, searched
with `strncmp` on the first `MAX_KEY_LENGTH` characters.  `stack ht key` is the abstract content of
the table under a key, newest value first; `insert` pushes on it, `delete` pops it and `get` reads
its top.
-/

namespace OsLabs.Proxy

variable {V : Type*}

/-- `MAX_KEY_LENGTH`. -/
def maxKeyLength : ℕ := 512

/-- `TABLE_SIZE`. -/
def tableSize : ℕ := 128

/-- A (signed) `char` converted to `unsigned long`. -/
def charToLong (c : UInt8) : UInt64 := UInt64.ofBitVec (c.toBitVec.signExtend 64)

/-- The loop of `hashn`. -/
def hashLoop (maxSize : ℕ) (hash : UInt64) (i : ℕ) : List UInt8 → UInt64
  | [] => hash
  | c :: str =>
    if i < maxSize then hashLoop maxSize ((hash <<< 5) + hash + charToLong c) (i + 1) str
    else hash

/-- `hashn`. -/
def hashn (str : CString) (maxSize : ℕ) : UInt32 := (hashLoop maxSize 5381 0 str.bytes).toUInt32

/-- `node_t`, without the link. -/
structure Node (V : Type*) where
  /-- `key`: the first `MAX_KEY_LENGTH` characters of the inserted key. -/
  key : CString
  /-- `value`. -/
  value : V

/-- `hashmap_t`: each chain is the list of its nodes, head first. -/
structure Hashmap (V : Type*) where
  /-- `table`. -/
  table : Fin tableSize → List (Node V)

namespace Hashmap

/-- The index computed from a key: `hashn(key, MAX_KEY_LENGTH) % TABLE_SIZE`. -/
def index (key : CString) : Fin tableSize :=
  ⟨(hashn key maxKeyLength).toNat % tableSize, Nat.mod_lt _ (by decide)⟩

/-- The test `strncmp(node->key, key, MAX_KEY_LENGTH) == 0`. -/
def isFor (key : CString) (node : Node V) : Bool := CString.agree node.key key maxKeyLength

/-- `create_table`. -/
def createTable : Hashmap V := ⟨fun _ => []⟩

/-- `insert`. -/
def insert (ht : Hashmap V) (key : CString) (value : V) : Hashmap V :=
  ⟨Function.update ht.table (index key)
    (⟨key.truncate maxKeyLength, value⟩ :: ht.table (index key))⟩

/-- `get`; `none` is `NULL`. -/
def get (ht : Hashmap V) (key : CString) : Option V :=
  ((ht.table (index key)).find? (isFor key)).map Node.value

/-- `delete`. -/
def delete (ht : Hashmap V) (key : CString) : Hashmap V :=
  ⟨Function.update ht.table (index key) ((ht.table (index key)).eraseP (isFor key))⟩

/-- The values stored under a key, newest first. -/
def stack (ht : Hashmap V) (key : CString) : List V :=
  ((ht.table (index key)).filter (isFor key)).map Node.value

/-! ## The index depends on the compared characters only -/

/-- The loop of `hashn` stops after `maxSize` characters. -/
lemma hashLoop_take (maxSize : ℕ) (hash : UInt64) (i : ℕ) (str : List UInt8) :
    hashLoop maxSize hash i (str.take (maxSize - i)) = hashLoop maxSize hash i str := by
  induction str generalizing hash i with
  | nil => rw [List.take_nil]
  | cons c str ih =>
    by_cases h : i < maxSize
    · obtain ⟨k, hk⟩ : ∃ k, maxSize - i = k + 1 := ⟨maxSize - i - 1, by omega⟩
      have hk' : k = maxSize - (i + 1) := by omega
      rw [hk, List.take_succ_cons, hashLoop, hashLoop, if_pos h, if_pos h, hk', ih]
    · have hz : maxSize - i = 0 := by omega
      rw [hz, List.take_zero, hashLoop, hashLoop, if_neg h]

/-- Keys that agree on the compared characters have the same index. -/
lemma index_eq_of_agree {key key' : CString} (h : CString.agree key key' maxKeyLength = true) :
    index key = index key' := by
  have hhash : ∀ k : CString, hashLoop maxKeyLength 5381 0 k.bytes =
      hashLoop maxKeyLength 5381 0 (k.bytes.take maxKeyLength) := fun k =>
    (hashLoop_take maxKeyLength 5381 0 k.bytes).symm
  rw [CString.agree_iff] at h
  simp only [index, hashn, hhash key, hhash key', h]

/-- The search for a key and for one that agrees with it accept the same nodes. -/
lemma isFor_eq_of_agree {key key' : CString} (h : CString.agree key key' maxKeyLength = true) :
    isFor (V := V) key = isFor key' := by
  rw [CString.agree_iff] at h
  funext node
  simp only [isFor, CString.agree, h]

/-! ## The table as a map of stacks -/

/-- A new table has nothing under any key. -/
@[simp] lemma stack_createTable (key : CString) : stack (createTable : Hashmap V) key = [] := rfl

/-- `get` reads the newest value. -/
theorem get_eq_head? (ht : Hashmap V) (key : CString) : get ht key = (stack ht key).head? := by
  rw [get, stack, List.head?_map, List.head?_filter]

/-- Replacing one chain changes the stacks of its own keys only. -/
lemma stack_update (ht : Hashmap V) (i : Fin tableSize) (chain : List (Node V)) (key : CString) :
    stack ⟨Function.update ht.table i chain⟩ key =
      if index key = i then (chain.filter (isFor key)).map Node.value else stack ht key := by
  unfold stack
  split_ifs with h
  · subst h; simp only [Function.update_self]
  · simp only [Function.update_of_ne h]

/-- `insert` pushes on the stack of the keys that agree with its own, and on no other. -/
theorem stack_insert (ht : Hashmap V) (key key' : CString) (value : V) :
    stack (insert ht key value) key' =
      if CString.agree key key' maxKeyLength then value :: stack ht key' else stack ht key' := by
  split_ifs with h
  · have hnew : isFor key' (⟨key.truncate maxKeyLength, value⟩ : Node V) = true := by
      rw [isFor, CString.agree_truncate_left, h]
    rw [insert, index_eq_of_agree h, stack_update, if_pos rfl, List.filter_cons, if_pos hnew,
      List.map_cons, stack]
  · by_cases hi : index key' = index key
    · have hnew : ¬ isFor key' (⟨key.truncate maxKeyLength, value⟩ : Node V) = true := by
        rwa [isFor, CString.agree_truncate_left]
      rw [insert, stack_update, if_pos hi, List.filter_cons, if_neg hnew, stack, hi]
    · rw [insert, stack_update, if_neg hi]

/-- Removing the first match of one search drops the first result of that search. -/
lemma filter_eraseP_self {α : Type*} (p : α → Bool) (l : List α) :
    (l.eraseP p).filter p = (l.filter p).tail := by
  induction l with
  | nil => rfl
  | cons a l ih =>
    by_cases h : p a = true
    · rw [List.eraseP_cons_of_pos h, List.filter_cons, if_pos h, List.tail_cons]
    · rw [List.eraseP_cons_of_neg h, List.filter_cons, List.filter_cons, if_neg h, if_neg h, ih]

/-- Removing the first match of one search does not disturb a disjoint one. -/
lemma filter_eraseP_of_disjoint {α : Type*} {p q : α → Bool}
    (h : ∀ a, p a = true → q a = false) (l : List α) : (l.eraseP p).filter q = l.filter q := by
  induction l with
  | nil => rfl
  | cons a l ih =>
    by_cases hp : p a = true
    · have hq : ¬ q a = true := by simp [h a hp]
      rw [List.eraseP_cons_of_pos hp, List.filter_cons, if_neg hq]
    · rw [List.eraseP_cons_of_neg hp, List.filter_cons, List.filter_cons, ih]

/-- Searches for keys that do not agree have no common match. -/
lemma isFor_disjoint {key key' : CString} (h : ¬ CString.agree key key' maxKeyLength = true)
    (node : Node V) (hn : isFor key node = true) : isFor key' node = false := by
  rw [← Bool.not_eq_true]
  intro hn'
  rw [isFor, CString.agree_iff] at hn hn'
  exact h (CString.agree_iff.mpr (hn.symm.trans hn'))

/-- `delete` pops the stack of the keys that agree with its own, and touches no other. -/
theorem stack_delete (ht : Hashmap V) (key key' : CString) :
    stack (delete ht key) key' =
      if CString.agree key key' maxKeyLength then (stack ht key').tail else stack ht key' := by
  split_ifs with h
  · rw [delete, index_eq_of_agree h, isFor_eq_of_agree h, stack_update, if_pos rfl,
      filter_eraseP_self, List.map_tail, stack]
  · by_cases hi : index key' = index key
    · rw [delete, stack_update, if_pos hi, filter_eraseP_of_disjoint (isFor_disjoint h), stack, hi]
    · rw [delete, stack_update, if_neg hi]

/-- `delete` takes back what `insert` has just done. -/
theorem delete_insert (ht : Hashmap V) (key : CString) (value : V) :
    delete (insert ht key value) key = ht := by
  have hnew : isFor key (⟨key.truncate maxKeyLength, value⟩ : Node V) = true := by
    rw [isFor, CString.agree_truncate_left]
    exact CString.agree_iff.mpr rfl
  simp only [delete, insert, Function.update_self, List.eraseP_cons_of_pos hnew,
    Function.update_idem, Function.update_eq_self]

/-- `delete` does nothing for a key without an entry. -/
theorem delete_of_get {ht : Hashmap V} {key : CString} (h : get ht key = none) :
    delete ht key = ht := by
  rw [get, Option.map_eq_none_iff, List.find?_eq_none] at h
  rw [delete, List.eraseP_of_forall_not h, Function.update_eq_self]

end Hashmap

end OsLabs.Proxy
