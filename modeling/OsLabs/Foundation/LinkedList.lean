import Mathlib.Data.List.Nodup
import Mathlib.Data.Nat.Notation

/-!
# Linked lists and the exchange of neighbours

A singly linked list is given by a function `next : α → Option α` on its nodes.  `Visits next x l`
says that following `next` from `x` visits the nodes of `l`, in this order, and then ends.  The
function represents the list `l` when it sends the node at each position to the node at the next
one; then it visits `l`.

`exchange l i` has the elements at the positions `i` and `i + 1` in each other's place.
-/

namespace LinkedList

variable {α : Type*}

/-- Following `next` from `start` visits the nodes of the list in order and then ends. -/
inductive Visits (next : α → Option α) : Option α → List α → Prop
  | nil : Visits next none []
  | cons {x : α} {l : List α} : Visits next (next x) l → Visits next (some x) (x :: l)

/-- The successor of each node in a list. -/
def nextIn [DecidableEq α] (l : List α) (x : α) : Option α := l[l.idxOf x + 1]?

/-- In a list without repetitions the successor is the node at the next position. -/
lemma nextIn_eq [DecidableEq α] {l : List α} (hl : l.Nodup) {i : ℕ} {x : α}
    (h : l[i]? = some x) : nextIn l x = l[i + 1]? := by
  obtain ⟨hi, rfl⟩ := List.getElem?_eq_some_iff.mp h
  rw [nextIn, hl.idxOf_getElem i hi]

/-- In a list without repetitions a node has one position. -/
lemma index_unique {l : List α} (hl : l.Nodup) {i j : ℕ} {x : α} (hi : l[i]? = some x)
    (hj : l[j]? = some x) : i = j := by
  obtain ⟨hlt, hx⟩ := List.getElem?_eq_some_iff.mp hi
  exact (List.getElem?_inj hlt hl).mp (hi.trans hj.symm)

/-- A function that represents a list visits it from its first node. -/
theorem visits_of_next {next : α → Option α} {l : List α}
    (h : ∀ i x, l[i]? = some x → next x = l[i + 1]?) : Visits next l.head? l := by
  induction l with
  | nil => exact .nil
  | cons x l ih =>
    have hx : next x = l.head? := by
      rw [h 0 x rfl, List.getElem?_cons_succ, List.head?_eq_getElem?]
    refine .cons (hx ▸ ih fun i y hy => ?_)
    rw [h (i + 1) y (by rwa [List.getElem?_cons_succ]), List.getElem?_cons_succ]

/-! ## The exchange of two neighbours -/

/-- The list with the elements at the positions `i` and `i + 1` exchanged. -/
def exchange : List α → ℕ → List α
  | a :: b :: l, 0 => b :: a :: l
  | a :: l, i + 1 => a :: exchange l i
  | [], _ => []
  | [a], 0 => [a]

/-- The exchange is a permutation. -/
lemma exchange_perm (l : List α) (i : ℕ) : (exchange l i).Perm l := by
  induction l, i using exchange.induct with
  | case1 a b l => exact List.Perm.swap a b l
  | case2 a l i ih => rw [exchange]; exact ih.cons a
  | case3 i => rw [exchange]
  | case4 a => rw [exchange]

/-- The first of the two positions has the second element. -/
lemma getElem?_exchange_left {l : List α} {i : ℕ} (h : i + 1 < l.length) :
    (exchange l i)[i]? = l[i + 1]? := by
  induction l, i using exchange.induct with
  | case1 a b l => rfl
  | case2 a l i ih =>
    rw [exchange, List.getElem?_cons_succ, List.getElem?_cons_succ]
    exact ih (by simpa using h)
  | case3 i => simp at h
  | case4 a => simp at h

/-- The second of the two positions has the first element. -/
lemma getElem?_exchange_right {l : List α} {i : ℕ} (h : i + 1 < l.length) :
    (exchange l i)[i + 1]? = l[i]? := by
  induction l, i using exchange.induct with
  | case1 a b l => rfl
  | case2 a l i ih =>
    rw [exchange, List.getElem?_cons_succ, List.getElem?_cons_succ]
    exact ih (by simpa using h)
  | case3 i => simp at h
  | case4 a => simp at h

/-- All other positions keep their elements. -/
lemma getElem?_exchange_of_ne (l : List α) {i j : ℕ} (h : j ≠ i) (h' : j ≠ i + 1) :
    (exchange l i)[j]? = l[j]? := by
  induction l, i using exchange.induct generalizing j with
  | case1 a b l =>
    obtain ⟨k, rfl⟩ : ∃ k, j = k + 2 := ⟨j - 2, by omega⟩
    rfl
  | case2 a l i ih =>
    cases j with
    | zero => rw [exchange, List.getElem?_cons_zero, List.getElem?_cons_zero]
    | succ j =>
      rw [exchange, List.getElem?_cons_succ, List.getElem?_cons_succ]
      exact ih (by omega) (by omega)
  | case3 i => rfl
  | case4 a => rfl

/-- A prefix that does not end between the two positions keeps its elements. -/
lemma take_exchange_perm (l : List α) {i j : ℕ} (h : j ≠ i + 1) :
    ((exchange l i).take j).Perm (l.take j) := by
  induction l, i using exchange.induct generalizing j with
  | case1 a b l =>
    rcases j with _ | _ | j
    · exact List.Perm.refl _
    · exact absurd rfl h
    · exact List.Perm.swap a b _
  | case2 a l i ih =>
    cases j with
    | zero => exact List.Perm.refl _
    | succ j =>
      rw [exchange, List.take_succ_cons, List.take_succ_cons]
      exact (ih (by omega)).cons a
  | case3 i => exact List.Perm.refl _
  | case4 a => exact List.Perm.refl _

end LinkedList
