import OsLabs.Foundation.Heap

/-!
# Doubly linked lists in a heap

A doubly linked list is two paths through the same cells: from the first cell along `next`, and from
the last one along `prev` in the opposite order.  `Linked.single` and `Linked.append` are the rules
for a cell that is added at the end, `Linked.remove` is the rule for a cell that is taken out at any
place.
-/

namespace Heap

variable {A V : Type*}

/-- Following `next` from `first` and `prev` from `last` passes the same cells, in opposite
orders. -/
structure Linked (h : Heap A) (next prev : A → Option ℕ) (val : A → V) (first last : Option ℕ)
    (l : List (ℕ × V)) : Prop where
  forward : h.Path next val first l none
  backward : h.Path prev val last l.reverse none

namespace Linked

variable {h h' : Heap A} {next prev : A → Option ℕ} {val : A → V} {first last : Option ℕ}
  {l : List (ℕ × V)} {n : ℕ} {a : A}

/-- The empty list. -/
lemma nil : h.Linked next prev val none none [] := ⟨.nil none, .nil none⟩

/-- A list in which only changes that keep the cells of the list were made. -/
lemma congr (hl : h.Linked next prev val first last l)
    (hkeep : ∀ m ∈ l.map Prod.fst, h'.cell m = h.cell m) :
    h'.Linked next prev val first last l := by
  constructor
  · exact hl.forward.congr fun m hm a ha => ⟨a, (hkeep m hm).trans ha, rfl, rfl⟩
  · refine hl.backward.congr fun m hm a ha => ⟨a, (hkeep m ?_).trans ha, rfl, rfl⟩
    rwa [List.map_reverse, List.mem_reverse] at hm

/-- The list has no last cell when it is empty. -/
lemma eq_nil (hl : h.Linked next prev val first none l) : l = [] ∧ first = none := by
  rcases l.eq_nil_or_concat' with rfl | ⟨l, y, rfl⟩
  · exact ⟨rfl, hl.forward.eq_of_nil⟩
  · have hback := hl.backward
    rw [List.reverse_concat] at hback
    cases hback.start_eq

/-- Otherwise the last cell is at the end. -/
lemma eq_concat (hl : h.Linked next prev val first (some n) l) :
    ∃ l' v, l = l' ++ [(n, v)] := by
  rcases l.eq_nil_or_concat' with rfl | ⟨l, y, rfl⟩
  · cases hl.backward.eq_of_nil
  · have hback := hl.backward
    rw [List.reverse_concat] at hback
    exact ⟨l, y.2, by rw [Option.some.inj hback.start_eq]⟩

/-- One cell with no neighbours is a list. -/
lemma single (hn : h.cell n = some a) (hnext : next a = none) (hprev : prev a = none) :
    h.Linked next prev val (some n) (some n) [(n, val a)] :=
  ⟨.cons hn (hnext ▸ .nil _), .cons hn (hprev ▸ .nil _)⟩

/-- A new cell is added at the end: the last cell leads to it, and it leads back to the last
cell. -/
lemma append {l' : List (ℕ × V)} {v : V} {y : ℕ} {b c : A}
    (hl : h.Linked next prev val first last (l' ++ [(y, v)])) (hy : h.cell y = some b)
    (hn : h.cell n = none) (hy' : h'.cell y = some c) (hnext : next c = some n)
    (hprev : prev c = prev b) (hval : val c = val b) (hn' : h'.cell n = some a)
    (hnext' : next a = none) (hprev' : prev a = last)
    (hkeep : ∀ m, m ≠ y → m ≠ n → h'.cell m = h.cell m) :
    h'.Linked next prev val first (some n) (l' ++ [(y, v)] ++ [(n, val a)]) := by
  have hnot := hl.forward.notMem_of_cell hn
  have hnd := hl.forward.nodup
  rw [List.map_append, List.nodup_append] at hnd
  obtain ⟨mid, hfront, hend⟩ := hl.forward.split
  obtain ⟨b', hb', hv, -⟩ := hend.head
  obtain rfl := Option.some.inj (hy.symm.trans hb')
  obtain rfl : val c = v := hval.trans hv
  constructor
  · have hfront' : h'.Path next val first l' mid :=
      hfront.congr fun m hm d hd => ⟨d, (hkeep m (fun heq => ?_) fun heq => ?_).trans hd, rfl, rfl⟩
    · have hpath : h'.Path next val mid ([(y, val c)] ++ [(n, val a)]) none := by
        have hnew : h'.Path next val (next c) [(n, val a)] none :=
          hnext ▸ .cons hn' (hnext' ▸ .nil _)
        rw [hend.start_eq]
        exact .cons hy' hnew
      rw [List.append_assoc]
      exact hfront'.append hpath
    · exact hnd.2.2 m hm y (by simp) heq
    · exact hnot (heq ▸ by rw [List.map_append]; exact List.mem_append_left _ hm)
  · rw [List.reverse_concat]
    refine .cons hn' (hprev'.symm ▸ hl.backward.congr fun m hm d hd => ?_)
    rw [List.map_reverse, List.mem_reverse] at hm
    by_cases heq : m = y
    · obtain rfl := Option.some.inj ((heq ▸ hd).symm.trans hy)
      exact ⟨c, heq ▸ hy', hprev, hval⟩
    · exact ⟨d, (hkeep m heq fun heq' => hnot (heq' ▸ hm)).trans hd, rfl, rfl⟩

/-- The neighbours of a cell, as its links say. -/
lemma neighbours {l₁ l₂ : List (ℕ × V)} {x : ℕ × V}
    (hl : h.Linked next prev val first last (l₁ ++ x :: l₂)) (hx : h.cell x.1 = some a) :
    next a = l₂.head?.map Prod.fst ∧ prev a = l₁.getLast?.map Prod.fst := by
  constructor
  · obtain ⟨mid, -, hback⟩ := hl.forward.split
    obtain ⟨a', ha', -, hrest⟩ := hback.head
    obtain rfl := Option.some.inj (hx.symm.trans ha')
    exact hrest.start_eq_of_null
  · have hlist : (l₁ ++ x :: l₂).reverse = l₂.reverse ++ x :: l₁.reverse := by simp
    have hbackward := hl.backward
    rw [hlist] at hbackward
    obtain ⟨mid, -, hback⟩ := hbackward.split
    obtain ⟨a', ha', -, hrest⟩ := hback.head
    obtain rfl := Option.some.inj (hx.symm.trans ha')
    rw [hrest.start_eq_of_null, List.head?_reverse]

/-- The cells that a cell of the list leads to are allocated. -/
lemma exists_neighbour {l₁ l₂ : List (ℕ × V)} {x : ℕ × V}
    (hl : h.Linked next prev val first last (l₁ ++ x :: l₂)) (hx : h.cell x.1 = some a)
    (hn : next a = some n ∨ prev a = some n) : ∃ b, h.cell n = some b := by
  obtain ⟨hnext, hprev⟩ := hl.neighbours hx
  have hmem : ∃ y ∈ l₁ ++ x :: l₂, y.1 = n := by
    rcases hn with hn | hn
    · obtain ⟨y, hy, rfl⟩ := Option.map_eq_some_iff.mp (hnext.symm.trans hn)
      have hback := List.mem_of_head? hy
      exact ⟨y, by simp [hback], rfl⟩
    · obtain ⟨y, hy, rfl⟩ := Option.map_eq_some_iff.mp (hprev.symm.trans hn)
      have hfront := List.mem_of_getLast? hy
      exact ⟨y, by simp [hfront], rfl⟩
  obtain ⟨y, hy, rfl⟩ := hmem
  obtain ⟨b, hb, -⟩ := hl.forward.exists_cell hy
  exact ⟨b, hb⟩

/-- A cell is taken out: its neighbours lead to each other, or the list begins or ends with
them. -/
lemma remove {l₁ l₂ : List (ℕ × V)} {x : ℕ × V}
    (hl : h.Linked next prev val first last (l₁ ++ x :: l₂)) (hx : h.cell x.1 = some a)
    (hkeep : ∀ m ∈ (l₁ ++ l₂).map Prod.fst, ∀ b, h.cell m = some b →
      ∃ d, h'.cell m = some d ∧ val d = val b ∧
        next d = (if some m = prev a then next a else next b) ∧
        prev d = if some m = next a then prev a else prev b) :
    h'.Linked next prev val (if prev a = none then next a else first)
      (if next a = none then prev a else last) (l₁ ++ l₂) := by
  obtain ⟨hnext, hprev⟩ := hl.neighbours hx
  have hnd : ((l₁ ++ l₂).map Prod.fst).Nodup := (nodup_map_middle hl.forward.nodup).2
  have hfirst : prev a = none ↔ l₁ = [] := by
    rw [hprev, Option.map_eq_none_iff, List.getLast?_eq_none_iff]
  have hlast : next a = none ↔ l₂.reverse = [] := by
    rw [hnext, Option.map_eq_none_iff, List.head?_eq_none_iff, List.reverse_eq_nil_iff]
  constructor
  · simp only [hfirst]
    refine hl.forward.remove hnd hx fun m hm b hb => ?_
    obtain ⟨d, hd, hval, hn, -⟩ := hkeep m hm b hb
    exact ⟨d, hd, hval, hprev ▸ hn⟩
  · have hlist : (l₁ ++ x :: l₂).reverse = l₂.reverse ++ x :: l₁.reverse := by simp
    have hbackward := hl.backward
    rw [hlist] at hbackward
    simp only [hlast]
    rw [List.reverse_append]
    refine hbackward.remove ?_ hx fun m hm b hb => ?_
    · rw [← List.reverse_append, List.map_reverse, List.nodup_reverse]
      exact hnd
    · rw [← List.reverse_append, List.map_reverse, List.mem_reverse] at hm
      obtain ⟨d, hd, hval, -, hp⟩ := hkeep m hm b hb
      rw [List.getLast?_reverse]
      exact ⟨d, hd, hval, hnext ▸ hp⟩

end Linked

end Heap
