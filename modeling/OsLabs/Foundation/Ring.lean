import OsLabs.Foundation.Heap

/-!
# Rings in a heap

A ring is a closed path: following `next` from any of its cells passes each cell once and comes
back, and so does `prev`, the other way round. The cells are listed along `next` from one of them;
`Ring.path_of_append` is the same ring from another cell. `Ring.single` and `Ring.insert` are the
rules for a new cell, alone or behind the first one, and `Ring.inverse` says that `next` and `prev`
undo each other.
-/

namespace Heap

variable {A V : Type*}

/-- The cells of a ring along `next`, each of them once. -/
structure Ring (h : Heap A) (next prev : A → Option ℕ) (val : A → V) (l : List (ℕ × V)) :
    Prop where
  forward : h.Path next val (l.head?.map Prod.fst) l (l.head?.map Prod.fst)
  backward : h.Path prev val (l.head?.map Prod.fst) (l.take 1 ++ (l.drop 1).reverse)
    (l.head?.map Prod.fst)
  nodup : (l.map Prod.fst).Nodup

/-- A ring from another cell on. -/
lemma Ring.path_of_append {h : Heap A} {next prev : A → Option ℕ} {val : A → V}
    {front back : List (ℕ × V)} {x : ℕ × V} (hr : h.Ring next prev val (front ++ x :: back)) :
    h.Path next val (some x.1) (x :: (back ++ front)) (some x.1) := by
  obtain ⟨mid, hfront, hback⟩ := hr.forward.split
  rw [hback.start_eq] at hfront hback
  exact hback.append hfront

namespace Ring

variable {h h' : Heap A} {next prev : A → Option ℕ} {val : A → V} {l front back : List (ℕ × V)}
  {x : ℕ × V} {n : ℕ} {a c : A}

/-- A ring survives a change that keeps the links and the contents of each of its cells. -/
lemma congr (hr : h.Ring next prev val l)
    (hkeep : ∀ m ∈ l.map Prod.fst, ∀ a, h.cell m = some a →
      ∃ b, h'.cell m = some b ∧ next b = next a ∧ prev b = prev a ∧ val b = val a) :
    h'.Ring next prev val l := by
  have hmem : ∀ m, m ∈ (l.take 1 ++ (l.drop 1).reverse).map Prod.fst → m ∈ l.map Prod.fst := by
    intro m hm
    rw [List.map_append, List.map_reverse, List.mem_append, List.mem_reverse, ← List.mem_append,
      ← List.map_append, List.take_append_drop] at hm
    exact hm
  refine ⟨hr.forward.congr fun m hm a ha => ?_, hr.backward.congr fun m hm a ha => ?_, hr.nodup⟩
  · obtain ⟨b, hb, hnext, -, hval⟩ := hkeep m hm a ha
    exact ⟨b, hb, hnext, hval⟩
  · obtain ⟨b, hb, -, hprev, hval⟩ := hkeep m (hmem m hm) a ha
    exact ⟨b, hb, hprev, hval⟩

/-- The ring along `prev` from another cell on. -/
lemma backward_of_append (hr : h.Ring next prev val (front ++ x :: back)) :
    h.Path prev val (some x.1) (x :: (back ++ front).reverse) (some x.1) := by
  have hback := hr.backward
  cases front with
  | nil =>
    rw [List.append_nil]
    exact hback
  | cons y front =>
    have hlist : (y :: front ++ x :: back).take 1 ++ ((y :: front ++ x :: back).drop 1).reverse =
        (y :: back.reverse) ++ x :: front.reverse := by
      simp
    rw [hlist] at hback
    obtain ⟨mid, htop, hrest⟩ := hback.split
    rw [hrest.start_eq] at htop hrest
    have hpath := hrest.append htop
    have hreverse : (back ++ y :: front).reverse = front.reverse ++ y :: back.reverse := by
      simp
    rw [hreverse]
    exact hpath

/-- On two closed paths through the same cells in opposite orders, the second link leads back from
where the first one leads to. -/
lemma load_of_paths {f g : A → Option ℕ} {m : List (ℕ × V)}
    (hf : h.Path f val (some x.1) (x :: m) (some x.1))
    (hg : h.Path g val (some x.1) (x :: m.reverse) (some x.1)) (ha : h.cell x.1 = some a) :
    ∃ b, h.load (f a) = some b ∧ g b = some x.1 := by
  obtain ⟨a', ha', -, hrest⟩ := hf.head
  obtain rfl := Option.some.inj (ha.symm.trans ha')
  cases m with
  | nil =>
    obtain ⟨b, hb, hlast, -⟩ := Path.last (l := []) hg
    exact ⟨b, by rw [hrest.eq_of_nil, load_some, hb], hlast⟩
  | cons z m =>
    rw [List.reverse_cons, ← List.cons_append] at hg
    obtain ⟨b, hb, hlast, -⟩ := hg.last
    exact ⟨b, by rw [hrest.start_eq, load_some, hb], hlast⟩

/-- `prev` leads back from the cell that `next` leads to, and `next` from the one that `prev` leads
to. -/
lemma inverse (hr : h.Ring next prev val l) (hn : n ∈ l.map Prod.fst) (ha : h.cell n = some a) :
    (∃ b, h.load (next a) = some b ∧ prev b = some n) ∧
      ∃ b, h.load (prev a) = some b ∧ next b = some n := by
  obtain ⟨x, hx, rfl⟩ := List.mem_map.mp hn
  obtain ⟨front, back, rfl⟩ := List.append_of_mem hx
  have hforward := hr.path_of_append
  have hbackward := hr.backward_of_append
  refine ⟨load_of_paths hforward hbackward ha, load_of_paths hbackward ?_ ha⟩
  rw [List.reverse_reverse]
  exact hforward

/-- A cell that leads to itself is a ring. -/
lemma single (hn : h.cell n = some a) (hnext : next a = some n) (hprev : prev a = some n) :
    h.Ring next prev val [(n, val a)] :=
  ⟨.cons hn (hnext ▸ .nil _), .cons hn (hprev ▸ .nil _), List.nodup_singleton _⟩

/-- A new cell is put behind the first one, and becomes the first: the cell `x` leads to it, and the
cell that was behind `x` leads back to it. -/
lemma insert (hr : h.Ring next prev val (x :: l)) (hn : h.cell n = none) (hn' : h'.cell n = some a)
    (hnext : next a = (l ++ [x]).head?.map Prod.fst) (hprev : prev a = some x.1)
    (hkeep : ∀ m ∈ (x :: l).map Prod.fst, ∀ b, h.cell m = some b →
      ∃ c, h'.cell m = some c ∧ val c = val b ∧
        next c = (if m = x.1 then some n else next b) ∧
        prev c = if some m = (l ++ [x]).head?.map Prod.fst then some n else prev b) :
    h'.Ring next prev val ((n, val a) :: (l ++ [x])) := by
  have hnot := hr.forward.notMem_of_cell hn
  have hperm : ((l ++ [x]).map Prod.fst).Perm ((x :: l).map Prod.fst) :=
    (List.perm_append_singleton x l).map Prod.fst
  have hnd : ((l ++ [x]).map Prod.fst).Nodup := hperm.nodup_iff.mpr hr.nodup
  have hcell : ∀ y ∈ l ++ [x], ∃ b, h.cell y.1 = some b ∧ val b = y.2 := fun y hy =>
    hr.forward.exists_cell ((List.perm_append_singleton x l).mem_iff.mp hy)
  refine ⟨?_, ?_, List.nodup_cons.mpr ⟨fun hmem => hnot (hperm.mem_iff.mp hmem), hnd⟩⟩
  · -- the last link of the path along `next` now leads to the new cell
    obtain ⟨mid, hx, hl⟩ := Path.split (l := [x]) hr.forward
    have hpath := hl.append hx
    rw [hpath.start_eq_head? (by simp), ← hnext] at hpath
    refine .cons hn' (hpath.redirect (fun m hm b hb => ?_) ?_)
    · have hne : m ≠ x.1 := by
        rintro rfl
        exact (List.nodup_cons.mp hr.nodup).1 hm
      obtain ⟨c, hc, hval, hnext', -⟩ := hkeep m (List.mem_cons_of_mem _ hm) b hb
      exact ⟨c, hc, hnext'.trans (if_neg hne), hval⟩
    · obtain ⟨b, hb, hval⟩ := hcell x (by simp)
      obtain ⟨c, hc, hval', hnext', -⟩ := hkeep x.1 (by simp) b hb
      exact ⟨c, hc, hnext'.trans (if_pos rfl), hval'.trans hval⟩
  · -- so does the last link of the path along `prev`
    have hback : h.Path prev val (some x.1) (l ++ [x]).reverse (some x.1) := by
      rw [List.reverse_concat]
      exact hr.backward
    have hgoal : h'.Path prev val (some x.1) (l ++ [x]).reverse (some n) := by
      rcases hlist : l ++ [x] with _ | ⟨z, r⟩
      · simp at hlist
      · rw [hlist] at hback hnd hkeep hcell
        rw [List.reverse_cons] at hback ⊢
        have hmem : ∀ y ∈ z :: r, y.1 ∈ (x :: l).map Prod.fst := fun y hy =>
          hperm.mem_iff.mp (hlist ▸ List.mem_map_of_mem hy)
        refine hback.redirect (fun m hm b hb => ?_) ?_
        · rw [List.map_reverse, List.mem_reverse] at hm
          have hne : some m ≠ some z.1 := by
            rintro heq
            exact (List.nodup_cons.mp hnd).1 (Option.some.inj heq ▸ hm)
          obtain ⟨y, hy, rfl⟩ := List.mem_map.mp hm
          obtain ⟨c, hc, hval, -, hprev'⟩ :=
            hkeep y.1 (hmem y (List.mem_cons_of_mem z hy)) b hb
          exact ⟨c, hc, hprev'.trans (if_neg hne), hval⟩
        · obtain ⟨b, hb, hval⟩ := hcell z List.mem_cons_self
          obtain ⟨c, hc, hval', -, hprev'⟩ := hkeep z.1 (hmem z List.mem_cons_self) b hb
          exact ⟨c, hc, hprev'.trans (if_pos rfl), hval'.trans hval⟩
    exact .cons hn' (hprev.symm ▸ hgoal)

end Ring

end Heap
