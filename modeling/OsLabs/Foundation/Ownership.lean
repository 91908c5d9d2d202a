import OsLabs.Foundation.Heap

/-!
# Who owns the cells of a heap

`h.Owns ns` says that exactly the addresses in `ns` are allocated.  The rules say what an
allocation, a change and a release do to it, so that a program whose data structures account for
every allocated cell leaks none.

`freeAll` is the loop that frees a linked list and reads each link before it frees the cell.  Along
a path to NULL it frees every cell once and no other one (`Path.freeAll_eq`); where several lists
are all that was allocated, nothing is left (`Owns.freeLists`).
-/

namespace Heap

variable {A V : Type*} {h h' : Heap A} {n : ℕ} {a : A} {ns ns' : List ℕ} {next : A → Option ℕ}
  {val : A → V} {start : Option ℕ} {l : List (ℕ × V)}

/-- Exactly the addresses of the list are allocated. -/
def Owns (h : Heap A) (ns : List ℕ) : Prop := ∀ n, (h.cell n).isSome = true ↔ n ∈ ns

/-- In an empty heap nothing is allocated. -/
lemma owns_empty : (empty : Heap A).Owns [] := by
  intro n
  exact iff_of_false Bool.noConfusion List.not_mem_nil

/-- The order does not matter. -/
lemma Owns.congr (hown : h.Owns ns) (hmem : ∀ n, n ∈ ns' ↔ n ∈ ns) : h.Owns ns' := by
  intro n
  rw [hown n, hmem n]

/-- A change of contents allocates nothing. -/
lemma Owns.keep (hown : h.Owns ns) (hkeep : ∀ n, (h'.cell n).isSome = (h.cell n).isSome) :
    h'.Owns ns := by
  intro n
  rw [hkeep n, hown n]

/-- Changing a cell that is allocated. -/
lemma Owns.set_some (hown : h.Owns ns) {b : A} (hc : h.cell n = some b) :
    (h.set n (some a)).Owns ns := by
  apply hown.keep
  intro m
  rcases eq_or_ne m n with rfl | hne
  · rw [cell_set_self, hc]
    rfl
  · rw [cell_set_of_ne hne]

/-- Changing through a pointer. -/
lemma Owns.modify (hown : h.Owns ns) {p : Option ℕ} {f : A → A} (hmod : h.modify p f = some h') :
    h'.Owns ns := by
  cases p with
  | none => cases hmod
  | some n =>
    obtain ⟨b, hb, rfl⟩ := Option.map_eq_some_iff.mp hmod
    exact hown.set_some hb

/-- An allocation. -/
lemma Owns.alloc (hown : h.Owns ns) (hal : h.alloc n a = some h') : h'.Owns (n :: ns) := by
  obtain ⟨-, hcell⟩ := alloc_eq_some hal
  intro m
  rw [hcell, List.mem_cons]
  rcases eq_or_ne m n with rfl | hne
  · rw [Function.update_self]
    exact iff_of_true rfl (Or.inl rfl)
  · rw [Function.update_of_ne hne, hown m]
    exact (or_iff_right hne).symm

/-- The release of a cell. -/
lemma Owns.set_none (hown : h.Owns ns) (hmem : ∀ m, m ∈ ns' ↔ m ∈ ns ∧ m ≠ n) :
    (h.set n none).Owns ns' := by
  intro m
  rw [hmem m]
  rcases eq_or_ne m n with rfl | hne
  · rw [cell_set_self]
    exact iff_of_false Bool.noConfusion fun hm => hm.2 rfl
  · rw [cell_set_of_ne hne, hown m]
    exact (and_iff_left hne).symm

/-- The release of a cell through a pointer. -/
lemma Owns.free (hown : h.Owns ns) (hfree : h.free (some n) = some h')
    (hmem : ∀ m, m ∈ ns' ↔ m ∈ ns ∧ m ≠ n) : h'.Owns ns' := by
  obtain ⟨b, -, rfl⟩ := Option.map_eq_some_iff.mp hfree
  exact hown.set_none hmem

/-- A path to NULL with as many cells as are allocated passes all of them. -/
lemma Owns.of_path (hown : h.Owns ns) (hp : Path h next val start l none)
    (hlen : ns.length ≤ l.length) : h.Owns (l.map Prod.fst) := by
  have hsub : l.map Prod.fst ⊆ ns := by
    intro n hn
    obtain ⟨x, hx, rfl⟩ := List.mem_map.mp hn
    obtain ⟨a, ha, -⟩ := hp.exists_cell hx
    exact (hown x.1).mp (Option.isSome_iff_exists.mpr ⟨a, ha⟩)
  have hperm : (l.map Prod.fst).Perm ns := by
    apply (hp.nodup.subperm hsub).perm_of_length_le
    rw [List.length_map]
    exact hlen
  exact hown.congr fun _ => hperm.mem_iff

/-! ## The release of a list -/

/-- Frees every cell from a pointer on, in at most `fuel` rounds; `none` for a bad pointer. -/
def freeAll (next : A → Option ℕ) : ℕ → Heap A → Option ℕ → Option (Heap A)
  | _, h, none => some h
  | 0, _, some _ => none
  | fuel + 1, h, some n => do
    let a ← h.cell n
    let h' ← h.free (some n)
    freeAll next fuel h' (next a)

/-- Along a path to NULL the loop frees every cell once, and no other one. -/
lemma Path.freeAll_eq (hp : Path h next val start l none) {fuel : ℕ} (hfuel : l.length ≤ fuel) :
    ∃ h', freeAll next fuel h start = some h' ∧
      ∀ n, h'.cell n = if n ∈ l.map Prod.fst then none else h.cell n := by
  induction l generalizing h start fuel with
  | nil =>
    obtain rfl := hp.eq_of_nil
    refine ⟨h, by rw [freeAll], fun n => ?_⟩
    rw [List.map_nil, if_neg List.not_mem_nil]
  | cons x l ih =>
    obtain ⟨fuel, rfl⟩ := Nat.exists_eq_add_one.mpr (Nat.lt_of_lt_of_le (Nat.succ_pos _) hfuel)
    obtain ⟨a, ha, -, hrest⟩ := hp.head
    have hnot : x.1 ∉ l.map Prod.fst := (List.nodup_cons.mp hp.nodup).1
    -- the rest of the path does not notice that the first cell is freed
    obtain ⟨h', hloop, hcell⟩ :=
      ih (hrest.set_of_notMem hnot none) (Nat.le_of_succ_le_succ hfuel)
    refine ⟨h', ?_, ?_⟩
    · rw [hp.start_eq, freeAll, ha, Option.bind_eq_bind, Option.bind_some, free_of_cell ha]
      exact hloop
    · intro n
      rw [hcell n, List.map_cons]
      rcases eq_or_ne n x.1 with rfl | hne
      · rw [if_neg hnot, if_pos List.mem_cons_self, cell_set_self]
      · rw [cell_set_of_ne hne]
        apply if_congr _ rfl rfl
        rw [List.mem_cons]
        exact (or_iff_right hne).symm

/-- What belongs to others stays as it is. -/
lemma Owns.freeAll (hown : h.Owns (l.map Prod.fst ++ ns)) (hp : Path h next val start l none)
    (hapart : ∀ n ∈ l.map Prod.fst, n ∉ ns) {fuel : ℕ} (hfuel : l.length ≤ fuel) :
    ∃ h', Heap.freeAll next fuel h start = some h' ∧ h'.Owns ns ∧
      ∀ n, n ∉ l.map Prod.fst → h'.cell n = h.cell n := by
  obtain ⟨h', hfree, hcell⟩ := hp.freeAll_eq hfuel
  refine ⟨h', hfree, fun n => ?_, fun n hn => by rw [hcell n, if_neg hn]⟩
  rw [hcell n]
  by_cases hn : n ∈ l.map Prod.fst
  · rw [if_pos hn]
    exact iff_of_false Bool.noConfusion (hapart n hn)
  · rw [if_neg hn, hown n, List.mem_append]
    exact or_iff_right hn

/-- Several lists that have no cell in common are freed one after the other, and nothing is left. -/
lemma Owns.freeLists {ι : Type*} {starts : ι → Option ℕ} {lists : ι → List (ℕ × V)} {fuel : ℕ}
    {is : List ι} (hown : h.Owns (is.flatMap fun i => (lists i).map Prod.fst))
    (hpaths : ∀ i ∈ is, Path h next val (starts i) (lists i) none)
    (hapart : is.Pairwise fun i j => ∀ n ∈ (lists i).map Prod.fst, n ∉ (lists j).map Prod.fst)
    (hfuel : ∀ i ∈ is, (lists i).length ≤ fuel) :
    ∃ h', is.foldlM (fun h i => Heap.freeAll next fuel h (starts i)) h = some h' ∧ h'.Owns [] := by
  induction is generalizing h with
  | nil => exact ⟨h, rfl, hown⟩
  | cons i is ih =>
    obtain ⟨hfirst, hrest⟩ := List.pairwise_cons.mp hapart
    have hnot : ∀ n ∈ (lists i).map Prod.fst, n ∉ is.flatMap fun j => (lists j).map Prod.fst := by
      intro n hn hmem
      obtain ⟨j, hj, hnj⟩ := List.mem_flatMap.mp hmem
      exact hfirst j hj n hn hnj
    obtain ⟨h₁, hfree, hown₁, hkeep⟩ :=
      hown.freeAll (hpaths i List.mem_cons_self) hnot (hfuel i List.mem_cons_self)
    -- the other lists have no cell of the first one
    have hpaths₁ : ∀ j ∈ is, Path h₁ next val (starts j) (lists j) none := by
      intro j hj
      apply (hpaths j (List.mem_cons_of_mem i hj)).congr
      intro n hn a ha
      refine ⟨a, ?_, rfl, rfl⟩
      rw [hkeep n fun hni => hfirst j hj n hni hn, ha]
    obtain ⟨h', hloop, hnone⟩ :=
      ih hown₁ hpaths₁ hrest fun j hj => hfuel j (List.mem_cons_of_mem i hj)
    refine ⟨h', ?_, hnone⟩
    rw [List.foldlM_cons, hfree]
    exact hloop

end Heap
