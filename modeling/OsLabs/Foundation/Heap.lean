import Mathlib.Data.List.Nodup
import Mathlib.Data.List.Range
import Mathlib.Data.List.Perm.Subperm
import Mathlib.Data.Nat.Notation
import Mathlib.Logic.Function.Basic
import Mathlib.Tactic.SplitIfs

/-!
# A heap of cells and the linked lists in it

The cells of one record type are found at addresses, which are numbers; a pointer is an address or
`none` for NULL.  A cell is allocated or not: reading or changing through NULL or through a pointer
to a cell that is not allocated is no defined behaviour, and the operations answer `none`.  `alloc`
takes the address that the allocator answers, which is any address not in use, so an address may be
used again after it was freed.

`Path h next val start l stop`: following the field `next` from the pointer `start` passes the
addresses in `l`, whose cells have the contents given there, and arrives at `stop`.  The rules say
which changes of the heap a path survives (`Path.congr`), how paths are cut and put together
(`Path.append`, `Path.split`), that a path to NULL passes no address twice and is not longer than
the heap (`Path.nodup`, `Path.length_le`), and what a changed link does (`Path.redirect`,
`Path.relink`, `Path.remove`).
-/

/-- Cells at the addresses `0, 1, …`, some of them allocated. -/
structure Heap (A : Type*) where
  /-- The allocated cells at their addresses. -/
  cells : List (Option A)

namespace Heap

variable {A V : Type*} {h h' : Heap A} {n m : ℕ} {p : Option ℕ} {a : A}

/-- The heap with no allocated cell. -/
def empty : Heap A := ⟨[]⟩

/-- The allocated cell at an address. -/
def cell (h : Heap A) (n : ℕ) : Option A := h.cells[n]?.join

/-- Reads the cell that a pointer points to. -/
def load (h : Heap A) (p : Option ℕ) : Option A := p.bind h.cell

/-- Sets what is found at an address. -/
def set (h : Heap A) (n : ℕ) (c : Option A) : Heap A :=
  ⟨(h.cells ++ List.replicate (n + 1 - h.cells.length) none).set n c⟩

/-- Allocates a cell at the address the allocator answers, which must not be in use. -/
def alloc (h : Heap A) (n : ℕ) (a : A) : Option (Heap A) :=
  if (h.cell n).isNone then some (h.set n (some a)) else none

/-- Changes the cell that a pointer points to. -/
def modify (h : Heap A) (p : Option ℕ) (f : A → A) : Option (Heap A) :=
  match p with
  | none => none
  | some n => (h.cell n).map fun a => h.set n (some (f a))

/-- Frees the cell that a pointer points to; nothing happens for NULL. -/
def free (h : Heap A) (p : Option ℕ) : Option (Heap A) :=
  match p with
  | none => some h
  | some n => (h.cell n).map fun _ => h.set n none

/-- A pointer that is not `NULL` is its address. -/
@[simp] lemma load_some (h : Heap A) (n : ℕ) : h.load (some n) = h.cell n := rfl

/-- Setting an address changes what is found there and nothing else. -/
@[simp] lemma cell_set (h : Heap A) (n : ℕ) (c : Option A) :
    (h.set n c).cell = Function.update h.cell n c := by
  funext m
  unfold cell set
  rcases eq_or_ne m n with rfl | hne
  · rw [Function.update_self, List.getElem?_set_self (by simp; omega), Option.join_some]
  · rw [Function.update_of_ne hne, List.getElem?_set_ne (Ne.symm hne)]
    rcases lt_or_ge m h.cells.length with hlt | hge
    · rw [List.getElem?_append_left hlt]
    · rw [List.getElem?_append_right hge, List.getElem?_eq_none hge, List.getElem?_replicate]
      split_ifs <;> rfl

/-- The address that was set. -/
lemma cell_set_self (h : Heap A) (n : ℕ) (c : Option A) : (h.set n c).cell n = c := by
  rw [cell_set, Function.update_self]

/-- The other addresses. -/
lemma cell_set_of_ne (hne : m ≠ n) (h : Heap A) (c : Option A) :
    (h.set n c).cell m = h.cell m := by
  rw [cell_set, Function.update_of_ne hne]

/-- A cell in use is not a free one. -/
lemma ne_of_cell (hm : h.cell m = some a) (hn : h.cell n = none) : m ≠ n := by
  rintro rfl
  rw [hm] at hn
  cases hn

/-- An allocation needs a free address and puts the cell there. -/
lemma alloc_eq_some (hal : h.alloc n a = some h') :
    h.cell n = none ∧ h'.cell = Function.update h.cell n (some a) := by
  unfold alloc at hal
  split_ifs at hal with hnone
  exact ⟨Option.isNone_iff_eq_none.mp hnone, by rw [← Option.some.inj hal, cell_set]⟩

/-- Every free address may be allocated. -/
lemma alloc_of_free (hfree : h.cell n = none) (a : A) : h.alloc n a = some (h.set n (some a)) := by
  rw [alloc, hfree]
  rfl

/-- Changing an allocated cell works. -/
lemma modify_of_cell (hc : h.cell n = some a) (f : A → A) :
    h.modify (some n) f = some (h.set n (some (f a))) := by
  rw [modify, hc, Option.map_some]

/-- Freeing an allocated cell works. -/
lemma free_of_cell (hc : h.cell n = some a) : h.free (some n) = some (h.set n none) := by
  rw [free, hc, Option.map_some]

/-- Changing an allocated cell changes that cell and nothing else. -/
lemma exists_modify (hc : h.cell n = some a) (f : A → A) :
    ∃ h', h.modify (some n) f = some h' ∧
      (∀ m b, h.cell m = some b → h'.cell m = some (if m = n then f b else b)) ∧
      ∀ m, h.cell m = none → h'.cell m = none := by
  refine ⟨_, modify_of_cell hc f, fun m b hb => ?_, fun m hm => ?_⟩
  · by_cases heq : m = n
    · subst heq
      obtain rfl := Option.some.inj (hc.symm.trans hb)
      rw [cell_set_self, if_pos rfl]
    · rw [cell_set_of_ne heq, if_neg heq, hb]
  · rw [cell_set_of_ne (ne_of_cell hc hm).symm, hm]

/-- A cell that was freed, like all that were free before, is not allocated. -/
lemma cell_set_none (h : Heap A) {m : ℕ} (hm : h.cell m = none ∨ m = n) :
    (h.set n none).cell m = none := by
  by_cases heq : m = n
  · rw [heq, cell_set_self]
  · rw [cell_set_of_ne heq]
    exact hm.resolve_right heq

/-- Beyond the last address nothing is allocated. -/
lemma lt_length_of_cell (hc : h.cell n = some a) : n < h.cells.length := by
  by_contra hge
  rw [cell, List.getElem?_eq_none (Nat.not_lt.mp hge), Option.join_none] at hc
  cases hc

/-- Some address is not in use. -/
lemma exists_free (h : Heap A) : ∃ n, h.cell n = none :=
  ⟨h.cells.length, by rw [cell, List.getElem?_eq_none (Nat.le_refl _), Option.join_none]⟩

/-! ## Paths -/

/-- Where no address occurs twice, the address of an entry is not among the others. -/
lemma nodup_map_middle {α β : Type*} {f : α → β} {l l' : List α} {x : α}
    (h : ((l ++ x :: l').map f).Nodup) : f x ∉ (l ++ l').map f ∧ ((l ++ l').map f).Nodup := by
  rwa [List.map_append, List.map_cons, List.nodup_middle, List.nodup_cons, ← List.map_append] at h

/-- Following `next` from `start` passes the addresses in the list, with their contents, and arrives
at `stop`. -/
inductive Path (h : Heap A) (next : A → Option ℕ) (val : A → V) :
    Option ℕ → List (ℕ × V) → Option ℕ → Prop
  | nil (p : Option ℕ) : Path h next val p [] p
  | cons {n : ℕ} {a : A} {l : List (ℕ × V)} {stop : Option ℕ} : h.cell n = some a →
      Path h next val (next a) l stop → Path h next val (some n) ((n, val a) :: l) stop

namespace Path

variable {next : A → Option ℕ} {val : A → V} {start mid stop : Option ℕ} {l l' : List (ℕ × V)}
  {x : ℕ × V}

/-- A path survives a change that keeps the link and the contents of each cell on it. -/
lemma congr (hp : Path h next val start l stop)
    (hkeep : ∀ n ∈ l.map Prod.fst, ∀ a, h.cell n = some a →
      ∃ b, h'.cell n = some b ∧ next b = next a ∧ val b = val a) :
    Path h' next val start l stop := by
  induction hp with
  | nil p => exact .nil p
  | @cons n a l stop hc _ ih =>
    obtain ⟨b, hb, hnext, hval⟩ := hkeep n (by simp) a hc
    have hrest := ih fun m hm => hkeep m (by simp [hm])
    exact hval ▸ .cons hb (hnext ▸ hrest)

/-- A path survives a change of an address that is not on it. -/
lemma set_of_notMem (hp : Path h next val start l stop) (hn : n ∉ l.map Prod.fst)
    (c : Option A) : Path (h.set n c) next val start l stop := by
  refine hp.congr fun m hm a ha => ⟨a, ?_, rfl, rfl⟩
  have hne : m ≠ n := fun heq => hn (heq ▸ hm)
  rw [cell_set_of_ne hne, ha]

/-- The empty path ends where it starts. -/
lemma eq_of_nil (hp : Path h next val start [] stop) : start = stop := by
  cases hp; rfl

/-- A path that is not empty starts at its first address. -/
lemma start_eq (hp : Path h next val start (x :: l) stop) : start = some x.1 := by
  cases hp; rfl

/-- The same with the first address read from the list. -/
lemma start_eq_head? (hp : Path h next val start l stop) (hl : l ≠ []) :
    start = l.head?.map Prod.fst := by
  cases hp with
  | nil => exact absurd rfl hl
  | cons => rfl

/-- A path to NULL starts at its first address, or is empty. -/
lemma start_eq_of_null (hp : Path h next val start l none) : start = l.head?.map Prod.fst := by
  cases hp with
  | nil => rfl
  | cons => rfl

/-- The first cell of a path is allocated, has the contents given there, and leads to the rest. -/
lemma head (hp : Path h next val start (x :: l) stop) :
    ∃ a, h.cell x.1 = some a ∧ val a = x.2 ∧ Path h next val (next a) l stop := by
  cases hp with
  | cons hc hrest => exact ⟨_, hc, rfl, hrest⟩

/-- Paths are put together. -/
lemma append (hp : Path h next val start l mid) (hp' : Path h next val mid l' stop) :
    Path h next val start (l ++ l') stop := by
  induction hp with
  | nil p => exact hp'
  | cons hc _ ih => exact .cons hc (ih hp')

/-- A path is cut at any place. -/
lemma split (hp : Path h next val start (l ++ l') stop) :
    ∃ mid, Path h next val start l mid ∧ Path h next val mid l' stop := by
  induction l generalizing start with
  | nil => exact ⟨start, .nil start, hp⟩
  | cons x l ih =>
    cases hp with
    | cons hc hrest =>
      obtain ⟨mid, hl, hl'⟩ := ih hrest
      exact ⟨mid, .cons hc hl, hl'⟩

/-- Where the path goes is determined by its start. -/
lemma unique (hp : Path h next val start l none) (hp' : Path h next val start l' none) :
    l = l' := by
  induction l generalizing start l' with
  | nil =>
    obtain rfl := hp.eq_of_nil
    cases hp'
    rfl
  | cons x l ih =>
    cases hp with
    | cons hc hrest =>
      cases hp' with
      | cons hc' hrest' =>
        obtain rfl := Option.some.inj (hc.symm.trans hc')
        rw [ih hrest hrest']

/-- Every address on a path is allocated, with the contents given there. -/
lemma exists_cell (hp : Path h next val start l stop) (hx : x ∈ l) :
    ∃ a, h.cell x.1 = some a ∧ val a = x.2 := by
  obtain ⟨l₁, l₂, rfl⟩ := List.append_of_mem hx
  obtain ⟨mid, -, hp₂⟩ := hp.split
  obtain ⟨a, ha, hval, -⟩ := hp₂.head
  exact ⟨a, ha, hval⟩

/-- The link of the last cell on a path is where the path arrives. -/
lemma last (hp : Path h next val start (l ++ [x]) stop) :
    ∃ a, h.cell x.1 = some a ∧ next a = stop ∧ val a = x.2 := by
  obtain ⟨mid, -, hlast⟩ := hp.split
  obtain ⟨a, ha, hval, hrest⟩ := hlast.head
  exact ⟨a, ha, hrest.eq_of_nil, hval⟩

/-- An address that is not in use is on no path. -/
lemma notMem_of_cell (hp : Path h next val start l stop) (hn : h.cell n = none) :
    n ∉ l.map Prod.fst := by
  intro hmem
  obtain ⟨x, hx, rfl⟩ := List.mem_map.mp hmem
  obtain ⟨a, ha, -⟩ := hp.exists_cell hx
  rw [hn] at ha
  cases ha

/-- A path to NULL passes no address twice. -/
lemma nodup (hp : Path h next val start l none) : (l.map Prod.fst).Nodup := by
  induction l generalizing start with
  | nil => exact List.nodup_nil
  | cons x l ih =>
    obtain ⟨a, ha, -, hrest⟩ := hp.head
    refine List.nodup_cons.mpr ⟨fun hmem => ?_, ih hrest⟩
    -- a second visit would start the whole path again
    obtain ⟨y, hy, heq⟩ := List.mem_map.mp hmem
    obtain ⟨l₁, l₂, rfl⟩ := List.append_of_mem hy
    obtain ⟨mid, -, hp₂⟩ := hrest.split
    rw [hp.start_eq, ← heq, ← hp₂.start_eq] at hp
    have hlen := congrArg List.length (hp.unique hp₂)
    simp at hlen
    omega

/-- A path to NULL is not longer than the heap. -/
lemma length_le (hp : Path h next val start l none) : l.length ≤ h.cells.length := by
  have hsub : l.map Prod.fst ⊆ List.range h.cells.length := by
    intro n hn
    obtain ⟨x, hx, rfl⟩ := List.mem_map.mp hn
    obtain ⟨a, ha, -⟩ := hp.exists_cell hx
    exact List.mem_range.mpr (lt_length_of_cell ha)
  have hle := (hp.nodup.subperm hsub).length_le
  rwa [List.length_map, List.length_range] at hle

/-- When the link of the last cell of a path was changed, the path leads to the new target. -/
lemma redirect {stop' : Option ℕ} (hp : Path h next val start (l ++ [x]) stop)
    (hkeep : ∀ n ∈ l.map Prod.fst, ∀ a, h.cell n = some a →
      ∃ b, h'.cell n = some b ∧ next b = next a ∧ val b = val a)
    (hx : ∃ b, h'.cell x.1 = some b ∧ next b = stop' ∧ val b = x.2) :
    Path h' next val start (l ++ [x]) stop' := by
  obtain ⟨mid, hl, hlast⟩ := hp.split
  obtain ⟨b, hb, hnext, hval⟩ := hx
  refine (hl.congr hkeep).append ?_
  rw [hlast.start_eq]
  obtain ⟨n, v⟩ := x
  exact (show val b = v from hval) ▸ .cons hb (hnext ▸ .nil _)

/-- After the link of the last cell of a path was changed, the path leads to the new target. -/
lemma relink (hp : Path h next val start (l ++ [x]) stop) (hnd : x.1 ∉ l.map Prod.fst) {b : A}
    (hval : val b = x.2) : Path (h.set x.1 (some b)) next val start (l ++ [x]) (next b) := by
  refine hp.redirect (fun m hm a ha => ⟨a, ?_, rfl, rfl⟩) ⟨b, ?_, rfl, hval⟩
  · have hne : m ≠ x.1 := fun heq => hnd (heq ▸ hm)
    rw [cell_set_of_ne hne, ha]
  · rw [cell_set_self]

/-- A cell is left out of a path: the cell before it leads where it has led, or the path starts
there. -/
lemma remove {c : A} (hp : Path h next val start (l ++ x :: l') stop)
    (hnd : ((l ++ l').map Prod.fst).Nodup) (hx : h.cell x.1 = some c)
    (hkeep : ∀ m ∈ (l ++ l').map Prod.fst, ∀ b, h.cell m = some b →
      ∃ d, h'.cell m = some d ∧ val d = val b ∧
        next d = if some m = l.getLast?.map Prod.fst then next c else next b) :
    Path h' next val (if l = [] then next c else start) (l ++ l') stop := by
  obtain ⟨mid, hfront, hback⟩ := hp.split
  obtain ⟨c', hc', -, hrest⟩ := hback.head
  obtain rfl := Option.some.inj (hx.symm.trans hc')
  rw [List.map_append, List.nodup_append] at hnd
  have hrest' : Path h' next val (next c) l' stop := by
    refine hrest.congr fun m hm b hb => ?_
    obtain ⟨d, hd, hval, hnext⟩ := hkeep m (by simp [hm]) b hb
    refine ⟨d, hd, hnext.trans (if_neg fun heq => ?_), hval⟩
    obtain ⟨y, hy, hym⟩ := Option.map_eq_some_iff.mp heq.symm
    exact hnd.2.2 y.1 (List.mem_map_of_mem (List.mem_of_getLast? hy)) m hm hym
  rcases l.eq_nil_or_concat' with rfl | ⟨l, y, rfl⟩
  · exact hrest'
  · rw [if_neg (by simp)]
    rw [List.map_append, List.nodup_append] at hnd
    obtain ⟨⟨-, -, hapart⟩, -⟩ := hnd
    refine Path.append (hfront.redirect (fun m hm b hb => ?_) ?_) hrest'
    · obtain ⟨d, hd, hval, hnext⟩ := hkeep m (by simp [hm]) b hb
      refine ⟨d, hd, hnext.trans (if_neg fun heq => ?_), hval⟩
      rw [List.getLast?_concat, Option.map_some, Option.some.injEq] at heq
      exact hapart m hm y.1 (by simp) heq
    · obtain ⟨b, hb, -, hval⟩ := hfront.last
      obtain ⟨d, hd, hval', hnext⟩ := hkeep y.1 (by simp) b hb
      refine ⟨d, hd, hnext.trans (if_pos ?_), hval'.trans hval⟩
      rw [List.getLast?_concat, Option.map_some]

/-- A cell behind another one is taken out of a path and freed, after the link before it was changed
to lead past it. -/
lemma unlink {y : ℕ × V} {b c : A} (hp : Path h next val start (l ++ [y] ++ x :: l') none)
    (hx : h.cell x.1 = some c) (hval : val b = y.2) (hnext : next b = next c) :
    Path ((h.set y.1 (some b)).set x.1 none) next val start (l ++ [y] ++ l') none := by
  obtain ⟨hnot, hnd⟩ := nodup_map_middle hp.nodup
  have hkeep : ∀ m ∈ (l ++ [y] ++ l').map Prod.fst, ∀ d, h.cell m = some d →
      ∃ d', ((h.set y.1 (some b)).set x.1 none).cell m = some d' ∧ val d' = val d ∧
        next d' = if some m = (l ++ [y]).getLast?.map Prod.fst then next c else next d := by
    intro m hm d hd
    have hmx : m ≠ x.1 := fun heq => hnot (heq ▸ hm)
    rw [cell_set_of_ne hmx, List.getLast?_concat, Option.map_some]
    by_cases hmy : m = y.1
    · obtain ⟨d', hd', hval'⟩ := hp.exists_cell (x := y) (by simp)
      obtain rfl := Option.some.inj (hd'.symm.trans (hmy ▸ hd))
      refine ⟨b, by rw [hmy, cell_set_self], hval.trans hval'.symm, ?_⟩
      rw [if_pos (congrArg some hmy), hnext]
    · refine ⟨d, by rw [cell_set_of_ne hmy, hd], rfl, ?_⟩
      rw [if_neg fun heq => hmy (Option.some.inj heq)]
  have hpath := hp.remove hnd hx hkeep
  rwa [if_neg (by simp)] at hpath

end Path

end Heap
