import OsLabs.Foundation.Transition
import OsLabs.SwapList.Routine

/-!
# What one step of a thread does

`Goes` lists the steps of both routines: from a position, with an access and its answer, to the next
position.  The rules of the file say what a step does to the nodes that the thread holds, and that
an access changes nothing else.
-/

namespace OsLabs.SwapList

open Transition LinkedList

variable {N : Type*} {kind : LockKind} {first : N} {r : Routine} {pc pc' : Pc N} {op : Op N}
  {a : Answer N}

/-- The steps of the routines. -/
inductive Goes (kind : LockKind) (first : N) (a : Answer N) :
    Routine → Pc N → Op N → Pc N → Prop
  | stop {r : Routine} : Goes kind first a r .loop .readStop .exited
  | begin {r : Routine} : Goes kind first a r .loop .readStop .lockFirst
  | lockFirst {r : Routine} :
      Goes kind first a r .lockFirst (.lock (r.mode kind) first) (.test first)
  | moreCompare {type : CompareType} {prev : N} (hnext : a.next.isSome = true) :
      Goes kind first a (.compare type) (.test prev) (.readNext prev) (.readCur prev false)
  | moreSwap {prev : N} (hnext : a.next.isSome = true) :
      Goes kind first a .swap (.test prev) (.readNext prev) (.needsSwap prev)
  | last {r : Routine} {prev : N} (hnext : a.next = none) :
      Goes kind first a r (.test prev) (.readNext prev) (.unlockLast prev)
  | choose {prev : N} {swapping : Bool} :
      Goes kind first a .swap (.needsSwap prev) .internal (.readCur prev swapping)
  | null {r : Routine} {prev : N} {swapping : Bool} (hnext : a.next = none) :
      Goes kind first a r (.readCur prev swapping) (.readNext prev) (.fault prev)
  | cur {r : Routine} {prev cur : N} {swapping swapping' : Bool} (hnext : a.next = some cur) :
      Goes kind first a r (.readCur prev swapping) (.readNext prev) (.lockCur prev cur swapping')
  | lockCur {r : Routine} {prev cur : N} {swapping : Bool} :
      Goes kind first a r (.lockCur prev cur swapping) (.lock (r.mode kind) cur)
        (.unlockPrev prev cur)
  | lockSwap {prev cur : N} {swapping : Bool} :
      Goes kind first a .swap (.lockCur prev cur swapping) (.lock kind.writeLock cur)
        (.readNext prev cur)
  | unlockCompare {type : CompareType} {prev cur : N} :
      Goes kind first a (.compare type) (.unlockPrev prev cur) (.unlock prev) (.compare cur)
  | unlockPrev {prev cur : N} :
      Goes kind first a .swap (.unlockPrev prev cur) (.unlock prev) (.test cur)
  | compare {type : CompareType} {cur : N} :
      Goes kind first a (.compare type) (.compare cur) .internal (.test cur)
  | noNext {prev cur : N} (hnext : a.next = none) :
      Goes kind first a .swap (.readNext prev cur) (.readNext cur) (.unlockSwap prev cur)
  | next {prev cur next : N} (hnext : a.next = some next) :
      Goes kind first a .swap (.readNext prev cur) (.readNext cur) (.lockNext prev cur next)
  | unlockSwap {prev cur : N} :
      Goes kind first a .swap (.unlockSwap prev cur) (.unlock cur) (.unlockLast prev)
  | lockNext {prev cur next : N} :
      Goes kind first a .swap (.lockNext prev cur next) (.lock kind.writeLock next)
        (.writePrev prev cur next)
  | writePrev {prev cur next : N} :
      Goes kind first a .swap (.writePrev prev cur next) (.writeNext prev (some next))
        (.releasePrev prev cur next)
  | releasePrev {prev cur next : N} :
      Goes kind first a .swap (.releasePrev prev cur next) (.unlock prev) (.readTail cur next)
  | readTail {cur next : N} :
      Goes kind first a .swap (.readTail cur next) (.readNext next) (.writeCur cur next a.next)
  | writeCur {cur next : N} {tail : Option N} :
      Goes kind first a .swap (.writeCur cur next tail) (.writeNext cur tail)
        (.releaseCur cur next)
  | releaseCur {cur next : N} :
      Goes kind first a .swap (.releaseCur cur next) (.unlock cur) (.writeNext cur next)
  | writeNext {cur next : N} :
      Goes kind first a .swap (.writeNext cur next) (.writeNext next (some cur)) (.test next)
  | unlockLast {r : Routine} {prev : N} :
      Goes kind first a r (.unlockLast prev) (.unlock prev) .count
  | count {r : Routine} : Goes kind first a r .count .internal .loop

/-- Every step of `__compare_routine` is one of these. -/
lemma goes_of_compareRoutine {type : CompareType} {f : Answer N → Pc N}
    (h : compareRoutine kind first pc = some (op, f)) :
    Goes kind first a (.compare type) pc op (f a) := by
  cases pc with
  | loop =>
    cases h
    cases hflag : a.flag
    · simp only [hflag]; exact .begin
    · simp only [hflag]; exact .stop
  | test prev =>
    cases h
    cases hnext : a.next
    · simp only [hnext]; exact .last hnext
    · simp only [hnext]; exact .moreCompare (by rw [hnext]; rfl)
  | readCur prev swapping =>
    cases h
    cases hnext : a.next
    · simp only [hnext]; exact .null hnext
    · simp only [hnext]; exact .cur hnext
  | lockFirst => cases h; exact .lockFirst
  | lockCur prev cur swapping => cases h; exact .lockCur
  | unlockPrev prev cur => cases h; exact .unlockCompare
  | compare cur => cases h; exact .compare
  | unlockLast prev => cases h; exact .unlockLast
  | count => cases h; exact .count
  | _ => cases h

/-- Every step of `swap_routine` is one of these. -/
lemma goes_of_swapRoutine {f : Answer N → Pc N}
    (h : swapRoutine kind first pc = some (op, f)) : Goes kind first a .swap pc op (f a) := by
  cases pc with
  | loop =>
    cases h
    cases hflag : a.flag
    · simp only [hflag]; exact .begin
    · simp only [hflag]; exact .stop
  | test prev =>
    cases h
    cases hnext : a.next
    · simp only [hnext]; exact .last hnext
    · simp only [hnext]; exact .moreSwap (by rw [hnext]; rfl)
  | readCur prev swapping =>
    cases h
    cases hnext : a.next
    · simp only [hnext]; exact .null hnext
    · simp only [hnext]; exact .cur hnext
  | lockCur prev cur swapping =>
    cases h
    cases swapping
    · exact .lockCur
    · exact .lockSwap
  | readNext prev cur =>
    cases h
    cases hnext : a.next
    · simp only [hnext]; exact .noNext hnext
    · simp only [hnext]; exact .next hnext
  | lockFirst => cases h; exact .lockFirst
  | needsSwap prev => cases h; exact .choose
  | unlockPrev prev cur => cases h; exact .unlockPrev
  | unlockSwap prev cur => cases h; exact .unlockSwap
  | lockNext prev cur next => cases h; exact .lockNext
  | writePrev prev cur next => cases h; exact .writePrev
  | releasePrev prev cur next => cases h; exact .releasePrev
  | readTail cur next => cases h; exact .readTail
  | writeCur cur next tail => cases h; exact .writeCur
  | releaseCur cur next => cases h; exact .releaseCur
  | writeNext cur next => cases h; exact .writeNext
  | unlockLast prev => cases h; exact .unlockLast
  | count => cases h; exact .count
  | _ => cases h

/-- Every step of a routine is one of these. -/
lemma goes_of_program {f : Answer N → Pc N} (h : r.program kind first pc = some (op, f)) :
    Goes kind first a r pc op (f a) := by
  cases r with
  | compare type => exact goes_of_compareRoutine h
  | swap => exact goes_of_swapRoutine h

/-! ## The nodes that a thread holds -/

/-- The nodes whose locks the thread holds. -/
def Pc.held : Pc N → List N
  | .loop | .lockFirst | .count | .exited => []
  | .test prev | .needsSwap prev | .readCur prev _ | .lockCur prev _ _ | .unlockLast prev
  | .fault prev => [prev]
  | .compare cur => [cur]
  | .unlockPrev prev cur | .readNext prev cur | .unlockSwap prev cur | .lockNext prev cur _ =>
    [prev, cur]
  | .writePrev prev cur next | .releasePrev prev cur next => [prev, cur, next]
  | .readTail cur next | .writeCur cur next _ | .releaseCur cur next => [cur, next]
  | .writeNext _ next => [next]

/-- The nodes whose `next` pointers the swap in progress of the thread has still to write. -/
def Pc.unwritten : Pc N → List N
  | .releasePrev _ cur next | .readTail cur next | .writeCur cur next _ => [cur, next]
  | .releaseCur _ next | .writeNext _ next => [next]
  | _ => []

/-- The thread writes to nodes that it holds only. -/
lemma Pc.held_of_unwritten {x : N} (h : x ∈ pc.unwritten) : x ∈ pc.held := by
  cases pc <;> simp_all [Pc.unwritten, Pc.held]

/-- After a lock call the thread holds one more node. -/
lemma Goes.held_lock {mode : LockMode} {x : N} (h : Goes kind first a r pc (.lock mode x) pc') :
    mode = r.mode kind ∧ ∀ y, y ∈ pc'.held ↔ y = x ∨ y ∈ pc.held := by
  cases h <;> exact ⟨rfl, fun y => by grind [Pc.held]⟩

/-- A thread unlocks a node that it holds, and holds it no more. -/
lemma Goes.held_unlock {x : N} (h : Goes kind first a r pc (.unlock x) pc') :
    x ∈ pc.held ∧ (pc.held.Nodup → ∀ y, y ∈ pc'.held ↔ y ≠ x ∧ y ∈ pc.held) := by
  cases h <;> refine ⟨by simp [Pc.held], fun hnodup y => ?_⟩ <;>
    simp only [Pc.held, List.nodup_cons, List.mem_cons, List.not_mem_nil, not_or] at hnodup ⊢ <;>
    grind

/-- Other accesses do not change the nodes that the thread holds. -/
lemma Goes.held_eq (h : Goes kind first a r pc op pc') (hlock : ∀ mode x, op ≠ .lock mode x)
    (hunlock : ∀ x, op ≠ .unlock x) : pc'.held = pc.held := by
  cases h <;> first | rfl | exact absurd rfl (hlock _ _) | exact absurd rfl (hunlock _)

end OsLabs.SwapList
