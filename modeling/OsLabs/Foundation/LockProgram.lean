import OsLabs.Foundation.Mutex
import OsLabs.Foundation.Transition
import Mathlib.Data.List.Defs

/-!
# Programs with mutexes

Any number of threads run one program over a common memory. The program says what a thread does at
a position, with the effect on the mutexes; a thread that locks a mutex waits until nobody holds it,
for ever if it holds it itself.

An `Annotation` lists for each position the mutexes that a thread there holds. If the steps that a
condition allows respect the lists, they say in every run who may hold a mutex
(`Annotation.kept_of_run`), and who does hold it if it is not initialised again
(`Annotation.exact_of_run`). Then no thread locks a mutex that it holds, and a thread at rest holds
none (`Annotation.Kept.disciplined`).
-/

namespace LockProgram

open Transition

/-- What a step does to the mutexes. -/
inductive Effect (M : Type*)
  | nothing
  | lock (m : M)
  | unlock (m : M)
  /-- The mutex is initialised, whatever it was before. -/
  | init (m : M)

variable {T M P σ ε : Type*}

/-- The threads, the memory they share and the holders of the mutexes. -/
structure Threads (T M P σ : Type*) where
  memory : σ
  owner : M → Option T
  position : T → P

/-- The effect of a step of a thread on the holders. -/
def Effect.apply [DecidableEq M] (t : T) (owner : M → Option T) : Effect M → Option (M → Option T)
  | .nothing => some owner
  | .lock m => if (owner m).isNone then some (Function.update owner m (some t)) else none
  | .unlock m | .init m => some (Function.update owner m none)

/-- A step of a thread. -/
def step [DecidableEq T] [DecidableEq M] (program : σ → P → ε → Option (Effect M × σ × P))
    (s : Threads T M P σ) (e : T × ε) : Option (Threads T M P σ) :=
  (program s.memory (s.position e.1) e.2).bind fun (effect, memory, position) =>
    (effect.apply e.1 s.owner).map fun owner =>
      ⟨memory, owner, Function.update s.position e.1 position⟩

/-- No thread is about to lock a mutex that it holds, and a thread at rest holds none. -/
def Disciplined (program : σ → P → ε → Option (Effect M × σ × P)) (rest : P → Prop)
    (s : Threads T M P σ) : Prop :=
  ∀ m t, s.owner m = some t → ¬ rest (s.position t) ∧
    ∀ choice memory position,
      program s.memory (s.position t) choice ≠ some (.lock m, memory, position)

/-- The lists of two positions fit the effect of the step between them, which does not initialise
the mutexes that are `firm`. -/
def Balanced (holds : P → List M) (firm : M → Prop) (p p' : P) : Effect M → Prop
  | .nothing => holds p' = holds p
  | .init m => ¬ firm m ∧ holds p' = holds p
  | .lock m => m ∉ holds p ∧ holds p' = m :: holds p
  | .unlock m => m ∉ holds p' ∧ holds p = m :: holds p'

/-- The mutexes that are held at each position, as far as the allowed steps reach it from the
positions where `clean` holds. -/
structure Annotation (program : σ → P → ε → Option (Effect M × σ × P)) (ok : σ → P → ε → Prop) where
  holds : P → List M
  firm : M → Prop
  clean : P → Prop
  balanced : ∀ {memory p choice effect memory' p'}, clean p → ok memory p choice →
    program memory p choice = some (effect, memory', p') → clean p' ∧
      Balanced holds firm p p' effect
  free : ∀ {memory p choice m memory' p'}, clean p →
    program memory p choice = some (.lock m, memory', p') → m ∉ holds p

variable {ok : σ → P → ε → Prop}

/-- The step is allowed by a condition on what its thread sees. -/
def Allowed (ok : σ → P → ε → Prop) (s : Threads T M P σ) (e : T × ε) : Prop :=
  ok s.memory (s.position e.1) e.2

instance [∀ memory p choice, Decidable (ok memory p choice)] (s : Threads T M P σ) (e : T × ε) :
    Decidable (Allowed ok s e) :=
  inferInstanceAs (Decidable (ok s.memory (s.position e.1) e.2))

section Rules

variable {holds : P → List M} {firm : M → Prop} {p p' : P} {m m' : M} {effect : Effect M}
  {owner owner' : M → Option T} {t u : T}

/-- What is held before a step and not unlocked is held after it. -/
lemma Balanced.mem (h : Balanced holds firm p p' effect) (hm : m ∈ holds p)
    (hunlock : effect ≠ .unlock m) : m ∈ holds p' := by
  cases effect with
  | nothing => exact h ▸ hm
  | init => exact h.2 ▸ hm
  | lock => exact h.2 ▸ List.mem_cons_of_mem _ hm
  | unlock m' =>
    rw [h.2] at hm
    exact (List.mem_cons.mp hm).resolve_left fun heq => hunlock (heq ▸ rfl)

variable [DecidableEq M]

/-- A lock is taken only when nobody holds it. -/
lemma Effect.apply_lock (h : (Effect.lock m).apply t owner = some owner') :
    owner m = none ∧ owner' = Function.update owner m (some t) := by
  rw [Effect.apply] at h
  split_ifs at h with hfree
  exact ⟨Option.isNone_iff_eq_none.mp hfree, (Option.some.inj h).symm⟩

/-- The holder of a mutex after a step has just locked it, or held it before and did not
unlock it. -/
lemma Effect.apply_owner (h : effect.apply t owner = some owner') (hm : owner' m = some u) :
    effect = .lock m ∧ u = t ∨ owner m = some u ∧ effect ≠ .unlock m := by
  cases effect with
  | nothing => exact Or.inr ⟨Option.some.inj h ▸ hm, fun heq => by cases heq⟩
  | lock m' =>
    obtain ⟨-, rfl⟩ := Effect.apply_lock h
    rcases eq_or_ne m m' with rfl | hne
    · rw [Function.update_self] at hm
      exact Or.inl ⟨rfl, (Option.some.inj hm).symm⟩
    · rw [Function.update_of_ne hne] at hm
      exact Or.inr ⟨hm, fun heq => by cases heq⟩
  | unlock m' | init m' =>
    obtain rfl := Option.some.inj h
    rcases eq_or_ne m m' with rfl | hne
    · rw [Function.update_self] at hm
      cases hm
    · rw [Function.update_of_ne hne] at hm
      exact Or.inr ⟨hm, by grind⟩

/-- The parts of a step. -/
lemma exists_of_step [DecidableEq T] {program : σ → P → ε → Option (Effect M × σ × P)}
    {s s' : Threads T M P σ} {e : T × ε} (hstep : step program s e = some s') :
    ∃ effect position,
      program s.memory (s.position e.1) e.2 = some (effect, s'.memory, position) ∧
      effect.apply e.1 s.owner = some s'.owner ∧
      s'.position = Function.update s.position e.1 position := by
  obtain ⟨⟨effect, memory, position⟩, hprogram, hrest⟩ := Option.bind_eq_some_iff.mp hstep
  obtain ⟨owner, howner, rfl⟩ := Option.map_eq_some_iff.mp hrest
  exact ⟨effect, position, hprogram, howner, rfl⟩

end Rules

namespace Annotation

variable {program : σ → P → ε → Option (Effect M × σ × P)}
  {a : Annotation program ok} {s₀ s s' : Threads T M P σ} {e : T × ε} {m : M}

/-- The positions of the threads are clean, and a thread holds nothing but what its position
lists. -/
structure Kept (a : Annotation program ok) (s : Threads T M P σ) : Prop where
  clean : ∀ t, a.clean (s.position t)
  mem : ∀ m t, s.owner m = some t → m ∈ a.holds (s.position t)

/-- Then no thread locks a mutex that it holds. -/
theorem Kept.disciplined {rest : P → Prop} (h : a.Kept s)
    (hrest : ∀ p, rest p → a.holds p = []) : Disciplined program rest s := by
  intro m t howner
  have hmem := h.mem m t howner
  refine ⟨fun ht => ?_, fun choice memory position hlock => a.free (h.clean t) hlock hmem⟩
  rw [hrest _ ht] at hmem
  exact List.not_mem_nil hmem

variable [DecidableEq T] [DecidableEq M]

/-- An allowed step respects the lists. -/
lemma Kept.step (h : a.Kept s) (hok : Allowed ok s e) (hstep : step program s e = some s') :
    a.Kept s' := by
  obtain ⟨effect, p, hprogram, howner, hposition⟩ := exists_of_step hstep
  obtain ⟨hclean, hbalanced⟩ := a.balanced (h.clean e.1) hok hprogram
  constructor
  · intro t
    rw [hposition]
    rcases eq_or_ne t e.1 with rfl | hne
    · rwa [Function.update_self]
    · rw [Function.update_of_ne hne]
      exact h.clean t
  · intro m t hm
    rw [hposition]
    rcases Effect.apply_owner howner hm with ⟨rfl, rfl⟩ | ⟨hold, hunlock⟩
    · rw [Function.update_self, hbalanced.2]
      exact List.mem_cons_self
    · rcases eq_or_ne t e.1 with rfl | hne
      · rw [Function.update_self]
        exact hbalanced.mem (h.mem m _ hold) hunlock
      · rw [Function.update_of_ne hne]
        exact h.mem m t hold

/-- In every run of allowed steps a thread holds nothing but what its position lists. -/
theorem kept_of_run (hrun : Run (LockProgram.step program) (Allowed ok) s₀ s) (h₀ : a.Kept s₀) :
    a.Kept s :=
  hrun.invariant h₀ fun _ _ _ h hok hstep => h.step hok hstep

/-- The threads at the positions that list a mutex are those that hold it. -/
def Exact (a : Annotation program ok) (m : M) (s : Threads T M P σ) : Prop :=
  Guarded s.position (fun p => decide (m ∈ a.holds p)) (s.owner m)

/-- An allowed step keeps the holder of a firm mutex. -/
lemma Exact.step (h : a.Exact m s) (hfirm : a.firm m) (hclean : a.clean (s.position e.1))
    (hok : Allowed ok s e) (hstep : step program s e = some s') : a.Exact m s' := by
  obtain ⟨effect, p, hprogram, howner, hposition⟩ := exists_of_step hstep
  have hbalanced := (a.balanced hclean hok hprogram).2
  rw [Exact, hposition]
  rcases effect with - | m' | m' | m'
  · rw [← Option.some.inj howner]
    exact h.keep (by rw [hbalanced])
  · obtain ⟨hfree, heq⟩ := Effect.apply_lock howner
    rw [heq]
    rcases eq_or_ne m m' with rfl | hne
    · rw [Function.update_self]
      rw [Exact, hfree] at h
      exact h.acquire (decide_eq_true (hbalanced.2 ▸ List.mem_cons_self))
    · rw [Function.update_of_ne hne]
      exact h.keep (by simp [hbalanced.2, hne])
  · rw [← Option.some.inj howner]
    rcases eq_or_ne m m' with rfl | hne
    · rw [Function.update_self]
      exact h.release (decide_eq_true (hbalanced.2 ▸ List.mem_cons_self))
        (decide_eq_false hbalanced.1)
    · rw [Function.update_of_ne hne]
      exact h.keep (by simp [hbalanced.2, hne])
  · rw [← Option.some.inj howner]
    have hne : m ≠ m' := fun heq => hbalanced.1 (heq ▸ hfirm)
    rw [Function.update_of_ne hne]
    exact h.keep (by rw [hbalanced.2])

/-- In every run of allowed steps the positions say who holds a firm mutex. -/
theorem exact_of_run (hrun : Run (LockProgram.step program) (Allowed ok) s₀ s) (h₀ : a.Kept s₀)
    (hfirm : a.firm m) (hexact : a.Exact m s₀) : a.Exact m s :=
  hrun.invariant_with (fun _ hrun => kept_of_run hrun h₀) hexact
    fun _ e _ hkept _ h hok hstep => h.step hfirm (hkept.clean e.1) hok hstep

end Annotation

end LockProgram
