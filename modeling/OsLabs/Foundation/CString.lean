import Mathlib.Data.List.Basic
import Mathlib.Data.Nat.Notation

/-!
# C strings

A `CString` is the content of a NUL-terminated string: the bytes before the terminator.  A
`CharArray cap` is a string stored in an array of `cap` characters, so it is shorter than `cap`.
Both carry the fact that makes them well formed, so an unterminated or oversized string cannot be
built.
-/

/-- The bytes of a NUL-terminated string before its terminator. -/
structure CString where
  /-- The bytes. -/
  bytes : List UInt8
  /-- The terminator is not among them. -/
  noNul : 0 ∉ bytes
  deriving DecidableEq

/-- A string in an array of `cap` characters. -/
structure CharArray (cap : ℕ) extends CString where
  /-- The terminator fits as well. -/
  fits : bytes.length < cap
  deriving DecidableEq

namespace CString

/-- The empty string. -/
def empty : CString := ⟨[], List.not_mem_nil⟩

/-- What `strncpy` with limit `n` stores of a string. -/
def truncate (a : CString) (n : ℕ) : CString :=
  ⟨a.bytes.take n, fun h => a.noNul (List.mem_of_mem_take h)⟩

/-- `strncmp(a, b, n) == 0`. -/
def agree (a b : CString) (n : ℕ) : Bool := a.bytes.take n == b.bytes.take n

/-- The bytes of an ASCII text. -/
def ascii (text : List Char) : List UInt8 := text.map fun c => UInt8.ofNat c.toNat

/-- Two strings agree on `n` characters when their first `n` bytes are equal. -/
lemma agree_iff {a b : CString} {n : ℕ} :
    agree a b n = true ↔ a.bytes.take n = b.bytes.take n := by
  rw [agree, beq_iff_eq]

/-- A truncated string still agrees with the string it was taken from. -/
lemma agree_truncate_left (a b : CString) (n : ℕ) : agree (a.truncate n) b n = agree a b n := by
  rw [agree, agree, truncate, List.take_take, Nat.min_self]

/-- Strings are determined by their bytes. -/
@[ext] lemma ext {a b : CString} (h : a.bytes = b.bytes) : a = b := by
  cases a; cases b; cases h; rfl

/-! ## Arrays of characters

A string of `n` characters or more fills an array of `n` characters without a terminator.
-/

/-- `strncpy(array, a, n)` into an array of `n` characters: the rest is filled with zeros. -/
def strncpy (a : CString) (n : ℕ) : List UInt8 :=
  a.bytes.take n ++ List.replicate (n - a.bytes.length) 0

/-- Before the first zero there is no zero. -/
lemma zero_notMem_takeWhile (array : List UInt8) : 0 ∉ array.takeWhile (· != 0) := by
  intro h
  have hall := List.all_eq_true.mp (List.all_takeWhile (p := (· != 0)) (l := array)) 0 h
  simp at hall

/-- The string in an array of characters, which ends at a zero or at the end of the array. -/
def ofArray (array : List UInt8) : CString :=
  ⟨array.takeWhile (· != 0), zero_notMem_takeWhile array⟩

/-- `strncmp(a, b, n) == 0` on the memory behind two pointers; `none` where it would read behind
the end of one of them. -/
def strncmp : ℕ → List UInt8 → List UInt8 → Option Bool
  | 0, _, _ => some true
  | n + 1, x :: a, y :: b =>
    if x ≠ y then some false
    else if x = 0 then some true
    else strncmp n a b
  | _ + 1, [], _ => none
  | _ + 1, _ :: _, [] => none

/-- The array made by `strncpy` has its length. -/
lemma length_strncpy (a : CString) (n : ℕ) : (a.strncpy n).length = n := by
  rw [strncpy, List.length_append, List.length_take, List.length_replicate]
  omega

/-- The array made by `strncpy` holds the string as far as it fits. -/
lemma ofArray_strncpy (a : CString) (n : ℕ) : ofArray (a.strncpy n) = a.truncate n := by
  have hpos : ∀ c ∈ a.bytes.take n, (c != 0) = true := by
    intro c hc
    rw [bne_iff_ne]
    exact fun heq => a.noNul (heq ▸ List.mem_of_mem_take hc)
  ext1
  show (a.bytes.take n ++ List.replicate _ 0).takeWhile _ = a.bytes.take n
  rw [List.takeWhile_append_of_pos hpos, List.takeWhile_replicate]
  simp

/-- On an array of `n` characters and a terminated string, `strncmp` with limit `n` stays within
both and compares the strings. -/
lemma strncmp_eq {n : ℕ} {array : List UInt8} (hlen : array.length = n) (b : CString) :
    strncmp n array (b.bytes ++ [0]) = some (agree (ofArray array) b n) := by
  obtain ⟨b, hb⟩ := b
  induction n generalizing array b with
  | zero =>
    obtain rfl := List.length_eq_zero_iff.mp hlen
    rfl
  | succ n ih =>
    obtain ⟨x, array, rfl⟩ := List.exists_cons_of_length_eq_add_one hlen
    have hlen' : array.length = n := by simpa using hlen
    cases b with
    | nil =>
      rcases eq_or_ne x 0 with rfl | hx
      · simp [strncmp, agree, ofArray]
      · simp [strncmp, agree, ofArray, hx]
    | cons y b =>
      have hy : y ≠ 0 := fun heq => hb (by simp [heq])
      have hb' : 0 ∉ b := fun hmem => hb (List.mem_cons_of_mem y hmem)
      rcases eq_or_ne x y with rfl | hxy
      · have hrest := ih hlen' b hb'
        simp only [strncmp, List.cons_append, ne_eq, not_true_eq_false, if_false, hy, hrest]
        simp [agree, ofArray, hy]
      · simp only [strncmp, List.cons_append, ne_eq, hxy, not_false_eq_true, if_true]
        rcases eq_or_ne x 0 with rfl | hx
        · simp [agree, ofArray]
        · simp [agree, ofArray, hx, hxy]

end CString

namespace CharArray

/-- Arrays of one capacity are determined by their bytes. -/
@[ext] lemma ext {cap : ℕ} {a b : CharArray cap} (h : a.bytes = b.bytes) : a = b := by
  obtain ⟨⟨x, hx⟩, hx'⟩ := a
  obtain ⟨⟨y, hy⟩, hy'⟩ := b
  obtain rfl : x = y := h
  rfl

/-- For strings in arrays of `n` characters, `strncmp` with limit `n` decides equality. -/
lemma agree_iff_eq {n : ℕ} {a b : CharArray n} :
    CString.agree a.toCString b.toCString n = true ↔ a = b := by
  rw [CString.agree_iff, List.take_of_length_le (Nat.le_of_lt a.fits),
    List.take_of_length_le (Nat.le_of_lt b.fits)]
  exact ⟨ext, fun h => h ▸ rfl⟩

end CharArray
