import OsLabs.Proxy.Hashmap
import Mathlib.Algebra.BigOperators.Fin
import Mathlib.Data.Int.ModEq
import Mathlib.Tactic.Ring

/-!
# The hash of a text as a number

`hashn` of `lab3/src/common/common.c` multiplies by 33 with a shift and an addition, in an
`unsigned long`, and gives back the lower 32 bits.  So the hash of a text of no more than `max_size`
characters is what the text is worth to the base 33, modulo `2 ^ 32`.
-/

namespace OsLabs.Proxy

/-- A (signed) `char` as a number. -/
def charValue (c : UInt8) : ℤ := c.toBitVec.toInt

/-- The characters as digits to the base 33, the last one with the value it has. -/
def digitSum (str : List UInt8) : ℤ :=
  ∑ i : Fin str.length, charValue str[i] * 33 ^ (str.length - 1 - i)

/-- The same with 5381 in front of them. -/
def base33Sum (str : List UInt8) : ℤ := 5381 * 33 ^ str.length + digitSum str

/-- Two texts are worth the same modulo `2 ^ 32`. -/
def SameBase33 (str str' : List UInt8) : Prop := base33Sum str ≡ base33Sum str' [ZMOD 2 ^ 32]

/-- The first character counts most. -/
lemma digitSum_cons (c : UInt8) (str : List UInt8) :
    digitSum (c :: str) = charValue c * 33 ^ str.length + digitSum str := by
  unfold digitSum
  change ∑ i : Fin (str.length + 1), charValue (c :: str)[i] * 33 ^ (str.length + 1 - 1 - i) = _
  rw [Fin.sum_univ_succ]
  congr 1
  apply Finset.sum_congr rfl
  intro i _
  rw [Fin.val_succ, Nat.add_sub_cancel, Nat.sub_sub, Nat.add_comm 1]
  rfl

/-- The conversion of a `char` keeps its value. -/
lemma charToLong_modEq (c : UInt8) : ((charToLong c).toNat : ℤ) ≡ charValue c [ZMOD 2 ^ 64] := by
  have hvalue : (c.toBitVec.signExtend 64).toInt = charValue c :=
    BitVec.toInt_signExtend_of_le (by decide)
  rw [BitVec.toInt_eq_toNat_bmod] at hvalue
  rw [← hvalue]
  exact (Int.bmod_emod (m := 2 ^ 64)).symm

/-- A round of the loop of `hashn`. -/
lemma round_modEq (hash : UInt64) (c : UInt8) :
    (((hash <<< 5) + hash + charToLong c).toNat : ℤ) ≡
      hash.toNat * 33 + charValue c [ZMOD 2 ^ 64] := by
  have hround : ((hash <<< 5) + hash + charToLong c).toNat =
      (hash.toNat * 33 + (charToLong c).toNat) % 2 ^ 64 := by
    rw [UInt64.toNat_add, UInt64.toNat_add, UInt64.toNat_shiftLeft, Nat.shiftLeft_eq,
      show (5 : UInt64).toNat % 64 = 5 from rfl]
    omega
  rw [hround]
  push_cast
  exact (Int.mod_modEq _ _).trans ((charToLong_modEq c).add_left _)

/-- The loop of `hashn` on a text that it reads to its end. -/
lemma hashLoop_modEq {maxSize i : ℕ} {str : List UInt8} (h : i + str.length ≤ maxSize)
    (hash : UInt64) :
    ((hashLoop maxSize hash i str).toNat : ℤ) ≡
      hash.toNat * 33 ^ str.length + digitSum str [ZMOD 2 ^ 64] := by
  induction str generalizing hash i with
  | nil =>
    rw [hashLoop, List.length_nil, pow_zero, mul_one]
    exact (Int.add_zero _).symm ▸ Int.ModEq.refl _
  | cons c str ih =>
    rw [List.length_cons] at h
    rw [hashLoop, if_pos (by omega), digitSum_cons, List.length_cons]
    have hround := ((round_modEq hash c).mul_right (33 ^ str.length)).add_right (digitSum str)
    calc ((hashLoop maxSize ((hash <<< 5) + hash + charToLong c) (i + 1) str).toNat : ℤ)
        ≡ ((hash <<< 5) + hash + charToLong c).toNat * 33 ^ str.length + digitSum str
            [ZMOD 2 ^ 64] := ih (by omega) _
      _ ≡ (hash.toNat * 33 + charValue c) * 33 ^ str.length + digitSum str [ZMOD 2 ^ 64] := hround
      _ = hash.toNat * 33 ^ (str.length + 1) +
            (charValue c * 33 ^ str.length + digitSum str) := by ring

/-- `hashn` of a text that it reads to its end. -/
lemma toNat_hashn_modEq {str : CString} {maxSize : ℕ} (h : str.bytes.length ≤ maxSize) :
    ((hashn str maxSize).toNat : ℤ) ≡ base33Sum str.bytes [ZMOD 2 ^ 32] := by
  have hloop := hashLoop_modEq (Nat.le_trans (Nat.le_of_eq (Nat.zero_add _)) h) 5381
  have hcut : (hashn str maxSize).toNat = (hashLoop maxSize 5381 0 str.bytes).toNat % 2 ^ 32 := rfl
  rw [hcut]
  push_cast
  exact (Int.mod_modEq _ _).trans (hloop.of_dvd (by decide))

/-- Two texts have the same hash if and only if they are worth the same modulo `2 ^ 32`. -/
theorem hashn_eq_iff {str str' : CString} {maxSize : ℕ} (h : str.bytes.length ≤ maxSize)
    (h' : str'.bytes.length ≤ maxSize) :
    hashn str maxSize = hashn str' maxSize ↔ SameBase33 str.bytes str'.bytes := by
  have hsum := toNat_hashn_modEq h
  have hsum' := toNat_hashn_modEq h'
  unfold SameBase33
  constructor
  · intro heq
    rw [heq] at hsum
    exact hsum.symm.trans hsum'
  · intro hsame
    have hmod := (hsum.trans hsame).trans hsum'.symm
    have hlt := (hashn str maxSize).toNat_lt
    have hlt' := (hashn str' maxSize).toNat_lt
    apply UInt32.toNat_inj.mp
    unfold Int.ModEq at hmod
    omega

end OsLabs.Proxy
