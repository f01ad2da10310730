/-
Sets of numbers, a bit for each, in words of 32 bits.
-/
import Mathlib

set_option autoImplicit false

namespace TestCore.Lib

/-- Whether the bit of a number is set. -/
def wordsBit (words : List UInt32) (i : ℕ) : Bool :=
  (words.getD (i / 32) 0).toNat.testBit (i % 32)

/-- Setting the bit of a number, `words[i >> 5] |= 1 << (i & 31)`. -/
def setWordsBit (words : List UInt32) (i : ℕ) : List UInt32 :=
  words.modify (i / 32) (· ||| 1 <<< UInt32.ofNat (i % 32))

@[simp] theorem setWordsBit_length (words : List UInt32) (i : ℕ) :
    (setWordsBit words i).length = words.length := List.length_modify _ _ _

/-- The bit of a word that is set. -/
theorem testBit_or_shift (w : UInt32) {i : ℕ} (hi : i < 32) (j : ℕ) :
    (w ||| 1 <<< UInt32.ofNat i).toNat.testBit j = (w.toNat.testBit j || decide (i = j)) := by
  have hshift : ((1 : UInt32) <<< UInt32.ofNat i).toNat = 2 ^ i := by
    have hpow : 2 ^ i < 2 ^ 32 := Nat.pow_lt_pow_right (by norm_num) hi
    rw [UInt32.toNat_shiftLeft, UInt32.toNat_ofNat', Nat.mod_eq_of_lt (by omega : i < 2 ^ 32),
      Nat.mod_eq_of_lt hi, UInt32.toNat_one, Nat.one_shiftLeft, Nat.mod_eq_of_lt hpow]
  rw [UInt32.toNat_or, Nat.testBit_or, hshift, Nat.testBit_two_pow]

/-- **What setting a bit changes.** -/
theorem wordsBit_setWordsBit {words : List UInt32} {i : ℕ} (hi : i < 32 * words.length) (j : ℕ) :
    wordsBit (setWordsBit words i) j = (wordsBit words j || decide (i = j)) := by
  have hlt : i / 32 < words.length := by omega
  unfold wordsBit setWordsBit
  by_cases hword : i / 32 = j / 32
  · have hbit : i % 32 = j % 32 ↔ i = j := by omega
    rw [← hword, List.getD_eq_getElem?_getD, List.getElem?_modify_eq, List.getD_eq_getElem?_getD,
      List.getElem?_eq_getElem hlt]
    simp only [Option.map_eq_map, Option.map_some, Option.getD_some]
    rw [testBit_or_shift _ (Nat.mod_lt _ (by norm_num)), decide_eq_decide.mpr hbit]
  · have hne : ¬ i = j := by omega
    rw [List.getD_eq_getElem?_getD, List.getElem?_modify_ne _ _ hword, ← List.getD_eq_getElem?_getD,
      decide_eq_false hne, Bool.or_false]

/-- The empty set. -/
theorem wordsBit_zeros (n i : ℕ) : wordsBit (List.replicate n 0) i = false := by
  have hword : (List.replicate n (0 : UInt32)).getD (i / 32) 0 = 0 := by
    rw [List.getD_eq_getElem?_getD, List.getElem?_replicate]
    split_ifs <;> rfl
  unfold wordsBit
  rw [hword, UInt32.toNat_zero, Nat.zero_testBit]

end TestCore.Lib
