/-
Decimal numerals as text.

A numeral is a list of digits, highest first, and its text is one byte a digit. The value of a
list of digits is Mathlib's `Nat.ofDigits`, which wants the lowest digit first; here are the
facts about it in the order of the text, and the numeral that `printf` writes for a number.
-/
import TestCore.Lib.CString

set_option autoImplicit false

namespace TestCore.Lib

/-- `isdigit`. -/
def isDigit (c : UInt8) : Bool := 48 ≤ c && c ≤ 57

/-- The character of a digit. -/
def digit (d : ℕ) : UInt8 := UInt8.ofNat (48 + d)

/-- The text of a list of digits, highest first. -/
def digitText (ds : List ℕ) : Bytes := ds.map digit

/-- The number that a list of digits stands for, highest first. -/
def decVal (ds : List ℕ) : ℕ := Nat.ofDigits 10 ds.reverse

/-- All the digits are decimal ones. -/
def Digits (ds : List ℕ) : Prop := ∀ d ∈ ds, d < 10

instance (ds : List ℕ) : Decidable (Digits ds) := inferInstanceAs (Decidable (∀ d ∈ ds, d < 10))

theorem digit_toNat {d : ℕ} (h : d < 10) : (digit d).toNat = 48 + d := by
  unfold digit
  rw [UInt8.toNat_ofNat']
  omega

@[simp] theorem digitText_length (ds : List ℕ) : (digitText ds).length = ds.length := List.length_map _

theorem digitText_append (ds es : List ℕ) : digitText (ds ++ es) = digitText ds ++ digitText es :=
  List.map_append

theorem mem_digitText {ds : List ℕ} (hds : Digits ds) {c : UInt8} (hc : c ∈ digitText ds) :
    48 ≤ c.toNat ∧ c.toNat ≤ 57 := by
  obtain ⟨d, hd, rfl⟩ := List.mem_map.mp hc
  have hlt := hds d hd
  rw [digit_toNat hlt]
  omega

theorem Digits.append {ds es : List ℕ} (hds : Digits ds) (hes : Digits es) : Digits (ds ++ es) := by
  intro d hd
  rcases List.mem_append.mp hd with h | h
  · exact hds d h
  · exact hes d h

@[simp] theorem decVal_nil : decVal [] = 0 := rfl

theorem decVal_append (ds es : List ℕ) :
    decVal (ds ++ es) = decVal ds * 10 ^ es.length + decVal es := by
  unfold decVal
  rw [List.reverse_append, Nat.ofDigits_append, List.length_reverse]
  ring

theorem decVal_singleton (d : ℕ) : decVal [d] = d := Nat.ofDigits_singleton

theorem decVal_lt {ds : List ℕ} (h : Digits ds) : decVal ds < 10 ^ ds.length := by
  unfold decVal
  rw [← List.length_reverse]
  refine Nat.ofDigits_lt_base_pow_length (by norm_num) ?_
  intro d hd
  exact h d (List.mem_reverse.mp hd)

/-! ## Numerals of a fixed width -/

/-- The two digits of a number below 100. -/
def two (n : ℕ) : List ℕ := [n / 10, n % 10]

theorem digits_two {n : ℕ} (h : n < 100) : Digits (two n) := by
  intro d hd
  simp only [two, List.mem_cons, List.not_mem_nil, or_false] at hd
  omega

theorem decVal_two (n : ℕ) : decVal (two n) = n := by
  show decVal ([n / 10] ++ [n % 10]) = n
  rw [decVal_append, decVal_singleton, decVal_singleton, List.length_singleton]
  omega

/-- The three digits of a number below 1000. -/
def three (n : ℕ) : List ℕ := [n / 100, n / 10 % 10, n % 10]

theorem digits_three {n : ℕ} (h : n < 1000) : Digits (three n) := by
  intro d hd
  simp only [three, List.mem_cons, List.not_mem_nil, or_false] at hd
  omega

theorem decVal_three (n : ℕ) : decVal (three n) = n := by
  show decVal ([n / 100] ++ ([n / 10 % 10] ++ [n % 10])) = n
  rw [decVal_append, decVal_append, decVal_singleton, decVal_singleton, decVal_singleton]
  simp only [List.length_append, List.length_singleton]
  omega

/-! ## The numeral of a number -/

/-- The digits that `printf` writes for `%d`. -/
def decDigits (n : ℕ) : List ℕ := if n = 0 then [0] else (Nat.digits 10 n).reverse

/-- The text that `printf` writes for `%d`. -/
def dec (n : ℕ) : Bytes := digitText (decDigits n)

/-- The text that `printf` writes for `%d` of a number with a sign. -/
def decInt (z : ℤ) : Bytes := if z < 0 then 45 :: dec z.natAbs else dec z.natAbs

theorem digits_decDigits (n : ℕ) : Digits (decDigits n) := by
  intro d hd
  unfold decDigits at hd
  split_ifs at hd with hn
  · rw [List.mem_singleton.mp hd]
    norm_num
  · exact Nat.digits_lt_base (by norm_num) (List.mem_reverse.mp hd)

theorem decVal_decDigits (n : ℕ) : decVal (decDigits n) = n := by
  unfold decDigits
  split_ifs with hn
  · rw [hn]
    rfl
  · unfold decVal
    rw [List.reverse_reverse, Nat.ofDigits_digits]

/-- A number other than zero is written without a zero in front. -/
theorem decDigits_head {n : ℕ} (h : n ≠ 0) : ∃ d ds, decDigits n = d :: ds ∧ d ≠ 0 := by
  have hne : Nat.digits 10 n ≠ [] := Nat.digits_ne_nil_iff_ne_zero.mpr h
  have hlast := Nat.getLast_digit_ne_zero 10 h
  unfold decDigits
  rw [if_neg h]
  refine ⟨(Nat.digits 10 n).getLast hne, (Nat.digits 10 n).dropLast.reverse, ?_, hlast⟩
  rw [← List.reverse_concat, List.dropLast_append_getLast]

theorem digit_inj {d e : ℕ} (hd : d < 10) (he : e < 10) (h : digit d = digit e) : d = e := by
  have hnat : (digit d).toNat = (digit e).toNat := by rw [h]
  rw [digit_toNat hd, digit_toNat he] at hnat
  omega

theorem mem_dec {n : ℕ} {c : UInt8} (hc : c ∈ dec n) : 48 ≤ c.toNat ∧ c.toNat ≤ 57 :=
  mem_digitText (digits_decDigits n) hc

theorem not_mem_dec {c : UInt8} (hc : c.toNat < 48) (n : ℕ) : c ∉ dec n := by
  intro h
  have hmem := mem_dec h
  omega

theorem dec_ne_nil (n : ℕ) : dec n ≠ [] := by
  rcases Nat.eq_zero_or_pos n with rfl | hn
  · exact List.cons_ne_nil _ _
  · obtain ⟨d, ds, hds, -⟩ := decDigits_head hn.ne'
    unfold dec
    rw [hds]
    exact List.cons_ne_nil _ _

theorem dec_length_le {n k : ℕ} (h : n < 10 ^ (k + 1)) : (dec n).length ≤ k + 1 := by
  unfold dec
  rw [digitText_length]
  unfold decDigits
  split_ifs with hn
  · exact Nat.le_add_left 1 k
  · rw [List.length_reverse]
    exact (Nat.digits_length_le_iff (by norm_num) n).mpr h

theorem decInt_length_pos (z : ℤ) : 0 < (decInt z).length := by
  unfold decInt
  split_ifs
  · exact Nat.succ_pos _
  · exact List.length_pos_of_ne_nil (dec_ne_nil _)

end TestCore.Lib
