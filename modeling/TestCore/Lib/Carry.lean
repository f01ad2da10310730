/-
Addition of numerals digit by digit, with a carry.

A numeral is a list of digits, lowest first, and its value is Mathlib's `Nat.ofDigits`. Two numerals are
added from the low end on. Where one of them is at its end, the carry runs on through the other
(`ripple`), and what is left of it at the high end is one digit more.

For any base and any carry the value of the result is the sum (`ofDigits_addCarry`). With digits of the
base and a carry of one or none, the digits of the result are digits of the base too (`addCarry_lt`).
-/
import Mathlib.Data.Nat.Digits.Defs

set_option autoImplicit false

namespace TestCore.Lib

section Carry

/-- A carry runs through a numeral. -/
def ripple (b : ℕ) : ℕ → List ℕ → List ℕ
  | c, [] => if c = 0 then [] else [c]
  | c, x :: xs => (x + c) % b :: ripple b ((x + c) / b) xs

/-- The sum of two numerals and a carry. -/
def addCarry (b : ℕ) : ℕ → List ℕ → List ℕ → List ℕ
  | c, [], ys => ripple b c ys
  | c, x :: xs, [] => ripple b c (x :: xs)
  | c, x :: xs, y :: ys => (x + y + c) % b :: addCarry b ((x + y + c) / b) xs ys

variable {b c : ℕ}

/-- A digit of the result is that of three numbers, of which a numeral that is at its end gives zero. -/
theorem addCarry_eq_cons {xs ys : List ℕ} (h : ¬ (xs = [] ∧ ys = [])) :
    addCarry b c xs ys = (xs.headD 0 + ys.headD 0 + c) % b ::
      addCarry b ((xs.headD 0 + ys.headD 0 + c) / b) xs.tail ys.tail := by
  rcases xs with _ | ⟨x, xs⟩
  · rcases ys with _ | ⟨y, ys⟩
    · exact absurd ⟨rfl, rfl⟩ h
    · simp only [addCarry, ripple, List.headD_nil, List.headD_cons, List.tail_nil, List.tail_cons,
        Nat.zero_add]
  · rcases ys with _ | ⟨y, ys⟩
    · simp only [addCarry, ripple, List.headD_nil, List.headD_cons, List.tail_nil, List.tail_cons,
        Nat.add_zero]
      cases xs with
      | nil => rfl
      | cons x' xs => rfl
    · rfl

/-! ## The value -/

theorem ofDigits_ripple (b c : ℕ) (xs : List ℕ) :
    Nat.ofDigits b (ripple b c xs) = Nat.ofDigits b xs + c := by
  induction xs generalizing c with
  | nil =>
      rw [ripple]
      split_ifs with hc
      · rw [hc, Nat.ofDigits_nil]
      · rw [Nat.ofDigits_singleton, Nat.ofDigits_nil, Nat.zero_add]
  | cons x xs ih =>
      have hsplit := Nat.mod_add_div (x + c) b
      rw [ripple, Nat.ofDigits_cons, Nat.ofDigits_cons, ih, Nat.mul_add]
      omega

/-- **The value is the sum.** -/
theorem ofDigits_addCarry (b c : ℕ) (xs ys : List ℕ) :
    Nat.ofDigits b (addCarry b c xs ys) = Nat.ofDigits b xs + Nat.ofDigits b ys + c := by
  induction xs generalizing c ys with
  | nil => rw [addCarry, ofDigits_ripple, Nat.ofDigits_nil, Nat.zero_add]
  | cons x xs ih =>
      rcases ys with _ | ⟨y, ys⟩
      · rw [addCarry, ofDigits_ripple, Nat.ofDigits_nil, Nat.add_zero]
      · have hsplit := Nat.mod_add_div (x + y + c) b
        rw [addCarry, Nat.ofDigits_cons, Nat.ofDigits_cons, Nat.ofDigits_cons, ih, Nat.mul_add,
          Nat.mul_add]
        omega

/-! ## The digits -/

theorem carry_le {n : ℕ} (hn : n < 2 * b) : n / b ≤ 1 := by
  have hlt : n / b < 2 := Nat.div_lt_of_lt_mul (by omega)
  omega

theorem ripple_lt (hb : 1 < b) (hc : c ≤ 1) {xs : List ℕ} (hxs : ∀ d ∈ xs, d < b) :
    ∀ d ∈ ripple b c xs, d < b := by
  induction xs generalizing c with
  | nil =>
      intro d hd
      rw [ripple] at hd
      split_ifs at hd with hzero
      · cases hd
      · rw [List.mem_singleton.mp hd]
        omega
  | cons x xs ih =>
      rw [List.forall_mem_cons] at hxs
      rw [ripple, List.forall_mem_cons]
      exact ⟨Nat.mod_lt _ (by omega), ih (carry_le (by omega)) hxs.2⟩

theorem addCarry_lt (hb : 1 < b) (hc : c ≤ 1) {xs ys : List ℕ} (hxs : ∀ d ∈ xs, d < b)
    (hys : ∀ d ∈ ys, d < b) : ∀ d ∈ addCarry b c xs ys, d < b := by
  induction xs generalizing c ys with
  | nil => exact ripple_lt hb hc hys
  | cons x xs ih =>
      rcases ys with _ | ⟨y, ys⟩
      · exact ripple_lt hb hc hxs
      · rw [List.forall_mem_cons] at hxs hys
        rw [addCarry, List.forall_mem_cons]
        exact ⟨Nat.mod_lt _ (by omega), ih (carry_le (by omega)) hxs.2 hys.2⟩

/-! ## The length -/

theorem ripple_length (b c : ℕ) (xs : List ℕ) :
    (ripple b c xs).length = xs.length ∨ (ripple b c xs).length = xs.length + 1 := by
  induction xs generalizing c with
  | nil =>
      rw [ripple]
      split_ifs with hc
      · exact Or.inl rfl
      · exact Or.inr rfl
  | cons x xs ih =>
      have hrest := ih ((x + c) / b)
      rw [ripple, List.length_cons, List.length_cons]
      omega

/-- There is at most one digit more than the longer numeral has. -/
theorem addCarry_length (b c : ℕ) (xs ys : List ℕ) :
    (addCarry b c xs ys).length = max xs.length ys.length ∨
      (addCarry b c xs ys).length = max xs.length ys.length + 1 := by
  induction xs generalizing c ys with
  | nil =>
      rw [addCarry, List.length_nil, Nat.zero_max]
      exact ripple_length b c ys
  | cons x xs ih =>
      rcases ys with _ | ⟨y, ys⟩
      · rw [addCarry, List.length_nil, Nat.max_zero]
        exact ripple_length b c (x :: xs)
      · have hrest := ih ((x + y + c) / b) ys
        rw [addCarry, List.length_cons, List.length_cons, List.length_cons, Nat.add_max_add_right]
        omega

end Carry

end TestCore.Lib
