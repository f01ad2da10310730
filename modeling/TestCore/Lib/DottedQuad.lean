/-
Four decimal numbers with dots between them, as two other functions of the C library read them:
`inet_pton`, which takes nothing else, and `sscanf` with a format like `%u.%u.%u.%u`, which takes
blanks and signs, and leaves the variables alone that it finds no number for.
-/
import TestCore.Lib.Strtol

set_option autoImplicit false

namespace TestCore.Lib

/-! ## `inet_pton` -/

/-- One number of `inet_pton`: decimal, a byte, without a zero in front. -/
def inet_pton.number : Bytes → Option (ℕ × Bytes)
  | [] => none
  | c :: s =>
      if isdigit c then
        let (val, rest) := readDigits 10 (c :: s) 0
        if val ≤ 0xff ∧ (c = 48 → rest = s) then some (val, rest) else none
      else none

/-- The numbers that are left after this one, and the bytes so far as a number. -/
def inet_pton.parts : (left : ℕ) → (word : ℕ) → Bytes → Option UInt32
  | left, word, s =>
      match inet_pton.number s with
      | none => none
      | some (val, rest) =>
          match left, rest with
          | 0, [] => some (UInt32.ofNat (word * 256 + val))
          | left + 1, 46 :: t => inet_pton.parts left (word * 256 + val) t
          | _, _ => none

/-- `inet_pton(AF_INET, s, &addr)`: the address, if there is one. -/
def inet_pton (s : Bytes) : Option UInt32 := inet_pton.parts 3 0 s

/-- A numeral starts with a digit, which is a zero for the number zero only. -/
theorem dec_cons (n : ℕ) : ∃ c s, dec n = c :: s ∧ isdigit c = true ∧ (c = 48 → n = 0 ∧ s = []) := by
  rcases Nat.eq_zero_or_pos n with rfl | hn
  · exact ⟨48, [], rfl, by decide, fun _ => ⟨rfl, rfl⟩⟩
  · obtain ⟨d, ds, hds, hd⟩ := decDigits_head hn.ne'
    have hlt : d < 10 := digits_decDigits n d (by rw [hds]; exact List.mem_cons_self)
    refine ⟨digit d, digitText ds, ?_, isdigit_digit hlt, ?_⟩
    · unfold dec
      rw [hds]
      rfl
    · intro h
      exact absurd (digit_inj (e := 0) hlt (by norm_num) h) hd

theorem readDigits_dec (n : ℕ) {t : Bytes} (ht : NoDigit t) : readDigits 10 (dec n ++ t) 0 = (n, t) := by
  have hread := readDigits_digitText (digits_decDigits n) ht 0
  rwa [decVal_decDigits, Nat.zero_mul, Nat.zero_add] at hread

theorem pton_number_dec {n : ℕ} (hn : n ≤ 255) {t : Bytes} (ht : NoDigit t) :
    inet_pton.number (dec n ++ t) = some (n, t) := by
  obtain ⟨c, s, hs, hdigit, hzero⟩ := dec_cons n
  have hread := readDigits_dec n ht
  rw [hs, List.cons_append] at hread ⊢
  unfold inet_pton.number
  dsimp only
  rw [if_pos hdigit, hread]
  refine if_pos ⟨hn, ?_⟩
  intro hc
  rw [(hzero hc).2]
  rfl

theorem noDigit_dot (t : Bytes) : NoDigit (46 :: t) := noDigit_cons (by decide) t

theorem pton_parts_dot {n : ℕ} (hn : n ≤ 255) (left word : ℕ) (t : Bytes) :
    inet_pton.parts (left + 1) word (dec n ++ 46 :: t) = inet_pton.parts left (word * 256 + n) t := by
  conv_lhs => unfold inet_pton.parts
  rw [pton_number_dec hn (noDigit_dot t)]
  rfl

theorem pton_parts_last {n : ℕ} (hn : n ≤ 255) (word : ℕ) :
    inet_pton.parts 0 word (dec n) = some (UInt32.ofNat (word * 256 + n)) := by
  have hnum := pton_number_dec hn noDigit_nil
  rw [List.append_nil] at hnum
  unfold inet_pton.parts
  rw [hnum]

/-- **`inet_pton` reads what `inet_ntoa` writes.** -/
theorem inet_pton_ntoa (a : UInt32) : inet_pton (inet_ntoa a) = some a := by
  have hlt : a.toNat < 2 ^ 32 := a.toNat_lt
  have hsum : (((0 * 256 + octet a 3) * 256 + octet a 2) * 256 + octet a 1) * 256 + octet a 0
      = a.toNat := by
    unfold octet
    omega
  unfold inet_pton inet_ntoa
  rw [pton_parts_dot (octet_le a 3), pton_parts_dot (octet_le a 2), pton_parts_dot (octet_le a 1),
    pton_parts_last (octet_le a 0), hsum, UInt32.ofNat_toNat]

/-! ## `sscanf` -/

/-- Four variables. -/
structure Quad (α : Type) where
  first : α
  second : α
  third : α
  fourth : α

/-- The first of the variables are given values. -/
def Quad.assign {α : Type} (q : Quad α) : List α → Quad α
  | [] => q
  | [a] => { q with first := a }
  | [a, b] => { q with first := a, second := b }
  | [a, b, c] => { q with first := a, second := b, third := c }
  | a :: b :: c :: d :: _ => ⟨a, b, c, d⟩

/-- Up to so many numbers with dots between them: signs and values. -/
def scanDotted : ℕ → Bytes → List (Bool × ℕ)
  | 0, _ => []
  | n + 1, s =>
      match scanNumber false s with
      | none => []
      | some (neg, val, 46 :: t) => (neg, val) :: scanDotted n t
      | some (neg, val, _) => [(neg, val)]

/-- `sscanf(s, "%_.%_.%_.%_", &first, &second, &third, &fourth)`, for the conversion that makes
values of signs and numbers. -/
def sscanfDotted {α : Type} (conv : Bool × ℕ → α) (s : Bytes) (q : Quad α) : Quad α :=
  q.assign ((scanDotted 4 s).map conv)

/-- Digits, and what cannot be one behind them. -/
theorem scanNumber_digitText {ds : List ℕ} (hds : Digits ds) (hne : ds ≠ []) {t : Bytes}
    (ht : NoDigit t) : scanNumber false (digitText ds ++ t) = some (false, decVal ds, t) := by
  obtain ⟨d, es, rfl⟩ := List.exists_cons_of_ne_nil hne
  have hread := readDigits_digitText hds ht 0
  have hdigit : isdigit (digit d) = true := isdigit_digit (hds d List.mem_cons_self)
  have hmem := digit_toNat (hds d List.mem_cons_self)
  rw [Nat.zero_mul, Nat.zero_add] at hread
  rw [show digitText (d :: es) = digit d :: digitText es from rfl, List.cons_append] at hread ⊢
  generalize digit d = c at *
  have hspace : isspace c = false := by
    unfold isspace
    rw [decide_eq_false_iff_not, ← UInt8.toNat_inj, UInt8.le_iff_toNat_le, UInt8.le_iff_toNat_le]
    show ¬ (c.toNat = 32 ∨ 9 ≤ c.toNat ∧ c.toNat ≤ 13)
    omega
  have hminus : ¬ c = 45 := by
    rintro rfl
    revert hdigit
    decide
  have hplus : ¬ c = 43 := by
    rintro rfl
    revert hdigit
    decide
  unfold scanNumber
  simp [hspace, hminus, hplus, hdigit, hread]

theorem scanNumber_dec (n : ℕ) {t : Bytes} (ht : NoDigit t) :
    scanNumber false (dec n ++ t) = some (false, n, t) := by
  have hne : decDigits n ≠ [] := fun h => dec_ne_nil n (congrArg digitText h)
  have hscan := scanNumber_digitText (digits_decDigits n) hne ht
  rwa [decVal_decDigits] at hscan

/-- **`sscanf` reads the bytes of an address.** -/
theorem sscanfDotted_ntoa {α : Type} (conv : Bool × ℕ → α) (a : UInt32) (q : Quad α) :
    sscanfDotted conv (inet_ntoa a) q =
      ⟨conv (false, octet a 3), conv (false, octet a 2), conv (false, octet a 1),
        conv (false, octet a 0)⟩ := by
  have hlast := scanNumber_dec (octet a 0) noDigit_nil
  rw [List.append_nil] at hlast
  unfold sscanfDotted inet_ntoa
  simp only [scanDotted, scanNumber_dec _ (noDigit_dot _), hlast, List.map_cons, List.map_nil]
  rfl

end TestCore.Lib
