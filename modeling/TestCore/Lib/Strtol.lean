/-
Numbers at the beginning of a text, as `strtol` and its relatives read them: blanks, a sign, and
then digits up to the first character that is none. What does not fit the type becomes its
largest or smallest value.
-/
import TestCore.Lib.Inet

set_option autoImplicit false

namespace TestCore.Lib

/-- The sign, the digits' value and the rest; nothing if there are no digits. With the base 0
the digits may be octal or hexadecimal, as in C; otherwise they are decimal. -/
def scanNumber (base0 : Bool) (s : Bytes) : Option (Bool × ℕ × Bytes) :=
  let s := s.dropWhile isspace
  let neg := s.head? = some 45
  let s := if s.head? = some 45 ∨ s.head? = some 43 then s.tail else s
  if (s.head?.map isdigit).getD false then
    let n := if base0 then strtoul s else readDigits 10 s 0
    some (neg, n)
  else none

/-! ## The texts with a number

`ScanText` says how a text is made in which `strtol` finds a number, or none
(`ScanText.scanNumber_eq`). Every text is one of these (`exists_scanText`), so it says exactly what
is found. -/

/-- A text does not go on with a decimal digit. -/
def DigitsEnd (t : Bytes) : Prop := ∀ c ∈ t.head?, isdigit c = false

/-- A text with a sign and a number of this value at the beginning, behind blanks; or with none. -/
inductive ScanText : Option (Bool × ℕ) → Bytes → Prop
  | number {blanks sign rest : Bytes} {ds : List ℕ} (hblanks : ∀ c ∈ blanks, isspace c = true)
      (hsign : sign ∈ [[], [43], [45]]) (hds : Digits ds) (hne : ds ≠ []) (hrest : DigitsEnd rest) :
      ScanText (some (sign = [45], decVal ds)) (blanks ++ (sign ++ (digitText ds ++ rest)))
  | none {blanks sign rest : Bytes} (hblanks : ∀ c ∈ blanks, isspace c = true)
      (hsign : sign ∈ [[], [43], [45]])
      (hnext : sign = [] → ∀ c ∈ rest.head?, isspace c = false ∧ c ≠ 43 ∧ c ≠ 45)
      (hrest : DigitsEnd rest) : ScanText none (blanks ++ (sign ++ rest))

theorem isdigit_digit {d : ℕ} (h : d < 10) : isdigit (digit d) = true := by
  unfold isdigit
  rw [decide_eq_true_eq, UInt8.le_iff_toNat_le, UInt8.le_iff_toNat_le, digit_toNat h]
  exact ⟨Nat.le_add_right 48 d, by show 48 + d ≤ 57; omega⟩

/-- Digits are the text of a list of digits. -/
theorem exists_digitText {ptr : Bytes} (h : ∀ c ∈ ptr, isdigit c = true) :
    ∃ ds, Digits ds ∧ ptr = digitText ds := by
  induction ptr with
  | nil => exact ⟨[], nofun, rfl⟩
  | cons c s ih =>
      obtain ⟨ds, hds, rfl⟩ := ih (fun x hx => h x (List.mem_cons_of_mem c hx))
      have hc : 48 ≤ c.toNat ∧ c.toNat ≤ 57 := by
        have hdigit := h c List.mem_cons_self
        unfold isdigit at hdigit
        rwa [decide_eq_true_eq, UInt8.le_iff_toNat_le, UInt8.le_iff_toNat_le] at hdigit
      have hlt : c.toNat - 48 < 10 := by omega
      refine ⟨(c.toNat - 48) :: ds, ?_, ?_⟩
      · intro d hd
        rcases List.mem_cons.mp hd with rfl | hd
        · exact hlt
        · exact hds d hd
      · have hdigit : digit (c.toNat - 48) = c := by
          rw [← UInt8.toNat_inj, digit_toNat hlt]
          omega
        show c :: digitText ds = digit (c.toNat - 48) :: digitText ds
        rw [hdigit]

/-- A digit is neither a blank nor a sign. -/
theorem isdigit_ne {c : UInt8} (h : isdigit c = true) : isspace c = false ∧ c ≠ 43 ∧ c ≠ 45 := by
  refine ⟨?_, ?_, ?_⟩
  · unfold isdigit at h
    unfold isspace
    rw [decide_eq_true_eq, UInt8.le_iff_toNat_le, UInt8.le_iff_toNat_le] at h
    rw [decide_eq_false_iff_not, ← UInt8.toNat_inj, UInt8.le_iff_toNat_le, UInt8.le_iff_toNat_le]
    simp only [UInt8.reduceToNat] at h ⊢
    omega
  · rintro rfl
    exact absurd h (by decide)
  · rintro rfl
    exact absurd h (by decide)

/-- The number behind blanks and a sign. -/
theorem scanNumber_parts {blanks sign t : Bytes} (hblanks : ∀ c ∈ blanks, isspace c = true)
    (hsign : sign ∈ [[], [43], [45]])
    (hnext : sign = [] → ∀ c ∈ t.head?, isspace c = false ∧ c ≠ 43 ∧ c ≠ 45) :
    scanNumber false (blanks ++ (sign ++ t)) =
      if (t.head?.map isdigit).getD false then some (decide (sign = [45]), readDigits 10 t 0)
      else none := by
  have hdrop : (blanks ++ (sign ++ t)).dropWhile isspace = sign ++ t := by
    rw [List.dropWhile_append_of_pos hblanks]
    simp only [List.mem_cons, List.not_mem_nil, or_false] at hsign
    rcases hsign with rfl | rfl | rfl
    · rcases t with _ | ⟨c, t⟩
      · rfl
      · exact List.dropWhile_cons_of_neg (by simp [(hnext rfl c rfl).1])
    · exact List.dropWhile_cons_of_neg (by decide)
    · exact List.dropWhile_cons_of_neg (by decide)
  unfold scanNumber
  rw [hdrop]
  simp only [List.mem_cons, List.not_mem_nil, or_false] at hsign
  rcases hsign with rfl | rfl | rfl
  · rcases t with _ | ⟨c, t⟩
    · rfl
    · obtain ⟨-, hplus, hminus⟩ := hnext rfl c rfl
      simp [hplus, hminus]
  · simp
  · simp

/-- **What is found** in a text that is made so. -/
theorem ScanText.scanNumber_eq {r : Option (Bool × ℕ)} {s : Bytes} (h : ScanText r s) :
    (scanNumber false s).map (fun x => (x.1, x.2.1)) = r := by
  cases h with
  | @number blanks sign rest ds hblanks hsign hds hne hrest =>
      obtain ⟨d, es, rfl⟩ := List.exists_cons_of_ne_nil hne
      have hdigit : isdigit (digit d) = true := isdigit_digit (hds d List.mem_cons_self)
      have hhead : (digitText (d :: es) ++ rest).head? = some (digit d) := rfl
      rw [scanNumber_parts hblanks hsign fun _ c hc => ?_]
      · rw [hhead, Option.map_some, Option.getD_some, if_pos hdigit, readDigits_digits hds hrest,
          Option.map_some, Nat.zero_mul, Nat.zero_add]
      · rw [hhead] at hc
        cases hc
        exact isdigit_ne hdigit
  | @none blanks sign rest hblanks hsign hnext hrest =>
      rw [scanNumber_parts hblanks hsign hnext]
      rcases hhead : rest.head? with _ | c
      · rfl
      · rw [Option.map_some, Option.getD_some, hrest c hhead]
        rfl

/-- What follows the characters of some kind is not of this kind. -/
theorem head?_dropWhile (p : UInt8 → Bool) (t : Bytes) : ∀ c ∈ (t.dropWhile p).head?, p c = false := by
  intro c hc
  have hne : t.dropWhile p ≠ [] := by
    intro hnil
    rw [hnil] at hc
    cases hc
  have hhead := List.head_dropWhile_not p hne
  rw [List.head?_eq_some_head hne] at hc
  cases hc
  exact hhead

/-- Every text is made so. -/
theorem exists_scanText (s : Bytes) : ∃ r, ScanText r s := by
  have hblanks : ∀ c ∈ s.takeWhile isspace, isspace c = true := fun c hc => List.mem_takeWhile_imp hc
  -- Behind the blanks and the sign.
  have hgo : ∀ sign t : Bytes, s.dropWhile isspace = sign ++ t → sign ∈ [[], [43], [45]] →
      (sign = [] → ∀ c ∈ t.head?, isspace c = false ∧ c ≠ 43 ∧ c ≠ 45) → ∃ r, ScanText r s := by
    intro sign t ht hsign hnext
    have hall : ∀ c ∈ t.takeWhile isdigit, isdigit c = true := fun c hc => List.mem_takeWhile_imp hc
    obtain ⟨ds, hds, hdigits⟩ := exists_digitText hall
    have hrest := head?_dropWhile isdigit t
    have hs : s = s.takeWhile isspace ++ (sign ++ (digitText ds ++ t.dropWhile isdigit)) := by
      rw [← hdigits, List.takeWhile_append_dropWhile, ← ht, List.takeWhile_append_dropWhile]
    by_cases hne : ds = []
    · rw [hne] at hdigits
      have hsame : t.dropWhile isdigit = t := by
        have happ := List.takeWhile_append_dropWhile (p := isdigit) (l := t)
        rwa [hdigits] at happ
      have hnone := ScanText.none hblanks hsign hnext (hsame ▸ hrest)
      rw [← ht, List.takeWhile_append_dropWhile] at hnone
      exact ⟨none, hnone⟩
    · have hnumber := ScanText.number hblanks hsign hds hne hrest
      rw [← hs] at hnumber
      exact ⟨_, hnumber⟩
  have hspace := head?_dropWhile isspace s
  rcases hdrop : s.dropWhile isspace with _ | ⟨c, t⟩
  · exact hgo [] [] hdrop (by simp) fun _ c hc => by cases hc
  · rw [hdrop] at hspace
    by_cases hplus : c = 43
    · exact hgo [43] t (by rw [hdrop, hplus]; rfl) (by simp) fun h => by cases h
    by_cases hminus : c = 45
    · exact hgo [45] t (by rw [hdrop, hminus]; rfl) (by simp) fun h => by cases h
    · refine hgo [] (c :: t) hdrop (by simp) fun _ d hd => ?_
      cases hd
      exact ⟨hspace c rfl, hplus, hminus⟩

/-! ## `strtol` and `atoi` -/

/-- The value between the bounds of a signed type of `2 ^ (w + 1)` values. -/
def clampInt (w : ℕ) (n : ℤ) : ℤ := max (-2 ^ w) (min n (2 ^ w - 1))

/-- `strtol(s, NULL, 10)` for a type of `w + 1` bits. -/
def strtolDec (w : ℕ) (s : Bytes) : ℤ :=
  match scanNumber false s with
  | none => 0
  | some (neg, n, _) => clampInt w (if neg then -n else n)

theorem ScanText.strtolDec_eq {r : Option (Bool × ℕ)} {s : Bytes} (h : ScanText r s) (w : ℕ) :
    strtolDec w s = r.elim 0 fun x => clampInt w (if x.1 then -(x.2 : ℤ) else x.2) := by
  have hscan := h.scanNumber_eq
  unfold strtolDec
  rcases hs : scanNumber false s with _ | ⟨neg, n, rest⟩
  · rw [hs] at hscan
    rw [← hscan]
    rfl
  · rw [hs] at hscan
    rw [← hscan]
    rfl

/-- `atoi`, with a `long` of 32 bits. -/
def atoi (s : Bytes) : ℤ := strtolDec 31 s

/-- `atoi`, with a `long` of `w + 1` bits: an `int` gets the low ones. -/
def atoiLong (w : ℕ) (s : Bytes) : ℤ := (strtolDec w s).bmod (2 ^ 32)

/-- `atoll`. -/
def atoll (s : Bytes) : ℤ := strtolDec 63 s

example : atoi (bytes " -12x") = -12 ∧ atoi (bytes "+") = 0 ∧ atoi (bytes "4294967296") = 2147483647 := by
  decide

end TestCore.Lib
