/-
IPv4 addresses as text: `inet_ntoa`, `inet_aton`.

An address is the number of its four bytes, highest first (what `ntohl` makes of it).
`inet_ntoa` always writes four decimal numbers; `inet_aton` reads much more than that, as the C
library does: one to four numbers, each decimal, octal or hexadecimal as in C, the last one
standing for all the bytes that are left, and anything after a blank.
-/
import TestCore.Lib.Decimal

set_option autoImplicit false

namespace TestCore.Lib

/-! ## Numbers -/

/-- The value of a digit of a base up to 16. -/
def digitVal (c : UInt8) : Option ℕ :=
  if 48 ≤ c ∧ c ≤ 57 then some (c.toNat - 48)
  else if 97 ≤ c ∧ c ≤ 102 then some (c.toNat - 87)
  else if 65 ≤ c ∧ c ≤ 70 then some (c.toNat - 55)
  else none

/-- The digits of a base at the start of a text, and the rest. -/
def readDigits (base : ℕ) : Bytes → ℕ → ℕ × Bytes
  | [], acc => (acc, [])
  | c :: s, acc =>
      match digitVal c with
      | some d => if d < base then readDigits base s (acc * base + d) else (acc, c :: s)
      | none => (acc, c :: s)

/-- `strtoul` with the base 0, at a digit. -/
def strtoul : Bytes → ℕ × Bytes
  | 48 :: x :: h :: s =>
      -- `0x` needs a digit behind it; without one the number is the zero before the `x`.
      if (x = 120 ∨ x = 88) ∧ (digitVal h).isSome then readDigits 16 (h :: s) 0
      else readDigits 8 (48 :: x :: h :: s) 0
  | 48 :: s => readDigits 8 (48 :: s) 0
  | s => readDigits 10 s 0

def isdigit (c : UInt8) : Bool := 48 ≤ c ∧ c ≤ 57

def isspace (c : UInt8) : Bool := c = 32 ∨ 9 ≤ c ∧ c ≤ 13

/-- A text that does not go on with a decimal digit. -/
def NoDigit (t : Bytes) : Prop := ∀ c ∈ t.head?, digitVal c = none

theorem noDigit_nil : NoDigit [] := by
  intro c hc
  cases hc

theorem noDigit_cons {c : UInt8} (h : digitVal c = none) (t : Bytes) : NoDigit (c :: t) := by
  intro e he
  cases he
  exact h

theorem digitVal_digit {d : ℕ} (h : d < 10) : digitVal (digit d) = some d := by
  have hnat := digit_toNat h
  have hlow : (48 : UInt8) ≤ digit d := by
    rw [UInt8.le_iff_toNat_le, hnat]
    exact Nat.le_add_right 48 d
  have hhigh : digit d ≤ (57 : UInt8) := by
    rw [UInt8.le_iff_toNat_le, hnat]
    show 48 + d ≤ 57
    omega
  unfold digitVal
  rw [if_pos ⟨hlow, hhigh⟩, hnat, Nat.add_sub_cancel_left]

/-- Decimal digits are read as the number they stand for. -/
theorem digitVal_ge {c : UInt8} (h : isdigit c = false) {d : ℕ} (hd : digitVal c = some d) : ¬ d < 10 := by
  unfold isdigit at h
  unfold digitVal at hd
  rw [decide_eq_false_iff_not] at h
  rw [if_neg h] at hd
  split_ifs at hd with hlow hhigh
  · simp only [UInt8.le_iff_toNat_le, UInt8.reduceToNat] at hlow
    rw [Option.some.injEq] at hd
    omega
  · simp only [UInt8.le_iff_toNat_le, UInt8.reduceToNat] at hhigh
    rw [Option.some.injEq] at hd
    omega

/-- The decimal digits at the start of a text that goes on with something else. -/
theorem readDigits_digits {ds : List ℕ} (hds : Digits ds) {t : Bytes}
    (ht : ∀ c ∈ t.head?, isdigit c = false) (acc : ℕ) :
    readDigits 10 (digitText ds ++ t) acc = (acc * 10 ^ ds.length + decVal ds, t) := by
  induction ds generalizing acc with
  | nil =>
      rcases t with _ | ⟨c, t⟩
      · simp [digitText, readDigits]
      · show readDigits 10 (c :: t) acc = _
        unfold readDigits
        rcases hval : digitVal c with _ | d
        · simp
        · dsimp only
          rw [if_neg (digitVal_ge (ht c rfl) hval)]
          simp
  | cons d ds ih =>
      have hd : d < 10 := hds d List.mem_cons_self
      have hval : decVal (d :: ds) = d * 10 ^ ds.length + decVal ds := by
        have happ := decVal_append [d] ds
        rwa [decVal_singleton] at happ
      show readDigits 10 (digit d :: (digitText ds ++ t)) acc = _
      unfold readDigits
      rw [digitVal_digit hd]
      dsimp only
      rw [if_pos hd, ih (fun e he => hds e (List.mem_cons_of_mem d he)), hval, List.length_cons, pow_succ]
      congr 1
      ring

theorem isdigit_of_digitVal {c : UInt8} (h : digitVal c = none) : isdigit c = false := by
  unfold digitVal at h
  unfold isdigit
  rw [decide_eq_false_iff_not]
  intro hdigit
  rw [if_pos hdigit] at h
  cases h

theorem readDigits_digitText {ds : List ℕ} (hds : Digits ds) {t : Bytes} (ht : NoDigit t) (acc : ℕ) :
    readDigits 10 (digitText ds ++ t) acc = (acc * 10 ^ ds.length + decVal ds, t) :=
  readDigits_digits hds (fun c hc => isdigit_of_digitVal (ht c hc)) acc

/-- A text that can follow a number. -/
def NoNumber (t : Bytes) : Prop := NoDigit t ∧ ∀ c ∈ t.head?, c ≠ 120 ∧ c ≠ 88

theorem noNumber_nil : NoNumber [] := by
  refine ⟨noDigit_nil, ?_⟩
  intro c hc
  cases hc

theorem noNumber_dot (t : Bytes) : NoNumber (46 :: t) := by
  refine ⟨noDigit_cons (by decide) t, ?_⟩
  intro c hc
  cases hc
  decide

/-- **The numeral of a number is read as this number.** -/
theorem strtoul_dec (n : ℕ) {t : Bytes} (ht : NoNumber t) : strtoul (dec n ++ t) = (n, t) := by
  rcases Nat.eq_zero_or_pos n with rfl | hn
  · have hdigit : digitVal 48 = some 0 := by decide
    show strtoul (48 :: t) = (0, t)
    rcases t with _ | ⟨c, _ | ⟨h, t⟩⟩
    · decide
    · have hc : digitVal c = none := ht.1 c rfl
      simp [strtoul, readDigits, hc, hdigit]
    · have hc : digitVal c = none := ht.1 c rfl
      have hx := ht.2 c rfl
      simp [strtoul, readDigits, hc, hx, hdigit]
  · obtain ⟨d, ds, hds, hd⟩ := decDigits_head hn.ne'
    have hlt : d < 10 := digits_decDigits n d (by rw [hds]; exact List.mem_cons_self)
    have hzero : digit d ≠ 48 := by
      intro h
      exact hd (digit_inj hlt (by norm_num) h)
    have hread := readDigits_digitText (digits_decDigits n) ht.1 0
    rw [decVal_decDigits, Nat.zero_mul, Nat.zero_add] at hread
    have hcons : dec n ++ t = digit d :: (digitText ds ++ t) := by
      unfold dec
      rw [hds]
      rfl
    have hbase : strtoul (digit d :: (digitText ds ++ t)) = readDigits 10 (digit d :: (digitText ds ++ t)) 0
        := by
      unfold strtoul
      split
      -- A number other than zero does not start with a zero, so the base is ten.
      · rename_i h
        exact absurd (List.cons.inj h).1 hzero
      · rename_i h
        exact absurd (List.cons.inj h).1 hzero
      · rfl
    rw [hcons, hbase, ← hcons]
    exact hread

/-- Different numbers are written differently. -/
theorem dec_injective : Function.Injective dec := by
  intro m n h
  have hread := congrArg strtoul h
  have hm := strtoul_dec m noNumber_nil
  have hn := strtoul_dec n noNumber_nil
  rw [List.append_nil] at hm hn
  rw [hm, hn] at hread
  exact (Prod.mk.inj hread).1

/-! ## Addresses -/

/-- A byte of an address, counted from the lowest. -/
def octet (a : UInt32) (i : ℕ) : ℕ := a.toNat / 256 ^ i % 256

theorem octet_lt (a : UInt32) (i : ℕ) : octet a i < 256 := Nat.mod_lt _ (by norm_num)

theorem octet_le (a : UInt32) (i : ℕ) : octet a i ≤ 255 := Nat.le_of_lt_succ (octet_lt a i)

def inet_ntoa (a : UInt32) : Bytes :=
  dec (octet a 3) ++ 46 :: (dec (octet a 2) ++ 46 :: (dec (octet a 1) ++ 46 :: dec (octet a 0)))

/-- One number of `inet_aton`. -/
def inet_aton.number : Bytes → Option (ℕ × Bytes)
  | [] => none
  | c :: s =>
      if isdigit c then
        let (val, rest) := strtoul (c :: s)
        if val ≤ 0xffffffff then some (val, rest) else none
      else none

/-- The loop of `inet_aton`, with the bytes stored as a number, and one less than the bytes that
are left. -/
def inet_aton.parts : ℕ → ℕ → Bytes → Option UInt32
  | left, word, s =>
      match inet_aton.number s with
      | none => none
      | some (val, 46 :: t) =>
          match left with
          | 0 => none
          -- A number with a dot behind it is one byte, and there are at most three of these.
          | left + 1 => if val ≤ 0xff then inet_aton.parts left (word * 256 + val) t else none
      | some (val, rest) =>
          -- The last number stands for all the bytes that are left.
          if (∀ c ∈ rest.head?, isspace c) ∧ val < 256 ^ (left + 1) then
            some (UInt32.ofNat (word * 256 ^ (left + 1) + val))
          else none

/-- `inet_aton`, of a string without its terminator. -/
def inet_aton (s : Bytes) : Option UInt32 := inet_aton.parts 3 0 s

theorem number_dec {n : ℕ} (hn : n ≤ 255) {t : Bytes} (ht : NoNumber t) :
    inet_aton.number (dec n ++ t) = some (n, t) := by
  obtain ⟨c, s, hs⟩ := List.exists_cons_of_ne_nil (dec_ne_nil n)
  have hdigit : isdigit c = true := by
    have hmem := mem_dec (n := n) (c := c) (by rw [hs]; exact List.mem_cons_self)
    unfold isdigit
    rw [decide_eq_true_eq, UInt8.le_iff_toNat_le, UInt8.le_iff_toNat_le]
    exact hmem
  have hread := strtoul_dec n ht
  rw [hs, List.cons_append] at hread ⊢
  unfold inet_aton.number
  dsimp only
  rw [if_pos hdigit, hread]
  exact if_pos (by omega)

theorem parts_dot {n : ℕ} (hn : n ≤ 255) (left word : ℕ) (t : Bytes) :
    inet_aton.parts (left + 1) word (dec n ++ 46 :: t) = inet_aton.parts left (word * 256 + n) t := by
  conv_lhs => unfold inet_aton.parts
  rw [number_dec hn (noNumber_dot t)]
  exact if_pos hn

theorem parts_last {n : ℕ} (hn : n ≤ 255) (word : ℕ) :
    inet_aton.parts 0 word (dec n) = some (UInt32.ofNat (word * 256 + n)) := by
  have hnum := number_dec hn noNumber_nil
  rw [List.append_nil] at hnum
  unfold inet_aton.parts
  rw [hnum]
  dsimp only
  rw [if_pos ⟨by simp, by omega⟩]
  rfl

/-- **`inet_aton` reads what `inet_ntoa` writes.** -/
theorem inet_aton_ntoa (a : UInt32) : inet_aton (inet_ntoa a) = some a := by
  have hlt : a.toNat < 2 ^ 32 := a.toNat_lt
  have hsum : (((0 * 256 + octet a 3) * 256 + octet a 2) * 256 + octet a 1) * 256 + octet a 0
      = a.toNat := by
    unfold octet
    omega
  unfold inet_aton inet_ntoa
  rw [parts_dot (octet_le a 3), parts_dot (octet_le a 2), parts_dot (octet_le a 1),
    parts_last (octet_le a 0), hsum, UInt32.ofNat_toNat]

theorem inet_ntoa_injective : Function.Injective inet_ntoa := by
  intro a b h
  have hread := congrArg inet_aton h
  rw [inet_aton_ntoa, inet_aton_ntoa] at hread
  exact Option.some_injective _ hread

/-- An address is written with digits and dots. -/
theorem mem_inet_ntoa {a : UInt32} {c : UInt8} (h : c ∈ inet_ntoa a) : 46 ≤ c.toNat ∧ c.toNat ≤ 57 := by
  have hdec : ∀ n, c ∈ dec n → 46 ≤ c.toNat ∧ c.toNat ≤ 57 := by
    intro n hc
    have hmem := mem_dec hc
    omega
  have hdot : c = 46 → 46 ≤ c.toNat ∧ c.toNat ≤ 57 := by
    rintro rfl
    decide
  simp only [inet_ntoa, List.mem_append, List.mem_cons] at h
  rcases h with h | h | h | h | h | h | h
  · exact hdec _ h
  · exact hdot h
  · exact hdec _ h
  · exact hdot h
  · exact hdec _ h
  · exact hdot h
  · exact hdec _ h

theorem not_mem_inet_ntoa {c : UInt8} (hc : c.toNat < 46) (a : UInt32) : c ∉ inet_ntoa a := by
  intro h
  have hmem := mem_inet_ntoa h
  omega

theorem nulFree_inet_ntoa (a : UInt32) : NulFree (inet_ntoa a) := by
  rintro c hc rfl
  exact not_mem_inet_ntoa (by decide) a hc

theorem inet_ntoa_length_le (a : UInt32) : (inet_ntoa a).length ≤ 15 := by
  have hoctet : ∀ i, (dec (octet a i)).length ≤ 3 := by
    intro i
    exact dec_length_le (k := 2) ((octet_lt a i).trans (by norm_num))
  have h3 := hoctet 3
  have h2 := hoctet 2
  have h1 := hoctet 1
  have h0 := hoctet 0
  unfold inet_ntoa
  simp only [List.length_append, List.length_cons]
  omega

end TestCore.Lib
