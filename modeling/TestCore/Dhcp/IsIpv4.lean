/-
Addresses as the web interface sends them (`IsIpv4`).

The function counts the dots, and then looks at what is between them: no zero in front of a digit,
a value from 0 to 255, and in front not 0. It gets the value from `atoi`, which reads the digits that
a part begins with, behind blanks and a sign, and forgets what does not fit an `int`. So it
accepts every address, and other texts as well. `ByteText` is the grammar of what passes for a byte,
and `WrongText` that of the texts that are accepted and should not be (`isIpv4_right_iff`).
-/
import TestCore.Dhcp.Netmask

set_option autoImplicit false

namespace TestCore.Dhcp

open TestCore.Lib

/-! ## The function -/

/-- `ptr[0] == '0' && isdigit(ptr[1])`. -/
def leadingZero (ptr : Bytes) : Bool := ptr.head? = some 48 && ptr.tail.head?.any isdigit

/-- `atoi`. -/
def partVal (long64 : Bool) (ptr : Bytes) : ℤ := atoiLong (longBits long64 - 1) ptr

/-- The loop over the parts that `strtok` finds. -/
def IsIpv4.loop (long64 : Bool) : (count : ℕ) → List Bytes → Bool
  | count, [] => count = 4
  | count, ptr :: rest =>
      if leadingZero ptr then false
      else
        let a := partVal long64 ptr
        if count + 1 = 1 ∧ a = 0 then false
        else if a < 0 ∨ 255 < a then false
        else IsIpv4.loop long64 (count + 1) rest

def IsIpv4 (long64 : Bool) (str : Bytes) : Bool :=
  if str.count 46 ≠ 3 then false else IsIpv4.loop long64 0 (strtok (· = 46) str)

/-! ## What is asked for -/

/-- Four decimal numbers from 0 to 255 with single dots between them, the first of them not 0. -/
def Ipv4Text (str : Bytes) : Prop := ∃ a : UInt32, str = inet_ntoa a ∧ octet a 3 ≠ 0

/-! ## What passes for it -/

/-- What becomes of a number in an `int`. A `long` of 32 bits is cut at its bounds, and these are no
bytes; of one of 64 bits the low 32 bits are taken, and its bounds have -1 and 0 there. -/
def Reads (long64 neg : Bool) (n v : ℕ) : Prop :=
  match long64, neg with
  | false, false => n = v
  | false, true => n = 0 ∧ v = 0
  | true, false => n < 2 ^ 63 ∧ n % 2 ^ 32 = v
  | true, true => (min n (2 ^ 63) + v) % 2 ^ 32 = 0

/-- A text that passes for the byte `v`: a number that is `v` in an `int`, which may have blanks and
a sign before it and anything behind it; or a text without a number, which passes for 0. -/
inductive ByteText (long64 : Bool) : (v : ℕ) → Bytes → Prop
  | number {neg : Bool} {n v : ℕ} {text : Bytes} (hscan : ScanText (some (neg, n)) text)
      (hreads : Reads long64 neg n v) (hv : v ≤ 255)
      (hzero : ∀ rest, text = 48 :: rest → DigitsEnd rest) : ByteText long64 v text
  | nothing {text : Bytes} (hscan : ScanText none text) : ByteText long64 0 text

/-- A text of four parts that pass for bytes, the first not for 0, and one of which is no numeral
of a byte. -/
structure WrongText (long64 : Bool) (parts : List Bytes) : Prop where
  length : parts.length = 4
  passing : ∀ p ∈ parts, p ≠ [] ∧ 46 ∉ p ∧ ∃ v, ByteText long64 v p
  first : ∀ p ∈ parts.head?, ¬ ByteText long64 0 p
  wrong : ∃ p ∈ parts, ∀ n ≤ 255, p ≠ dec n

/-! ## What it accepts -/

/-- A part that the function takes for a byte. -/
def Passes (long64 : Bool) (ptr : Bytes) : Prop :=
  leadingZero ptr = false ∧ 0 ≤ partVal long64 ptr ∧ partVal long64 ptr ≤ 255

/-- Four parts that it takes for bytes, the first one not for 0. -/
def PassesParts (long64 : Bool) (str : Bytes) : Prop :=
  str.count 46 = 3 ∧ (strtok (· = 46) str).length = 4 ∧
    (∀ ptr ∈ strtok (· = 46) str, Passes long64 ptr) ∧
    ∀ ptr ∈ (strtok (· = 46) str).head?, partVal long64 ptr ≠ 0

theorem loop_eq_true_iff (long64 : Bool) (count : ℕ) (parts : List Bytes) :
    IsIpv4.loop long64 count parts = true ↔
      count + parts.length = 4 ∧ (∀ ptr ∈ parts, Passes long64 ptr) ∧
        (count = 0 → ∀ ptr ∈ parts.head?, partVal long64 ptr ≠ 0) := by
  induction parts generalizing count with
  | nil => simp [IsIpv4.loop]
  | cons ptr rest ih =>
      have hall : (∀ p ∈ ptr :: rest, Passes long64 p) ↔
          Passes long64 ptr ∧ ∀ p ∈ rest, Passes long64 p := List.forall_mem_cons
      have hlen : count + (ptr :: rest).length = count + 1 + rest.length := by
        rw [List.length_cons]
        omega
      rw [hall, hlen]
      unfold IsIpv4.loop
      dsimp only
      by_cases hzero : leadingZero ptr = true
      · rw [if_pos hzero]
        exact iff_of_false Bool.false_ne_true (fun h => by simp [h.2.1.1.1] at hzero)
      rw [if_neg hzero]
      by_cases hfirst : count + 1 = 1 ∧ partVal long64 ptr = 0
      · rw [if_pos hfirst]
        exact iff_of_false Bool.false_ne_true
          (fun h => h.2.2 (by omega) ptr rfl hfirst.2)
      rw [if_neg hfirst]
      by_cases hrange : partVal long64 ptr < 0 ∨ 255 < partVal long64 ptr
      · rw [if_pos hrange]
        refine iff_of_false Bool.false_ne_true (fun h => ?_)
        have hpass := h.2.1.1.2
        omega
      · rw [if_neg hrange, ih]
        have hpass : Passes long64 ptr := ⟨by simpa using hzero, by omega, by omega⟩
        constructor
        · rintro ⟨hcount, hrest, -⟩
          refine ⟨hcount, ⟨hpass, hrest⟩, ?_⟩
          rintro rfl p hp
          cases hp
          exact fun h => hfirst ⟨rfl, h⟩
        · rintro ⟨hcount, ⟨-, hrest⟩, -⟩
          exact ⟨hcount, hrest, nofun⟩

theorem isIpv4_iff (long64 : Bool) (str : Bytes) : IsIpv4 long64 str = true ↔ PassesParts long64 str := by
  unfold IsIpv4 PassesParts
  by_cases hcount : str.count 46 = 3
  · rw [if_neg (not_not.mpr hcount), loop_eq_true_iff, Nat.zero_add]
    simp [hcount]
  · rw [if_pos hcount]
    exact iff_of_false Bool.false_ne_true (fun h => hcount h.1)

/-! ### Bytes -/

theorem bmod_eq_iff {x : ℤ} {v : ℕ} (hv : v ≤ 255) : x.bmod (2 ^ 32) = v ↔ x % 2 ^ 32 = v := by
  rw [Int.bmod_def]
  push_cast
  split_ifs
  · rfl
  · omega

/-- What `atoi` makes of a number. -/
theorem reads_iff (long64 neg : Bool) {n v : ℕ} (hv : v ≤ 255) :
    (clampInt (longBits long64 - 1) (if neg then -(n : ℤ) else n)).bmod (2 ^ 32) = v ↔
      Reads long64 neg n v := by
  rw [bmod_eq_iff hv]
  unfold clampInt Reads longBits
  cases long64
  · cases neg
    · simp only [Bool.false_eq_true, if_false]
      omega
    · simp only [Bool.false_eq_true, if_false, if_true]
      omega
  · cases neg
    · simp only [Bool.false_eq_true, if_false, if_true]
      omega
    · simp only [if_true]
      omega

theorem leadingZero_eq_false_iff {ptr : Bytes} :
    leadingZero ptr = false ↔ ∀ rest, ptr = 48 :: rest → DigitsEnd rest := by
  unfold leadingZero DigitsEnd
  rcases ptr with _ | ⟨c, rest⟩
  · simp
  · by_cases hc : c = 48
    · subst hc
      rcases rest with _ | ⟨d, rest⟩
      · simp
      · simp
    · simp [hc]

/-- **The texts that pass for a byte** are those of the grammar. -/
theorem byteText_iff {long64 : Bool} {v : ℕ} {ptr : Bytes} :
    ByteText long64 v ptr ↔ Passes long64 ptr ∧ partVal long64 ptr = v := by
  constructor
  · intro h
    cases h with
    | number hscan hreads hv hzero =>
        have hval : partVal long64 ptr = v := by
          unfold partVal atoiLong
          rw [hscan.strtolDec_eq]
          exact (reads_iff long64 _ hv).mpr hreads
        refine ⟨⟨leadingZero_eq_false_iff.mpr hzero, ?_, ?_⟩, hval⟩
        · omega
        · omega
    | nothing hscan =>
        have hval : partVal long64 ptr = 0 := by
          unfold partVal atoiLong
          rw [hscan.strtolDec_eq]
          rfl
        have hlead : leadingZero ptr = false := by
          apply leadingZero_eq_false_iff.mpr
          rintro rest rfl
          -- With a zero in front there is a number.
          have hsome := hscan.scanNumber_eq
          simp [scanNumber, isspace, isdigit] at hsome
        refine ⟨⟨hlead, ?_, ?_⟩, by rw [hval]; rfl⟩
        · omega
        · omega
  · rintro ⟨⟨hlead, hlow, hhigh⟩, hval⟩
    have hv : v ≤ 255 := by omega
    obtain ⟨r, hscan⟩ := exists_scanText ptr
    have hparsed := hval
    unfold partVal atoiLong at hparsed
    rw [hscan.strtolDec_eq] at hparsed
    rcases r with _ | ⟨neg, n⟩
    · have hzero : v = 0 := by
        rw [Option.elim_none, Int.zero_bmod] at hparsed
        omega
      rw [hzero]
      exact ByteText.nothing hscan
    · exact ByteText.number hscan ((reads_iff long64 neg hv).mp hparsed) hv
        (leadingZero_eq_false_iff.mp hlead)

/-- The numeral of a byte passes for it. -/
theorem byteText_dec (long64 : Bool) {n : ℕ} (hn : n ≤ 255) : ByteText long64 n (dec n) := by
  obtain ⟨c, s, hs, -, hzero⟩ := dec_cons n
  have hne : decDigits n ≠ [] := fun h => dec_ne_nil n (congrArg digitText h)
  have hscan := @ScanText.number [] [] [] (decDigits n) nofun (by simp) (digits_decDigits n) hne nofun
  rw [decVal_decDigits, List.append_nil] at hscan
  refine ByteText.number hscan ?_ hn ?_
  · unfold Reads
    cases long64
    · rfl
    · exact ⟨by omega, by omega⟩
  · intro rest hrest
    have hcons := hs.symm.trans hrest
    rw [List.cons.injEq] at hcons
    rw [← hcons.2, (hzero hcons.1).2]
    exact nofun

theorem passes_dec (long64 : Bool) {n : ℕ} (hn : n ≤ 255) :
    Passes long64 (dec n) ∧ partVal long64 (dec n) = n :=
  byteText_iff.mp (byteText_dec long64 hn)

/-! ### Parts -/

theorem strtok_dec (n : ℕ) : strtok (· = 46) (dec n) = [dec n] := by
  refine strtok_singleton _ (fun c hc => ?_) (dec_ne_nil n)
  rw [decide_eq_false_iff_not]
  rintro rfl
  exact not_mem_dec (by decide) n hc

theorem strtok_ntoa (a : UInt32) : strtok (· = 46) (inet_ntoa a) =
    [dec (octet a 3), dec (octet a 2), dec (octet a 1), dec (octet a 0)] := by
  have hdot : ∀ n t, strtok (· = 46) (dec n ++ 46 :: t) = [dec n] ++ strtok (· = 46) t := by
    intro n t
    rw [strtok_append_cons (· = 46) (dec n) t (d := 46) (by decide), strtok_dec]
  unfold inet_ntoa
  rw [hdot, hdot, hdot, strtok_dec]
  rfl

theorem count_ntoa (a : UInt32) : (inet_ntoa a).count 46 = 3 := by
  have hdec : ∀ n, (dec n).count 46 = 0 := fun n => List.count_eq_zero.mpr (not_mem_dec (by decide) n)
  unfold inet_ntoa
  simp [List.count_append, hdec]

/-- Four numerals with dots between them are an address. -/
theorem inet_ntoa_of_parts {n3 n2 n1 n0 : ℕ} (h3 : n3 ≤ 255) (h2 : n2 ≤ 255) (h1 : n1 ≤ 255)
    (h0 : n0 ≤ 255) : ∃ a : UInt32, octet a 3 = n3 ∧
      dec n3 ++ 46 :: (dec n2 ++ 46 :: (dec n1 ++ 46 :: dec n0)) = inet_ntoa a := by
  have hnat : (UInt32.ofNat (n3 * 2 ^ 24 + n2 * 2 ^ 16 + n1 * 2 ^ 8 + n0)).toNat =
      n3 * 2 ^ 24 + n2 * 2 ^ 16 + n1 * 2 ^ 8 + n0 := by
    rw [UInt32.toNat_ofNat']
    omega
  obtain ⟨ho0, ho1, ho2, ho3⟩ := octets_of_toNat (by omega) (by omega) (by omega) hnat
  refine ⟨_, ho3, ?_⟩
  unfold inet_ntoa
  rw [ho0, ho1, ho2, ho3]

/-- Every address is accepted. -/
theorem Ipv4Text.passes {long64 : Bool} {str : Bytes} (h : Ipv4Text str) : PassesParts long64 str := by
  obtain ⟨a, rfl, hfirst⟩ := h
  refine ⟨count_ntoa a, ?_, ?_, ?_⟩
  · rw [strtok_ntoa]
    rfl
  · rw [strtok_ntoa]
    intro ptr hptr
    simp only [List.mem_cons, List.not_mem_nil, or_false] at hptr
    rcases hptr with rfl | rfl | rfl | rfl <;> exact (passes_dec long64 (octet_le a _)).1
  · rw [strtok_ntoa]
    rintro ptr hptr
    cases hptr
    rw [(passes_dec long64 (octet_le a 3)).2]
    omega

theorem Ipv4Text.numerals {str : Bytes} (h : Ipv4Text str) :
    ∀ ptr ∈ strtok (· = 46) str, ∃ n ≤ 255, ptr = dec n := by
  obtain ⟨a, rfl, -⟩ := h
  rw [strtok_ntoa]
  intro ptr hptr
  simp only [List.mem_cons, List.not_mem_nil, or_false] at hptr
  rcases hptr with rfl | rfl | rfl | rfl <;> exact ⟨_, octet_le a _, rfl⟩

/-- Four numerals of bytes that pass are an address. -/
theorem PassesParts.ipv4Text {long64 : Bool} {str : Bytes} (h : PassesParts long64 str)
    (hdec : ∀ ptr ∈ strtok (· = 46) str, ∃ n ≤ 255, ptr = dec n) : Ipv4Text str := by
  obtain ⟨hcount, hlen, hpass, hfirst⟩ := h
  have hfull := (strtok_full (46 : UInt8) str).2 (by rw [hlen, hcount])
  obtain ⟨p3, p2, p1, p0, hparts⟩ := List.length_eq_four.mp hlen
  rw [hparts] at hdec hfull hfirst
  obtain ⟨n3, h3, rfl⟩ := hdec p3 (by simp)
  obtain ⟨n2, h2, rfl⟩ := hdec p2 (by simp)
  obtain ⟨n1, h1, rfl⟩ := hdec p1 (by simp)
  obtain ⟨n0, h0, rfl⟩ := hdec p0 (by simp)
  obtain ⟨a, ha, htext⟩ := inet_ntoa_of_parts h3 h2 h1 h0
  refine ⟨a, ?_, ?_⟩
  · rw [← htext, ← hfull]
    simp [List.intercalate_cons_cons]
  · have hne := hfirst _ rfl
    rw [(passes_dec long64 h3).2] at hne
    omega

/-- Four parts with dots between them are those that `strtok` finds. -/
theorem strtok_intercalate {parts : List Bytes} (hlen : parts.length = 4)
    (hparts : ∀ p ∈ parts, p ≠ [] ∧ 46 ∉ p) :
    strtok (· = 46) ([46].intercalate parts) = parts ∧ ([46].intercalate parts).count 46 = 3 := by
  obtain ⟨p3, p2, p1, p0, rfl⟩ := List.length_eq_four.mp hlen
  have hpart : ∀ p ∈ [p3, p2, p1, p0], strtok (· = 46) p = [p] ∧ p.count 46 = 0 := by
    intro p hp
    obtain ⟨hne, hdot⟩ := hparts p hp
    refine ⟨strtok_singleton _ (fun c hc => ?_) hne, List.count_eq_zero.mpr hdot⟩
    rw [decide_eq_false_iff_not]
    rintro rfl
    exact hdot hc
  obtain ⟨h3, h2, h1, h0⟩ : (strtok (· = 46) p3 = [p3] ∧ p3.count 46 = 0) ∧
      (strtok (· = 46) p2 = [p2] ∧ p2.count 46 = 0) ∧ (strtok (· = 46) p1 = [p1] ∧ p1.count 46 = 0) ∧
      (strtok (· = 46) p0 = [p0] ∧ p0.count 46 = 0) := by simpa using hpart
  have htext : [46].intercalate [p3, p2, p1, p0] = p3 ++ 46 :: (p2 ++ 46 :: (p1 ++ 46 :: p0)) := by
    simp [List.intercalate_cons_cons]
  rw [htext]
  constructor
  · rw [strtok_append_cons _ _ _ (by decide), strtok_append_cons _ _ _ (by decide),
      strtok_append_cons _ _ _ (by decide), h3.1, h2.1, h1.1, h0.1]
    rfl
  · simp [List.count_append, h3.2, h2.2, h1.2, h0.2]

/-- **When the function is right**: exactly unless the text is a wrong one of four parts with dots
between them. -/
theorem isIpv4_right_iff (long64 : Bool) (str : Bytes) :
    (IsIpv4 long64 str = true ↔ Ipv4Text str) ↔
      ¬ ∃ parts, WrongText long64 parts ∧ str = [46].intercalate parts := by
  rw [isIpv4_iff]
  constructor
  · rintro h ⟨parts, hwrong, rfl⟩
    obtain ⟨hparts, hcount⟩ := strtok_intercalate hwrong.length
      fun p hp => ⟨(hwrong.passing p hp).1, (hwrong.passing p hp).2.1⟩
    have hpass : PassesParts long64 ([46].intercalate parts) := by
      refine ⟨hcount, ?_, ?_, ?_⟩
      · rw [hparts]
        exact hwrong.length
      · rw [hparts]
        intro p hp
        obtain ⟨-, -, v, hv⟩ := hwrong.passing p hp
        exact (byteText_iff.mp hv).1
      · rw [hparts]
        intro p hp hzero
        obtain ⟨-, -, v, hv⟩ := hwrong.passing p (List.mem_of_mem_head? hp)
        exact hwrong.first p hp (byteText_iff.mpr ⟨(byteText_iff.mp hv).1, by rw [hzero]; rfl⟩)
    obtain ⟨p, hp, hno⟩ := hwrong.wrong
    have hnumerals := (h.mp hpass).numerals
    rw [hparts] at hnumerals
    obtain ⟨n, hn, heq⟩ := hnumerals p hp
    exact hno n hn heq
  · intro hno
    refine ⟨fun hpass => hpass.ipv4Text ?_, Ipv4Text.passes⟩
    by_contra hnot
    push Not at hnot
    obtain ⟨hcount, hlen, hall, hfirst⟩ := hpass
    refine hno ⟨strtok (· = 46) str, ⟨hlen, ?_, ?_, hnot⟩, ?_⟩
    · intro p hp
      obtain ⟨hne, -, hdot⟩ := strtok_mem _ hp
      refine ⟨hne, fun hmem => by simpa using hdot 46 hmem, (partVal long64 p).toNat, ?_⟩
      have hpos := (hall p hp).2.1
      exact byteText_iff.mpr ⟨hall p hp, by omega⟩
    · intro p hp hzero
      exact hfirst p hp (byteText_iff.mp hzero).2
    · exact ((strtok_full (46 : UInt8) str).2 (by rw [hlen, hcount])).symm

/-- What follows the digits of a part is not looked at. -/
theorem isIpv4_accepts : ¬ ∀ (long64 : Bool) (str : Bytes), IsIpv4 long64 str = true ↔ Ipv4Text str := by
  intro h
  have haccept : IsIpv4 true (bytes "1.2.3.4x") = true := by decide
  obtain ⟨a, ha, -⟩ := (h true (bytes "1.2.3.4x")).mp haccept
  have hmem : (120 : UInt8) ∈ inet_ntoa a := by
    rw [← ha]
    decide
  have hrange := mem_inet_ntoa hmem
  revert hrange
  decide

end TestCore.Dhcp
