/-
What the analysis of an RMC sentence lets through.

`api_nmea0183_rmc_analysis` looks at the checksum before it looks at any field. Its helpers have 0xFF
both for "not there" and as a value: `nmea0183_star_Pos` as a position, `nmea0183_get_checksum` as a
sum. With the star among the first 128 characters neither can be taken for the other. A position is
at most 128, and a sum of characters that the search has passed is below 128.
-/
import TestCore.Gps.Rmc

set_option autoImplicit false

namespace TestCore.Gps

open TestCore.Lib

/-! ## The two halves of the analysis -/

/-- The half in front of the fields: whether it goes on to them. There is no answer if the loop of
`bcc_checksum` does not end. -/
def rmcGate (buf : Bytes) (nRxLen : ℕ) : Option Bool :=
  let p1 := buf.take nRxLen
  let posx := nmea0183_star_Pos p1 1 nRxLen
  if posx ≠ 0xFF then
    (bcc_checksum (p1.drop 1) ((posx + 254) % 256)).map fun bcc =>
      decide (nmea0183_get_checksum (p1.drop posx) = bcc)
  else some false

/-- The fields, one after the other, of the copy `p1`. -/
def rmcDecode (m : Arith) (p1 : Bytes) (nRxLen : ℕ) : NMEA0183_Gps :=
  let d := utcTime m p1 nRxLen {}
  let d := posMode p1 nRxLen d
  let d := latitude m p1 nRxLen d
  let d := southNorth p1 nRxLen d
  let d := longitude m p1 nRxLen d
  let d := eastWest p1 nRxLen d
  utcDate m p1 nRxLen d

theorem rmc_analysis_eq (m : Arith) (buf : Bytes) (nRxLen : ℕ) :
    api_nmea0183_rmc_analysis m buf nRxLen =
      (rmcGate buf nRxLen).map fun ok => if ok then rmcDecode m (buf.take nRxLen) nRxLen else {} := by
  unfold api_nmea0183_rmc_analysis rmcGate rmcDecode
  dsimp only
  split_ifs with hpos
  · rw [Option.map_map]
    refine Option.map_congr fun bcc _ => ?_
    by_cases hsum : nmea0183_get_checksum ((buf.take nRxLen).drop
        (nmea0183_star_Pos (buf.take nRxLen) 1 nRxLen)) = bcc
    · simp [hsum]
    · simp [hsum]
  · rfl

/-! ## Characters -/

/-- A signed character lies outside ' ' to 'z' if the byte does. -/
theorem outside_eq_false_iff (c : UInt8) : outside c = false ↔ 32 ≤ c ∧ c ≤ 122 := by
  have hall : ∀ n : Fin 256, outside (UInt8.ofNat n) = false ↔
      32 ≤ UInt8.ofNat n ∧ UInt8.ofNat n ≤ 122 := by decide +kernel
  have hc := hall ⟨c.toNat, c.toNat_lt⟩
  rwa [UInt8.ofNat_toNat] at hc

theorem exists_outside {l : Bytes} (h : ¬ ∀ c ∈ l, 32 ≤ c ∧ c ≤ 122) : ∃ c ∈ l, outside c = true := by
  by_contra hnone
  refine h fun c hc => (outside_eq_false_iff c).mp ?_
  by_contra hc'
  exact hnone ⟨c, hc, by simpa using hc'⟩

theorem xor_lt_128 {l : Bytes} (h : ∀ c ∈ l, c < 128) {x : UInt8} (hx : x < 128) :
    l.foldl (· ^^^ ·) x < 128 := by
  induction l generalizing x with
  | nil => exact hx
  | cons c l ih =>
      have hc : c.toNat < 2 ^ 7 := UInt8.lt_iff_toNat_lt.mp (h c List.mem_cons_self)
      have hx : x.toNat < 2 ^ 7 := UInt8.lt_iff_toNat_lt.mp hx
      refine ih (fun e he => h e (List.mem_cons_of_mem c he)) (UInt8.lt_iff_toNat_lt.mpr ?_)
      rw [UInt8.toNat_xor]
      exact Nat.xor_lt_two_pow hx hc

/-! ## The digits of a checksum -/

theorem hexDigit_eq_some {c d : UInt8} (h : hexDigit c = some d) : c = hexChar d ∧ d < 16 := by
  unfold hexDigit at h
  unfold hexChar
  split_ifs at h with hdec hupper
  · cases h
    grind
  · cases h
    grind

/-- The halves of a byte that is put together from two digits. -/
theorem halves_of_digits {x y : UInt8} (hx : x < 16) (hy : y < 16) :
    (x <<< 4 ||| y) >>> 4 = x ∧ (x <<< 4 ||| y) &&& 15 = y := by
  have hall : ∀ a b : Fin 16, let x := UInt8.ofNat a; let y := UInt8.ofNat b
      (x <<< 4 ||| y) >>> 4 = x ∧ (x <<< 4 ||| y) &&& 15 = y := by decide +kernel
  have hxy := hall ⟨x.toNat, UInt8.lt_iff_toNat_lt.mp hx⟩ ⟨y.toNat, UInt8.lt_iff_toNat_lt.mp hy⟩
  rwa [UInt8.ofNat_toNat, UInt8.ofNat_toNat] at hxy

/-- **Only its own two digits are read as a sum**, unless the sum is 0xFF. -/
theorem get_checksum_eq_iff {b : Bytes} (hb : 2 ≤ b.length) {v : UInt8} (hv : v ≠ 0xFF) :
    nmea0183_get_checksum b = v ↔ b.take 2 = hexText v := by
  match b with
  | c :: e :: b =>
    constructor
    · intro hsum
      unfold nmea0183_get_checksum at hsum
      split at hsum
      case h_1 x y hx hy =>
        obtain ⟨hc, hxlt⟩ := hexDigit_eq_some hx
        obtain ⟨he, hylt⟩ := hexDigit_eq_some hy
        obtain ⟨hhigh, hlow⟩ := halves_of_digits hxlt hylt
        rw [← hsum, hexText, hhigh, hlow, ← hc, ← he]
        rfl
      case h_2 => exact absurd hsum.symm hv
    · intro htake
      rw [← List.take_append_drop 2 (c :: e :: b), htake]
      exact get_checksum_hexText v _

/-! ## The gate -/

/-- What the analysis asks of the text before the star and of what follows it: the characters lie
between ' ' and 'z', and the two behind the star are the digits of the sum of those between the
first one and the star. -/
def Checked (pre post : Bytes) : Prop :=
  (∀ c ∈ pre, 32 ≤ c ∧ c ≤ 122) ∧ post.take 2 = hexText ((pre.drop 1).foldl (· ^^^ ·) 0)

theorem rmcGate_inside {pre post : Bytes} (hstar : 42 ∉ pre) (hpos : 1 ≤ pre.length)
    (hlen : pre.length ≤ 127) (hpost : 2 ≤ post.length)
    (hmax : (pre ++ 42 :: post).length < 65536) (hin : ∀ c ∈ pre, 32 ≤ c ∧ c ≤ 122) :
    rmcGate (pre ++ 42 :: post) (pre ++ 42 :: post).length
      = some (decide (post.take 2 = hexText ((pre.drop 1).foldl (· ^^^ ·) 0))) := by
  have hchars : ∀ c ∈ pre, outside c = false ∧ c ≠ 42 := fun c hc =>
    ⟨(outside_eq_false_iff c).mpr (hin c hc), fun h => hstar (h ▸ hc)⟩
  have hposx := star_pos hchars hmax
  rw [Nat.mod_eq_of_lt (by omega)] at hposx
  have hdrop : (pre ++ 42 :: post).drop (pre.length + 1) = post := by
    rw [← List.drop_drop, List.drop_left]
    rfl
  -- The sum has no highest bit, so it is not 0xFF.
  have hsum : (pre.drop 1).foldl (· ^^^ ·) 0 ≠ (0xFF : UInt8) := by
    have hlt := xor_lt_128 (l := pre.drop 1) (x := 0)
      (fun c hc => UInt8.lt_of_le_of_lt (hin c (List.mem_of_mem_drop hc)).2 (by decide)) (by decide)
    intro heq
    rw [heq] at hlt
    exact absurd hlt (by decide)
  unfold rmcGate
  dsimp only
  rw [List.take_length, hposx, if_pos (by omega), hdrop, bcc_between hpos (by omega), Option.map_some,
    decide_eq_decide.mpr (get_checksum_eq_iff hpost hsum)]

theorem rmcGate_outside {pre post : Bytes} (hstar : 42 ∉ pre)
    (hmax : (pre ++ 42 :: post).length < 65536) (hout : ¬ ∀ c ∈ pre, 32 ≤ c ∧ c ≤ 122) :
    rmcGate (pre ++ 42 :: post) (pre ++ 42 :: post).length = some false := by
  have hposx : nmea0183_star_Pos (pre ++ 42 :: post) 1 (pre ++ 42 :: post).length = 0xFF :=
    nmeaPos_stop hstar (exists_outside hout) Nat.one_ne_zero (by simp) hmax
  unfold rmcGate
  dsimp only
  rw [List.take_length, hposx, if_neg (by simp)]

/-- **The checksum gate.** With the star at index 1 to 127 and two characters behind it, the analysis
goes on to the fields if the sentence is `Checked`, and otherwise leaves the record empty. -/
theorem rmc_checksum_gate (m : Arith) {pre post : Bytes} (hstar : 42 ∉ pre) (hpos : 1 ≤ pre.length)
    (hlen : pre.length ≤ 127) (hpost : 2 ≤ post.length)
    (hmax : (pre ++ 42 :: post).length < 65536) :
    (rmcGate (pre ++ 42 :: post) (pre ++ 42 :: post).length = some true ↔ Checked pre post) ∧
    (Checked pre post →
      api_nmea0183_rmc_analysis m (pre ++ 42 :: post) (pre ++ 42 :: post).length
        = some (rmcDecode m (pre ++ 42 :: post) (pre ++ 42 :: post).length)) ∧
    (¬ Checked pre post →
      api_nmea0183_rmc_analysis m (pre ++ 42 :: post) (pre ++ 42 :: post).length = some {}) := by
  rw [rmc_analysis_eq, List.take_length]
  by_cases hin : ∀ c ∈ pre, 32 ≤ c ∧ c ≤ 122
  · rw [rmcGate_inside hstar hpos hlen hpost hmax hin]
    by_cases hdigits : post.take 2 = hexText ((pre.drop 1).foldl (· ^^^ ·) 0)
    · have hcheck : Checked pre post := ⟨hin, hdigits⟩
      rw [decide_eq_true hdigits]
      simp [hcheck]
    · have hcheck : ¬ Checked pre post := fun h => hdigits h.2
      rw [decide_eq_false hdigits]
      simp [hcheck]
  · have hcheck : ¬ Checked pre post := fun h => hin h.1
    rw [rmcGate_outside hstar hmax hin]
    simp [hcheck]

/-- What a receiver sends that has no position yet. -/
theorem rmc_checksum_gate_no_position :
    api_nmea0183_rmc_analysis arith32 (bytes "$GPRMC,,V,,,,,,,,,,N" ++ 42 :: bytes "53") 23
      = some (rmcDecode arith32 (bytes "$GPRMC,,V,,,,,,,,,,N" ++ 42 :: bytes "53") 23) :=
  (rmc_checksum_gate arith32 (by decide +kernel) (by decide +kernel) (by decide +kernel)
    (by decide +kernel) (by decide +kernel)).2.1 ⟨by decide +kernel, by decide +kernel⟩

end TestCore.Gps
