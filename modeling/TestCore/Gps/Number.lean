/-
The number in a field of a sentence: when `NMEA_Str2num` of `gps_uart.c` reads it right.

The scan counts the character behind a point before it looks at it. So if a field ends with its point,
the mark behind the field is taken for a decimal and the scan goes on in the next field. The counters
of the digits have 8 bits.

The step that is to round has no effect. It looks at the decimal that is dropped only if there are
fewer decimals than asked for, and then none is dropped: what it looks at is the mark behind the field.
So the number is right if the first decimal that is dropped is below 5 (`NMEA_Str2num_right_iff`).
-/
import TestCore.Gps.Scan

set_option autoImplicit false

namespace TestCore.Gps

open TestCore.Lib

/-! ## What is asked for -/

/-- The arithmetic is right for negative numbers too. -/
structure Arith.Signed32 (m : Arith) : Prop extends m.Right32 where
  neg : ∀ n : ℕ, n < 2 ^ 31 → m.int (-n) = -n

/-- The number with so many decimals, rounded half up at the first one that is dropped, without its
sign. -/
def NumField.scaled (f : NumField) (cMaxFlen : ℕ) : ℕ :=
  decVal (f.digits ++ f.places.take cMaxFlen) + if 5 ≤ f.places.getD cMaxFlen 0 then 1 else 0

def NumField.signed (f : NumField) (n : ℕ) : ℤ := if f.minus then -n else n

/-- The offsets of the characters that `NMEA_Str2num` looks at: in the scan, in the two sums, and to
round. -/
def Str2numReads (p1 : Bytes) (pos : ℕ) (cMaxFlen : ℤ) (i : ℤ) : Prop :=
  let s := NMEA_Str2num.scan p1 (p1.length + 1) pos {}
  let buf : ℤ := if s.minus then pos + 1 else pos
  let flen := if s.flen > cMaxFlen then cMaxFlen else s.flen
  (∃ t, Visits (NMEA_Str2num.turn p1) (pos, {}) t ∧ (i = t.1 ∨ i = (t.2.sign p1 t.1).1)) ∨
    (∃ k : ℕ, k < s.ilen ∧ i = buf + k) ∨
    (∃ k : ℕ, k < flen ∧ i = buf + s.ilen + 1 + k) ∨
    (flen < cMaxFlen ∧ 0 < flen ∧ i = buf + s.ilen + flen + 1)

/-- The field at `pos` is read right, and nothing behind the mark that ends it. -/
structure NumberRight (m : Arith) (p1 : Bytes) (pos : ℕ) (f : NumField) (cMaxFlen : ℕ) : Prop where
  reads : ∀ i, Str2numReads p1 pos cMaxFlen i → i ≤ pos + f.text.length
  dx : (NMEA_Str2num m p1 pos cMaxFlen).dx = (min f.places.length cMaxFlen : ℕ)
  res : (NMEA_Str2num m p1 pos cMaxFlen).res = f.signed (f.scaled cMaxFlen)

/-- There is a decimal if there is a point; and if one is dropped, the first of these is below 5, and
the counter of the decimals does not show fewer than are asked for. -/
def DecimalsRight (f : NumField) (cMaxFlen : ℕ) : Prop :=
  f.decimals ≠ some [] ∧
    (f.places.length ≤ cMaxFlen ∨ f.places.getD cMaxFlen 0 < 5 ∧ cMaxFlen ≤ i8 f.places.length)

/-! ## The number -/

section Field

variable {p1 : Bytes} {pos : ℕ} {f : NumField} (hf : f.Valid) {c : UInt8} (hc : Ends c) {t : Bytes}
  (h : p1.drop pos = f.text ++ c :: t)
  {m : Arith} (hm : m.Signed32) {cMaxFlen : ℕ}

include hf hc h

/-- How many decimals are taken. -/
def NumField.taken (f : NumField) (cMaxFlen : ℕ) : ℕ := min f.places.length cMaxFlen

/-- The number without what is dropped. -/
def NumField.truncated (f : NumField) (cMaxFlen : ℕ) : ℕ := decVal (f.digits ++ f.places.take cMaxFlen)

omit hf hc h in
theorem flen_eq_iff (hmax : cMaxFlen < 128) (f : NumField) :
    (if f.scan.flen > cMaxFlen then (cMaxFlen : ℤ) else f.scan.flen) = f.taken cMaxFlen ↔
      f.places.length ≤ cMaxFlen ∨ cMaxFlen ≤ i8 f.places.length := by
  have hscan : f.scan.flen = i8 f.places.length := by
    unfold NumField.scan
    dsimp only
  obtain ⟨n, hn⟩ : ∃ n, f.places.length = n := ⟨_, rfl⟩
  unfold NumField.taken
  rw [hscan, hn]
  rcases Nat.lt_or_ge n 128 with hn | hn
  · have hi8 := i8_of_lt hn
    rw [hi8]
    split_ifs <;> omega
  · rw [Nat.min_eq_right (by omega)]
    split_ifs <;> omega

omit hf hc h in
theorem truncated_eq (f : NumField) (cMaxFlen : ℕ) : f.truncated cMaxFlen =
    decVal f.digits * 10 ^ f.taken cMaxFlen + decVal (f.places.take cMaxFlen) := by
  unfold NumField.truncated NumField.taken
  rw [decVal_append, List.length_take, Nat.min_comm]

omit hf hc h in
include hm in
/-- The two sums are put together. -/
theorem put_together {a b k : ℕ} (hval : a * 10 ^ k + b < 2 ^ 31) :
    m.int (m.u32 (m.u32 ((a : ℤ) * (NMEA_Pow m 10 k : ℕ)) + (b : ℕ))) = (a * 10 ^ k + b : ℕ) := by
  have hproduct := digit_at_place hm.toRight32 (d := a) (n := k) (by omega)
  rw [mul_comm] at hproduct
  have hsum := hm.u32 (a * 10 ^ k + b) (by omega)
  push_cast at hsum
  rw [hproduct]
  push_cast
  rw [hsum]
  exact_mod_cast hm.int _ hval

omit hf hc h in
include hm in
theorem int_signed {n : ℕ} (hn : n < 2 ^ 31) :
    (if f.minus then m.int (-(n : ℤ)) else (n : ℤ)) = f.signed n := by
  unfold NumField.signed
  rw [hm.neg n hn]

omit hc in
include hm in
/-- The sum over the decimals that are taken. -/
theorem sum_places {cMaxFlen : ℕ} (hval : decVal (f.places.take cMaxFlen) < 2 ^ 32) :
    NMEA_Str2num.sum m p1 ((f.buf pos : ℤ) + f.digits.length + 1) (f.taken cMaxFlen) =
      decVal (f.places.take cMaxFlen) := by
  have hdrop := drop_digits h
  unfold NumField.taken
  rcases hfs : f.decimals with _ | fs
  · have hnil : f.places = [] := by rw [NumField.places, hfs]; rfl
    rw [hnil, List.take_nil]
    rw [List.length_nil, Nat.zero_min]
    rfl
  · have hplaces : f.places = fs := by rw [NumField.places, hfs]; rfl
    rw [hfs] at hdrop
    have hdigits : p1.drop (f.buf pos + f.digits.length + 1) =
        digitText (fs.take cMaxFlen) ++ (digitText (fs.drop cMaxFlen) ++ c :: t) := by
      rw [← List.append_assoc, ← digitText_append, List.take_append_drop]
      exact drop_next hdrop
    have htaken : Digits (fs.take cMaxFlen) := fun x hx => hf.places x (hplaces ▸ List.mem_of_mem_take hx)
    rw [hplaces] at hval ⊢
    have hsum := sum_eq hm.toRight32 htaken hdigits hval
    rw [List.length_take, Nat.min_comm] at hsum
    exact_mod_cast hsum

omit hf hc h in
theorem scan_buf (f : NumField) (pos : ℕ) :
    (if f.scan.minus then (pos : ℤ) + 1 else pos) = f.buf pos := by
  unfold NumField.scan NumField.buf signText
  cases f.minus <;> rfl

omit hf hc h in
theorem pointText_length (f : NumField) : f.places.length = 0 ∨
    (pointText f.decimals).length = f.places.length + 1 := by
  unfold NumField.places
  rcases f.decimals with _ | fs
  · exact Or.inl rfl
  · exact Or.inr (by rw [pointText, List.length_cons, digitText_length, Option.getD_some])

omit hf in
/-- The character that decides on the rounding is the mark behind the field. -/
theorem rounding_offset (hlt : f.taken cMaxFlen < cMaxFlen) (hpos : 0 < f.taken cMaxFlen) :
    f.buf pos + f.digits.length + f.taken cMaxFlen + 1 = pos + f.text.length ∧
      (charAt p1 ((f.buf pos : ℤ) + f.digits.length + f.taken cMaxFlen + 1) = 44 ∨
        charAt p1 ((f.buf pos : ℤ) + f.digits.length + f.taken cMaxFlen + 1) = 42) := by
  have hall : f.taken cMaxFlen = f.places.length := by
    unfold NumField.taken at *
    omega
  have hoffset : f.buf pos + f.digits.length + f.taken cMaxFlen + 1 = pos + f.text.length := by
    have hpoint := pointText_length f
    rw [text_length, hall]
    omega
  have hend := charAt_of_ends hc (drop_text h)
  rw [← hoffset] at hend
  push_cast at hend
  exact ⟨hoffset, hend⟩

include hm in
/-- **What comes out**, unless the field ends with its point or a count does not show enough. -/
theorem NMEA_Str2num_eq (hlen : f.digits.length < 128) (hmax : cMaxFlen < 128)
    (hfits : f.truncated cMaxFlen < 2 ^ 31) (hne : f.decimals ≠ some [])
    (hflen : f.places.length ≤ cMaxFlen ∨ cMaxFlen ≤ i8 f.places.length) :
    (NMEA_Str2num m p1 pos cMaxFlen).dx = f.taken cMaxFlen ∧
      (NMEA_Str2num m p1 pos cMaxFlen).res = f.signed (f.truncated cMaxFlen) := by
  have hval := truncated_eq f cMaxFlen
  have hle : decVal f.digits ≤ decVal f.digits * 10 ^ f.taken cMaxFlen :=
    Nat.le_mul_of_pos_right _ (Nat.pow_pos (by decide))
  have hilen : f.scan.ilen = (f.digits.length : ℤ) := by
    unfold NumField.scan
    dsimp only
    rw [i8_of_lt hlen]
  have htaken := (flen_eq_iff hmax f).mpr hflen
  have hires := sum_eq hm.toRight32 hf.digits (drop_buf h) (by omega)
  have hlast : decVal (f.places.take cMaxFlen) < 2 ^ 32 := by omega
  have hfres := sum_places hf h hm hlast
  have hround : ¬ ((f.taken cMaxFlen : ℤ) < cMaxFlen ∧ (0 : ℤ) < f.taken cMaxFlen ∧
      5 < charAt p1 ((f.buf pos : ℤ) + f.digits.length + f.taken cMaxFlen + 1) - 48) := by
    -- No decimal is dropped here, so what is compared is the mark, and a mark is below the digits.
    rintro ⟨hlt, hpos, hup⟩
    obtain ⟨-, hend⟩ := rounding_offset hc h (Int.ofNat_lt.mp hlt) (Int.natCast_pos.mp hpos)
    omega
  have hsmall : f.taken cMaxFlen < 256 := by
    unfold NumField.taken
    omega
  -- The exponent is handed over in 8 bits.
  have hpow : ((f.taken cMaxFlen : ℤ) % 256).toNat = f.taken cMaxFlen := by omega
  unfold NMEA_Str2num
  dsimp only
  rw [scan_eq hf hc h hne, scan_buf, hilen, htaken, hires, hfres, if_neg hround, hpow,
    put_together hm (by omega), ← hval]
  exact ⟨rfl, int_signed hm hfits⟩

/-- **What is looked at** is the field and the mark. -/
theorem str2numReads_le (hlen : f.digits.length < 128) (hmax : cMaxFlen < 128)
    (hne : f.decimals ≠ some []) (hflen : f.places.length ≤ cMaxFlen ∨ cMaxFlen ≤ i8 f.places.length)
    {i : ℤ} (hi : Str2numReads p1 pos cMaxFlen i) : i ≤ pos + f.text.length := by
  have htext := text_length f pos
  have hilen : f.scan.ilen = (f.digits.length : ℤ) := by
    unfold NumField.scan
    dsimp only
    rw [i8_of_lt hlen]
  have htaken := (flen_eq_iff hmax f).mpr hflen
  have hpoint := pointText_length f
  unfold Str2numReads at hi
  dsimp only at hi
  rw [scan_eq hf hc h hne, scan_buf, hilen, htaken] at hi
  rcases hi with ⟨u, hu, hi⟩ | ⟨k, hk, rfl⟩ | ⟨k, hk, rfl⟩ | ⟨hlt, hpos, rfl⟩
  · obtain ⟨hfst, hsign⟩ := scan_reads hf hc h hne hu
    rcases hi with rfl | rfl
    · exact_mod_cast hfst
    · exact_mod_cast hsign
  · omega
  · have hle : f.taken cMaxFlen ≤ f.places.length := Nat.min_le_left _ _
    omega
  · obtain ⟨hoffset, -⟩ := rounding_offset hc h (Int.ofNat_lt.mp hlt) (Int.natCast_pos.mp hpos)
    omega

omit hf hc h in
theorem scaled_eq (f : NumField) (cMaxFlen : ℕ) :
    f.scaled cMaxFlen = f.truncated cMaxFlen + if 5 ≤ f.places.getD cMaxFlen 0 then 1 else 0 := rfl

include hm in
/-- **When a field is read right.** It must not end with its point, and the decimals that are dropped
must not want to be rounded up. With 128 digits or more before the point, the counter of these shows
another number. -/
theorem NMEA_Str2num_right_iff (hmax : cMaxFlen < 128) (hfits : f.scaled cMaxFlen < 2 ^ 31) :
    (f.digits.length < 128 ∧ DecimalsRight f cMaxFlen → NumberRight m p1 pos f cMaxFlen) ∧
      (f.digits.length < 128 → NumberRight m p1 pos f cMaxFlen → DecimalsRight f cMaxFlen) := by
  have hscaled := scaled_eq f cMaxFlen
  have htruncated : f.truncated cMaxFlen < 2 ^ 31 := lt_of_le_of_lt (hscaled ▸ Nat.le_add_right _ _) hfits
  constructor
  · rintro ⟨hlen, hne, hdecimals⟩
    have hflen : f.places.length ≤ cMaxFlen ∨ (cMaxFlen : ℤ) ≤ i8 f.places.length :=
      hdecimals.imp_right And.right
    have hdown : f.places.getD cMaxFlen 0 < 5 := by
      rcases hdecimals with hle | ⟨hlt, -⟩
      · rw [List.getD_eq_default _ _ hle]
        decide
      · exact hlt
    obtain ⟨hdx, hres⟩ := NMEA_Str2num_eq hf hc h hm hlen hmax htruncated hne hflen
    rw [if_neg (by omega), Nat.add_zero] at hscaled
    exact ⟨fun i hi => str2numReads_le hf hc h hlen hmax hne hflen hi, hdx, by rw [hres, hscaled]⟩
  · intro hlen hright
    have hne : f.decimals ≠ some [] := by
      intro hempty
      obtain ⟨u, hu, hlt⟩ := scan_leaves hf hc h hempty
      have hle := hright.reads u.1 (Or.inl ⟨u, hu, Or.inl rfl⟩)
      omega
    have hflen := hright.dx
    unfold NMEA_Str2num at hflen
    dsimp only at hflen
    rw [scan_eq hf hc h hne] at hflen
    have hflen := (flen_eq_iff hmax f).mp hflen
    obtain ⟨-, hres⟩ := NMEA_Str2num_eq hf hc h hm hlen hmax htruncated hne hflen
    -- The function never rounds up, so there was nothing to round up.
    have hequal : f.scaled cMaxFlen = f.truncated cMaxFlen := by
      have hsigned := hright.res.symm.trans hres
      unfold NumField.signed at hsigned
      split_ifs at hsigned <;> omega
    refine ⟨hne, ?_⟩
    rcases hflen with hle | hge
    · exact Or.inl hle
    · refine Or.inr ⟨?_, hge⟩
      by_contra hup
      rw [if_pos (by omega)] at hscaled
      omega

end Field

theorem arith32_signed : arith32.Signed32 where
  toRight32 := arith32_right
  neg n hn := by
    dsimp only [arith32]
    rw [Int.bmod_def]
    split_ifs <;> omega

/-- `-12.34` with two decimals is read right. -/
theorem NMEA_Str2num_right_minus :
    NumberRight arith32 (bytes "-12.34*") 0 ⟨true, [1, 2], some [3, 4]⟩ 2 :=
  (NMEA_Str2num_right_iff ⟨by decide, by decide⟩ (Or.inr rfl) (show _ = _ ++ 42 :: [] by decide)
    arith32_signed (by decide) (by decide)).1 ⟨by decide, by decide, Or.inl (by decide)⟩

/-- `12.347` with two decimals is read as 12.34. -/
theorem NMEA_Str2num_wrong : ¬ ∀ m p1 pos f c t cMaxFlen, Arith.Signed32 m → NumField.Valid f →
    f.digits ≠ [] → Ends c → p1.drop pos = f.text ++ c :: t → cMaxFlen < 128 →
    f.scaled cMaxFlen < 2 ^ 31 → NumberRight m p1 pos f cMaxFlen := by
  intro h
  have hright := h arith32 (bytes "12.347,") 0 ⟨false, [1, 2], some [3, 4, 7]⟩ 44 [] 2 arith32_signed
    ⟨by decide, by decide⟩ (by decide) (Or.inl rfl) (by decide) (by decide) (by decide)
  exact absurd hright.res (by decide)

end TestCore.Gps
