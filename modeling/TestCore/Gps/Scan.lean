/-
The scan of `NMEA_Str2num` (`gps_uart.c`) over a field, turn by turn.

Each turn takes one character, and a sign or a point with the character behind it. That one is counted
before it is looked at. So the scan stays in the field and counts its digits, unless the field ends with
its point (`scan_eq`, `scan_reads`, `scan_leaves`).
-/
import TestCore.Gps.Nmea
import TestCore.Lib.Loop

set_option autoImplicit false

namespace TestCore.Gps

open TestCore.Lib

/-! ## Numbers in fields -/

/-- The character that ends a field. -/
def Ends (c : UInt8) : Prop := c = 44 ∨ c = 42

/-- A number as a field has it. -/
structure NumField where
  minus : Bool
  digits : List ℕ
  /-- What stands behind the point, if there is one. -/
  decimals : Option (List ℕ)

def pointText : Option (List ℕ) → Bytes
  | none => []
  | some fs => 46 :: digitText fs

def signText (minus : Bool) : Bytes := if minus then [45] else []

def NumField.text (f : NumField) : Bytes := signText f.minus ++ (digitText f.digits ++ pointText f.decimals)

def NumField.places (f : NumField) : List ℕ := f.decimals.getD []

structure NumField.Valid (f : NumField) : Prop where
  digits : Digits f.digits
  places : Digits f.places

/-! ## The loop -/

/-- One turn of the loop of `NMEA_Str2num` over a field. -/
def NMEA_Str2num.turn (p1 : Bytes) (t : ℕ × Scan) : Scan ⊕ (ℕ × Scan) :=
  let (p, s) := t.2.sign p1 t.1
  if charAt p1 p = 44 ∨ charAt p1 p = 42 then .inl s
  else if charAt p1 p = 46 then .inr (p + 2, { s with point := true }.count)
  else if 57 < charAt p1 p ∨ charAt p1 p < 48 then .inl { s with ilen := 0, flen := 0 }
  else .inr (p + 1, s.count)

theorem charAt_eq_zero {p1 : Bytes} {p : ℕ} (h : p1.length ≤ p) : charAt p1 p = 0 := by
  rw [charAt_natCast, List.getD_eq_default _ _ h]
  exact i8_of_lt (n := 0) (by norm_num)

/-- A turn goes at least one character on. -/
theorem scan_turn_inr {p1 : Bytes} {p p' : ℕ} {s s' : Scan}
    (h : NMEA_Str2num.turn p1 (p, s) = .inr (p', s')) : p < p' := by
  have hsign : p ≤ (s.sign p1 p).1 := by
    unfold Scan.sign
    split_ifs
    · exact Nat.le_succ p
    · exact le_rfl
  unfold NMEA_Str2num.turn at h
  dsimp only at h
  split_ifs at h
  · cases h
    omega
  · cases h
    omega

/-- Behind the buffer there are no digits. -/
theorem scan_turn_behind {p1 : Bytes} {p : ℕ} (h : p1.length ≤ p) (s : Scan) :
    NMEA_Str2num.turn p1 (p, s) = .inl { s with ilen := 0, flen := 0 } := by
  have hzero := charAt_eq_zero h
  have hsign : s.sign p1 p = (p, s) := if_neg (by omega)
  unfold NMEA_Str2num.turn
  dsimp only
  rw [hsign]
  dsimp only
  rw [hzero, if_neg (by omega), if_neg (by omega), if_pos (by omega)]

/-- The rounds of the model are the turns of the loop. -/
theorem scan_succ (p1 : Bytes) (rounds p : ℕ) (s : Scan) :
    NMEA_Str2num.scan p1 (rounds + 1) p s =
      match NMEA_Str2num.turn p1 (p, s) with
      | .inl r => r
      | .inr (p', s') => NMEA_Str2num.scan p1 rounds p' s' := by
  conv_lhs => unfold NMEA_Str2num.scan
  unfold NMEA_Str2num.turn
  dsimp only
  split_ifs <;> rfl

/-- **The loop ends**, and the model has rounds enough. -/
theorem scan_endsWith (p1 : Bytes) {rounds p : ℕ} (h : p1.length < p + rounds) (hpos : 0 < rounds)
    (s : Scan) :
    EndsWith (NMEA_Str2num.turn p1) (p, s) (NMEA_Str2num.scan p1 rounds p s) := by
  induction rounds generalizing p s with
  | zero => exact absurd hpos (Nat.lt_irrefl 0)
  | succ rounds ih =>
      rw [scan_succ]
      rcases hturn : NMEA_Str2num.turn p1 (p, s) with r | ⟨p', s'⟩
      · exact (endsWith_inl hturn).mpr rfl
      · have hnext := scan_turn_inr hturn
        rw [endsWith_inr hturn]
        refine ih (by omega) ?_ s'
        -- The loop has not ended, so it is not behind the buffer, and this was not the last round.
        by_contra hlast
        rw [scan_turn_behind (by omega)] at hturn
        cases hturn

/-! ## The counters -/

theorem i8_i8_add_one (a : ℕ) : i8 (i8 a + 1) = i8 (a + 1 : ℕ) := by
  push_cast
  exact Int.bmod_add_bmod

/-- Digits before the point are counted, and the count wraps. -/
theorem count_iterate_ilen (minus : Bool) (a n : ℕ) :
    Scan.count^[n] { minus := minus, ilen := i8 a } = { minus := minus, ilen := i8 (a + n : ℕ) } := by
  induction n generalizing a with
  | zero => rfl
  | succ n ih =>
      have hone : Scan.count { minus := minus, ilen := i8 a } = { minus := minus, ilen := i8 (a + 1 : ℕ) } := by
        unfold Scan.count
        simp only [Bool.false_eq_true, if_false, i8_i8_add_one]
      rw [Function.iterate_succ_apply, hone, ih, Nat.add_assoc, Nat.add_comm 1]

/-- So are those behind it. -/
theorem count_iterate_flen (minus : Bool) (i : ℤ) (a n : ℕ) :
    Scan.count^[n] { minus := minus, point := true, ilen := i, flen := i8 a } =
      { minus := minus, point := true, ilen := i, flen := i8 (a + n : ℕ) } := by
  induction n generalizing a with
  | zero => rfl
  | succ n ih =>
      have hone : Scan.count { minus := minus, point := true, ilen := i, flen := i8 a } =
          { minus := minus, point := true, ilen := i, flen := i8 (a + 1 : ℕ) } := by
        unfold Scan.count
        simp only [if_true, i8_i8_add_one]
      rw [Function.iterate_succ_apply, hone, ih, Nat.add_assoc, Nat.add_comm 1]

/-! ## The turns -/

section Turns

variable {p1 : Bytes} {p : ℕ} {s : Scan} {t : Bytes}

/-- A turn at a character that is no sign. -/
theorem turn_of_ne (h : charAt p1 p ≠ 45) :
    NMEA_Str2num.turn p1 (p, s) =
      if charAt p1 p = 44 ∨ charAt p1 p = 42 then .inl s
      else if charAt p1 p = 46 then .inr (p + 2, { s with point := true }.count)
      else if 57 < charAt p1 p ∨ charAt p1 p < 48 then .inl { s with ilen := 0, flen := 0 }
      else .inr (p + 1, s.count) := by
  have hsign : s.sign p1 p = (p, s) := if_neg h
  unfold NMEA_Str2num.turn
  rw [hsign]

theorem charAt_of_digit {d : ℕ} (hd : d < 10) (h : p1.drop p = digit d :: t) :
    charAt p1 p = 48 + d := by
  have hchar := charAt_of_drop h (by rw [digit_toNat hd]; omega)
  rw [hchar, digit_toNat hd]
  push_cast
  rfl

theorem turn_digit {d : ℕ} (hd : d < 10) (h : p1.drop p = digit d :: t) :
    NMEA_Str2num.turn p1 (p, s) = .inr (p + 1, s.count) := by
  have hchar := charAt_of_digit hd h
  rw [turn_of_ne (by omega), if_neg (by omega), if_neg (by omega), if_neg (by omega)]

theorem turn_point (h : p1.drop p = 46 :: t) :
    NMEA_Str2num.turn p1 (p, s) = .inr (p + 2, { s with point := true }.count) := by
  have hchar : charAt p1 p = 46 := charAt_of_drop h (by decide)
  rw [turn_of_ne (by omega), if_neg (by omega), if_pos hchar]

theorem charAt_of_ends {c : UInt8} (hc : Ends c) (h : p1.drop p = c :: t) :
    charAt p1 p = 44 ∨ charAt p1 p = 42 := by
  rcases hc with rfl | rfl
  · exact Or.inl (charAt_of_drop h (by decide))
  · exact Or.inr (charAt_of_drop h (by decide))

theorem turn_ends {c : UInt8} (hc : Ends c) (h : p1.drop p = c :: t) :
    NMEA_Str2num.turn p1 (p, s) = .inl s := by
  have hchar := charAt_of_ends hc h
  rw [turn_of_ne (by omega), if_pos hchar]

/-- The turn at a sign is the turn behind it. -/
theorem turn_minus (h : p1.drop p = 45 :: t) (hnext : charAt p1 (p + 1 : ℕ) ≠ 45) :
    NMEA_Str2num.turn p1 (p, s) = NMEA_Str2num.turn p1 (p + 1, { s with minus := true }) := by
  have hchar : charAt p1 p = 45 := charAt_of_drop h (by decide)
  have hsign : s.sign p1 p = (p + 1, { s with minus := true }) := if_pos hchar
  rw [turn_of_ne hnext]
  unfold NMEA_Str2num.turn
  rw [hsign]

/-- The digits are counted. -/
theorem visits_digits {ds : List ℕ} (hds : Digits ds) (h : p1.drop p = digitText ds ++ t) :
    Visits (NMEA_Str2num.turn p1) (p, s) (p + ds.length, Scan.count^[ds.length] s) := by
  induction ds generalizing p s with
  | nil => exact Relation.ReflTransGen.refl
  | cons d ds ih =>
      have hrest := ih (s := s.count) (fun x hx => hds x (List.mem_cons_of_mem d hx)) (drop_next h)
      rw [List.length_cons, Function.iterate_succ_apply, show p + (ds.length + 1) = p + 1 + ds.length by omega]
      exact Relation.ReflTransGen.head (turn_digit (hds d List.mem_cons_self) h) hrest

/-- What the scan comes by among the digits, and then. -/
theorem of_visits_digits {ds : List ℕ} (hds : Digits ds) (h : p1.drop p = digitText ds ++ t)
    {u : ℕ × Scan} (hu : Visits (NMEA_Str2num.turn p1) (p, s) u) :
    (u.1 < p + ds.length ∧ charAt p1 u.1 ≠ 45) ∨
      Visits (NMEA_Str2num.turn p1) (p + ds.length, Scan.count^[ds.length] s) u := by
  induction ds generalizing p s with
  | nil => exact Or.inr hu
  | cons d ds ih =>
      have hd := hds d List.mem_cons_self
      rcases Relation.ReflTransGen.cases_head hu with rfl | ⟨w, hw, hu⟩
      · have hchar := charAt_of_digit hd h
        exact Or.inl ⟨by rw [List.length_cons]; omega, by dsimp only; omega⟩
      · rw [turn_digit hd h] at hw
        cases hw
        rw [List.length_cons, Function.iterate_succ_apply, show p + (ds.length + 1) = p + 1 + ds.length by omega]
        exact ih (fun x hx => hds x (List.mem_cons_of_mem d hx)) (drop_next h) hu

end Turns

/-! ## The scan of a field -/

/-- What the scan finds. -/
def NumField.scan (f : NumField) : Scan :=
  { minus := f.minus, point := f.decimals.isSome, ilen := i8 f.digits.length, flen := i8 f.places.length }

/-- Where the digits begin. -/
def NumField.buf (f : NumField) (pos : ℕ) : ℕ := pos + (signText f.minus).length

section Field

variable {p1 : Bytes} {pos : ℕ} {f : NumField} (hf : f.Valid) {c : UInt8} (hc : Ends c) {t : Bytes}
  (h : p1.drop pos = f.text ++ c :: t)

include h

theorem drop_buf : p1.drop (f.buf pos) = digitText f.digits ++ (pointText f.decimals ++ c :: t) := by
  unfold NumField.buf NumField.text at *
  rw [← List.drop_drop, h, List.append_assoc, List.drop_left, List.append_assoc]

theorem drop_digits : p1.drop (f.buf pos + f.digits.length) = pointText f.decimals ++ c :: t := by
  rw [← List.drop_drop, drop_buf h, ← digitText_length f.digits, List.drop_left]

theorem drop_text : p1.drop (pos + f.text.length) = c :: t := by
  rw [← List.drop_drop, h, List.drop_left]

include hf hc

theorem charAt_buf_ne : charAt p1 (f.buf pos : ℕ) ≠ 45 := by
  have hbuf := drop_buf h
  rcases hds : f.digits with _ | ⟨d, ds⟩
  · rw [hds] at hbuf
    rcases hfs : f.decimals with _ | fs
    · rw [hfs] at hbuf
      have hchar := charAt_of_ends hc hbuf
      omega
    · rw [hfs] at hbuf
      have hchar : charAt p1 (f.buf pos : ℕ) = 46 := charAt_of_drop hbuf (by decide)
      omega
  · rw [hds] at hbuf
    have hd : d < 10 := hf.digits d (by rw [hds]; exact List.mem_cons_self)
    have hchar := charAt_of_digit hd hbuf
    omega

/-- The first turn is the one at the first digit. -/
theorem turn_start :
    NMEA_Str2num.turn p1 (pos, {}) = NMEA_Str2num.turn p1 (f.buf pos, { minus := f.minus }) := by
  have hne := charAt_buf_ne hf hc h
  unfold NumField.buf NumField.text signText at *
  rcases hminus : f.minus with _ | _
  · rfl
  · rw [hminus] at h hne
    exact turn_minus h hne

omit hc in
/-- The scan gets to the end of the digits. -/
theorem visits_point :
    Visits (NMEA_Str2num.turn p1) (f.buf pos, { minus := f.minus })
      (f.buf pos + f.digits.length, { minus := f.minus, ilen := i8 f.digits.length }) := by
  have hvisits := visits_digits (s := { minus := f.minus }) hf.digits (drop_buf h)
  have hcount := count_iterate_ilen f.minus 0 f.digits.length
  rw [Nat.zero_add] at hcount
  rwa [show ({ minus := f.minus } : Scan) = { minus := f.minus, ilen := i8 (0 : ℕ) } from rfl, hcount] at hvisits

omit hf hc h in
theorem text_length (f : NumField) (pos : ℕ) :
    pos + f.text.length = f.buf pos + f.digits.length + (pointText f.decimals).length := by
  unfold NumField.text NumField.buf
  rw [List.length_append, List.length_append, digitText_length]
  omega

omit hc h in
theorem places_of_cons {d : ℕ} {fs : List ℕ} (hfs : f.decimals = some (d :: fs)) : Digits fs := by
  intro x hx
  refine hf.places x ?_
  rw [NumField.places, hfs]
  exact List.mem_cons_of_mem d hx

omit hf hc in
theorem drop_places {d : ℕ} {fs : List ℕ} (hfs : f.decimals = some (d :: fs)) :
    p1.drop (f.buf pos + f.digits.length + 2) = digitText fs ++ c :: t := by
  rw [← List.drop_drop, drop_digits h, hfs]
  rfl

omit hc in
/-- The scan gets to the mark behind the field, unless this ends with its point. -/
theorem visits_text (hne : f.decimals ≠ some []) :
    Visits (NMEA_Str2num.turn p1) (f.buf pos, { minus := f.minus }) (pos + f.text.length, f.scan) := by
  have hpoint := visits_point hf h
  have hdrop := drop_digits h
  rw [text_length]
  unfold NumField.scan NumField.places
  rcases hfs : f.decimals with _ | fs
  · exact hpoint
  · rcases fs with _ | ⟨d, fs⟩
    · exact absurd hfs hne
    · rw [hfs] at hdrop
      have hturn := turn_point (s := { minus := f.minus, ilen := i8 f.digits.length }) hdrop
      have hzero : i8 (0 : ℕ) = 0 := rfl
      -- The turn at the point has counted the first decimal too, and the next one begins behind it.
      have hone := count_iterate_flen f.minus (i8 f.digits.length) 0 1
      rw [hzero, Nat.zero_add, Function.iterate_one] at hone
      dsimp only at hturn
      rw [hone] at hturn
      have hcount := count_iterate_flen f.minus (i8 f.digits.length) 1 fs.length
      have hlast := visits_digits
        (s := { minus := f.minus, point := true, ilen := i8 f.digits.length, flen := i8 (1 : ℕ) })
        (places_of_cons hf hfs) (drop_places h hfs)
      rw [hcount, Nat.add_comm 1] at hlast
      refine hpoint.trans (Relation.ReflTransGen.head hturn ?_)
      rw [show (pointText (some (d :: fs))).length = 2 + fs.length by
        rw [pointText, List.length_cons, digitText_length, List.length_cons]; omega, ← Nat.add_assoc]
      exact hlast

/-- **What the scan finds**, unless the field ends with its point. -/
theorem scan_eq (hne : f.decimals ≠ some []) :
    NMEA_Str2num.scan p1 (p1.length + 1) pos {} = f.scan := by
  have hends := scan_endsWith p1 (show p1.length < pos + (p1.length + 1) by omega) (Nat.succ_pos _) {}
  have hscan : EndsWith (NMEA_Str2num.turn p1) (pos, {}) f.scan := by
    rw [endsWith_congr (turn_start hf hc h), (visits_text hf h hne).endsWith_iff,
      endsWith_inl (turn_ends hc (drop_text h))]
  exact hends.unique hscan

omit hf h in
/-- The scan does not go on from the mark. -/
theorem of_visits_ends {p : ℕ} {s : Scan} (hdrop : p1.drop p = c :: t) {u : ℕ × Scan}
    (hu : Visits (NMEA_Str2num.turn p1) (p, s) u) : u.1 = p ∧ charAt p1 u.1 ≠ 45 := by
  have hchar := charAt_of_ends hc hdrop
  rcases Relation.ReflTransGen.cases_head hu with rfl | ⟨w, hw, -⟩
  · exact ⟨rfl, by dsimp only; omega⟩
  · rw [turn_ends hc hdrop] at hw
    cases hw

/-- What the scan comes by behind the sign. -/
theorem of_visits_buf (hne : f.decimals ≠ some []) {u : ℕ × Scan}
    (hu : Visits (NMEA_Str2num.turn p1) (f.buf pos, { minus := f.minus }) u) :
    u.1 ≤ pos + f.text.length ∧ charAt p1 u.1 ≠ 45 := by
  have hdrop := drop_digits h
  rw [text_length]
  rcases of_visits_digits hf.digits (drop_buf h) hu with ⟨hlt, hchar⟩ | hu
  · exact ⟨by omega, hchar⟩
  · rcases hfs : f.decimals with _ | fs
    · rw [hfs] at hdrop
      obtain ⟨heq, hchar⟩ := of_visits_ends hc hdrop hu
      exact ⟨by omega, hchar⟩
    · rcases fs with _ | ⟨d, fs⟩
      · exact absurd hfs hne
      · have hlen : (pointText (some (d :: fs))).length = 2 + fs.length := by
          rw [pointText, List.length_cons, digitText_length, List.length_cons]
          omega
        rw [hfs] at hdrop
        rw [hlen]
        rcases Relation.ReflTransGen.cases_head hu with rfl | ⟨w, hw, hu⟩
        · have hchar : charAt p1 (f.buf pos + f.digits.length : ℕ) = 46 := charAt_of_drop hdrop (by decide)
          exact ⟨by dsimp only; omega, by dsimp only; omega⟩
        · rw [turn_point hdrop] at hw
          cases hw
          -- The first decimal is taken with the point, the others are digits as before.
          rcases of_visits_digits (places_of_cons hf hfs) (drop_places h hfs) hu with ⟨hlt, hchar⟩ | hu
          · exact ⟨by omega, hchar⟩
          · have hend : p1.drop (f.buf pos + f.digits.length + 2 + fs.length) = c :: t := by
              rw [← List.drop_drop, drop_places h hfs, ← digitText_length fs, List.drop_left]
            obtain ⟨heq, hchar⟩ := of_visits_ends hc hend hu
            exact ⟨by omega, hchar⟩

/-- **The scan looks at the field and at the mark**, unless the field ends with its point. -/
theorem scan_reads (hne : f.decimals ≠ some []) {u : ℕ × Scan}
    (hu : Visits (NMEA_Str2num.turn p1) (pos, {}) u) :
    u.1 ≤ pos + f.text.length ∧ (u.2.sign p1 u.1).1 ≤ pos + f.text.length := by
  rcases hu.congr (turn_start hf hc h) with rfl | hu
  · refine ⟨Nat.le_add_right _ _, ?_⟩
    by_cases hsign : charAt p1 pos = 45
    · have hpos : f.text.length ≠ 0 := by
        intro hzero
        have hchar := charAt_of_ends hc (drop_text h)
        rw [hzero, Nat.add_zero] at hchar
        omega
      rw [show Scan.sign p1 pos {} = (pos + 1, { minus := true }) from if_pos hsign]
      dsimp only
      omega
    · rw [show Scan.sign p1 pos {} = (pos, {}) from if_neg hsign]
      exact Nat.le_add_right _ _
  · obtain ⟨hle, hchar⟩ := of_visits_buf hf hc h hne hu
    have hsign : u.2.sign p1 u.1 = (u.1, u.2) := if_neg hchar
    rw [hsign]
    exact ⟨hle, hle⟩

/-- If a field ends with its point, the scan goes on behind the mark. -/
theorem scan_leaves (hempty : f.decimals = some []) :
    ∃ u, Visits (NMEA_Str2num.turn p1) (pos, {}) u ∧ pos + f.text.length < u.1 := by
  have hdrop := drop_digits h
  rw [hempty] at hdrop
  have hturn := turn_point (s := { minus := f.minus, ilen := i8 f.digits.length }) hdrop
  have hvisits := (visits_point hf h).tail hturn
  have hlen := text_length f pos
  rw [hempty, show (pointText (some [])).length = 1 from rfl] at hlen
  rcases Visits.congr hvisits (turn_start hf hc h).symm with heq | hvisits
  · have hfst := congrArg Prod.fst heq
    dsimp only at hfst
    omega
  · exact ⟨_, hvisits, by dsimp only; omega⟩

end Field

/-! ## Numbers without a sign -/

/-- The text of the decimals, with the point if there are any. -/
def fracText : List ℕ → Bytes
  | [] => []
  | f :: fs => 46 :: digitText (f :: fs)

def decimalsOf : List ℕ → Option (List ℕ)
  | [] => none
  | f :: fs => some (f :: fs)

theorem pointText_decimalsOf (fs : List ℕ) : pointText (decimalsOf fs) = fracText fs := by
  cases fs <;> rfl

theorem getD_decimalsOf (fs : List ℕ) : (decimalsOf fs).getD [] = fs := by
  cases fs <;> rfl

/-- What the scan finds in a field of digits and decimals. -/
theorem scan_field {p1 : Bytes} {p : ℕ} {ds fs : List ℕ} (hds : Digits ds) (hfs : Digits fs)
    {c : UInt8} (hc : Ends c) {t : Bytes} (h : p1.drop p = digitText ds ++ (fracText fs ++ c :: t))
    (hlen : ds.length < 128) (hflen : fs.length < 128) :
    NMEA_Str2num.scan p1 (p1.length + 1) p {}
      = { point := !fs.isEmpty, ilen := ds.length, flen := fs.length } := by
  have hvalid : NumField.Valid ⟨false, ds, decimalsOf fs⟩ :=
    ⟨hds, by rw [NumField.places, getD_decimalsOf]; exact hfs⟩
  have htext : p1.drop p = NumField.text ⟨false, ds, decimalsOf fs⟩ ++ c :: t := by
    rw [h, ← pointText_decimalsOf, ← List.append_assoc]
    rfl
  have hne : decimalsOf fs ≠ some [] := by
    cases fs <;> exact nofun
  have hsome : (decimalsOf fs).isSome = !fs.isEmpty := by
    cases fs <;> rfl
  rw [scan_eq hvalid hc htext hne]
  unfold NumField.scan NumField.places
  rw [getD_decimalsOf, hsome, i8_of_lt hlen, i8_of_lt hflen]

variable {m : Arith} (hm : m.Right32)

/-- The character behind the last decimal is no digit above 5: nothing is rounded up. -/
theorem not_rounded {p1 : Bytes} {p : ℕ} {c : UInt8} (hc : Ends c) {t : Bytes}
    (h : p1.drop p = c :: t) : ¬ 5 < charAt p1 p - 48 := by
  rcases hc with rfl | rfl
  · have h44 : charAt p1 p = 44 := charAt_of_drop h (by decide)
    omega
  · have h42 : charAt p1 p = 42 := charAt_of_drop h (by decide)
    omega

include hm in
/-- **A field of digits and decimals is read as the number of all its digits**, and `dx` is the
number of the decimals, as long as these are not more than asked for. -/
theorem NMEA_Str2num_field {p1 : Bytes} {p : ℕ} {ds fs : List ℕ} (hds : Digits ds)
    (hfs : Digits fs) (hne : ds ≠ []) {c : UInt8} (hc : Ends c) {t : Bytes}
    (h : p1.drop p = digitText ds ++ (fracText fs ++ c :: t)) {cMaxFlen : ℕ}
    (hmax : fs.length ≤ cMaxFlen) (hlen : ds.length + fs.length ≤ 10)
    (hval : decVal ds * 10 ^ fs.length + decVal fs < 2 ^ 31) :
    NMEA_Str2num m p1 p cMaxFlen =
      { res := (decVal ds * 10 ^ fs.length + decVal fs : ℕ), dx := fs.length, bBlank := false } := by
  have hpos : 0 < ds.length := List.length_pos_of_ne_nil hne
  have hpow : 1 ≤ 10 ^ fs.length := Nat.one_le_pow _ _ (by norm_num)
  have hint : decVal ds ≤ decVal ds * 10 ^ fs.length := Nat.le_mul_of_pos_right _ hpow
  have hafter : p1.drop (p + ds.length) = fracText fs ++ c :: t := by
    rw [← List.drop_drop, h, ← digitText_length ds, List.drop_left]
  have hires : NMEA_Str2num.sum m p1 p ds.length = decVal ds :=
    sum_eq hm hds h (by omega)
  have hfres : NMEA_Str2num.sum m p1 ((p : ℤ) + ds.length + 1) fs.length = decVal fs := by
    rcases fs with _ | ⟨f, fs⟩
    · rfl
    · have hfrac : p1.drop (p + ds.length + 1) = digitText (f :: fs) ++ c :: t := drop_next hafter
      exact_mod_cast sum_eq hm hfs hfrac (by omega)
  have hround : ¬ ((fs.length : ℤ) < cMaxFlen ∧ (0 : ℤ) < fs.length ∧
      5 < charAt p1 ((p : ℤ) + ds.length + fs.length + 1) - 48) := by
    rintro ⟨-, hflen, hup⟩
    rcases fs with _ | ⟨f, fs⟩
    · simp at hflen
    · have hend : p1.drop (p + ds.length + (f :: fs).length + 1) = c :: t := by
        have hfrac : p1.drop (p + ds.length + 1) = digitText (f :: fs) ++ c :: t := drop_next hafter
        rw [Nat.add_right_comm, ← List.drop_drop, hfrac, ← digitText_length (f :: fs), List.drop_left]
      exact not_rounded hc hend (by exact_mod_cast hup)
  have hscale : m.u32 ((decVal ds : ℤ) * NMEA_Pow m 10 (((fs.length : ℤ)) % 256).toNat)
      = decVal ds * 10 ^ fs.length := by
    have hmod : ((fs.length : ℤ) % 256).toNat = fs.length := by omega
    have hright := hm.u32 (decVal ds * 10 ^ fs.length) (by omega)
    rw [hmod, NMEA_Pow_eq hm (by omega)]
    exact_mod_cast hright
  have hsum : m.u32 ((decVal ds * 10 ^ fs.length : ℕ) + (decVal fs : ℕ))
      = decVal ds * 10 ^ fs.length + decVal fs := by
    have hright := hm.u32 (decVal ds * 10 ^ fs.length + decVal fs) (by omega)
    exact_mod_cast hright
  have hflen : ¬ (fs.length : ℤ) > cMaxFlen := by omega
  unfold NMEA_Str2num
  rw [scan_field hds hfs hc h (by omega) (by omega)]
  dsimp only
  simp only [Bool.false_eq_true, if_false, if_neg hflen, hires, hfres, hscale, hsum, if_neg hround]
  rw [hm.int _ hval]
  congr 1
  simp [hpos.ne']

end TestCore.Gps
