/-
The RMC sentence: position, date and time of day (`api_nmea0183_rmc_analysis`).

The analysis looks for each field by counting commas from the start of the sentence, reads a
number out of it together with the count of its decimals, brings it to a fixed number of
decimals, and takes it apart by division. `RmcSentence` is a sentence as the receiver sends it,
in terms of what it says; `rmc_analysis_exact` is that the analysis gets exactly this back, and
that it never needs more than 32 bits for it.
-/
import TestCore.Gps.Scan

set_option autoImplicit false

namespace TestCore.Gps

open TestCore.Lib

/-! ## The analysis -/

/-- The fields of `NMEA0183_Gps_t` that the analysis sets. The minutes are `u32`. -/
structure NMEA0183_Gps where
  Year : UInt16 := 0
  Month : UInt8 := 0
  Day : UInt8 := 0
  Hour : UInt8 := 0
  Minute : UInt8 := 0
  Second : UInt16 := 0
  cLatitudeDegree : UInt8 := 0
  lLatitudeMin : ℕ := 0
  cSouthNorth : UInt8 := 0
  cLongitudeDegree : UInt8 := 0
  lLongitudeMin : ℕ := 0
  cEastWest : UInt8 := 0
  quality : ℤ := 0
  deriving DecidableEq, Repr

/-- `temp`, brought to a number of decimals. `dx` is a `u8` here. -/
def scaled (m : Arith) (n : Num) (places : ℕ) : ℕ :=
  let temp := m.u32 n.res
  -- The count of decimals is stored in a `u8` before it is compared.
  let dx := (n.dx % 256).toNat
  if dx < places then m.u32 (temp * NMEA_Pow m 10 (places - dx)) else temp

section Fields

variable (m : Arith) (p1 : Bytes) (nRxLen : ℕ) (d : NMEA0183_Gps)

def utcTime : NMEA0183_Gps :=
  let posx := NMEA_Comma_Pos p1 1 nRxLen
  if posx ≠ 0xFF then
    let temp := scaled m (NMEA_Str2num m p1 posx 2) 2
    { d with
      Hour := UInt8.ofNat (temp / 1000000)
      Minute := UInt8.ofNat (temp / 10000 % 100)
      Second := UInt16.ofNat (temp % 10000) }
  else d

def posMode : NMEA0183_Gps :=
  let posx := NMEA_Comma_Pos p1 2 nRxLen
  if posx ≠ 0xFF then
    let cPosMode := p1.getD posx 0
    -- `A` and `V`; any other character counts as no position.
    { d with quality := if cPosMode = 65 then 1 else if cPosMode = 86 then 2 else 0 }
  else d

/-- Degrees and minutes of a field, unless it is blank. -/
def degreeMin (posx : ℕ) : Option (UInt8 × ℕ) :=
  let n := NMEA_Str2num m p1 posx 5
  let temp := scaled m n 5
  if n.bBlank then none
  else some (UInt8.ofNat (temp / NMEA_Pow m 10 (5 + 2)), temp % NMEA_Pow m 10 (5 + 2))

def latitude : NMEA0183_Gps :=
  let posx := NMEA_Comma_Pos p1 3 nRxLen
  if posx ≠ 0xFF then
    match degreeMin m p1 posx with
    | some (degree, min) => { d with cLatitudeDegree := degree, lLatitudeMin := min }
    | none => d
  else d

def southNorth : NMEA0183_Gps :=
  let posx := NMEA_Comma_Pos p1 4 nRxLen
  if posx ≠ 0xFF then { d with cSouthNorth := p1.getD posx 0 } else d

def longitude : NMEA0183_Gps :=
  let posx := NMEA_Comma_Pos p1 5 nRxLen
  if posx ≠ 0xFF then
    match degreeMin m p1 posx with
    | some (degree, min) => { d with cLongitudeDegree := degree, lLongitudeMin := min }
    | none => d
  else d

def eastWest : NMEA0183_Gps :=
  let posx := NMEA_Comma_Pos p1 6 nRxLen
  if posx ≠ 0xFF then { d with cEastWest := p1.getD posx 0 } else d

def utcDate : NMEA0183_Gps :=
  let posx := NMEA_Comma_Pos p1 9 nRxLen
  if posx ≠ 0xFF then
    -- The only number that is not scaled: a date has no decimals.
    let temp := m.u32 (NMEA_Str2num m p1 posx 0).res
    { d with
      Day := UInt8.ofNat (temp / 10000)
      Month := UInt8.ofNat (temp / 100 % 100)
      Year := UInt16.ofNat (2000 + temp % 100) }
  else d

end Fields

/-- `api_nmea0183_rmc_analysis`: what is in `pst0183GpsData` at the return, if there is one. -/
def api_nmea0183_rmc_analysis (m : Arith) (buf : Bytes) (nRxLen : ℕ) : Option NMEA0183_Gps :=
  let p1 := buf.take nRxLen
  let posx := nmea0183_star_Pos p1 1 nRxLen
  if posx ≠ 0xFF then
    let cCheckSum := nmea0183_get_checksum (p1.drop posx)
    -- The length is `posx - 2`, in a `u8`: from behind the `$` to before the star.
    (bcc_checksum (p1.drop 1) ((posx + 254) % 256)).map fun bcc =>
      -- A wrong checksum leaves the record as `memset` did.
      if cCheckSum ≠ bcc then {}
      else
        let d := utcTime m p1 nRxLen {}
        let d := posMode p1 nRxLen d
        let d := latitude m p1 nRxLen d
        let d := southNorth p1 nRxLen d
        let d := longitude m p1 nRxLen d
        let d := eastWest p1 nRxLen d
        utcDate m p1 nRxLen d
  else some {}

/-! ## Sentences -/

/-- Decimals, as a number of `places` digits. -/
def decimals (places : ℕ) (fs : List ℕ) : ℕ := decVal fs * 10 ^ (places - fs.length)

/-- The digits behind a point, at least one and at most `places`. -/
structure Decimals (places : ℕ) where
  digits : List ℕ
  decimal : Digits digits
  some_digit : 1 ≤ digits.length
  length_le : digits.length ≤ places

/-- The text of a field that the analysis does not look at. -/
structure PlainText where
  text : Bytes
  plain : ∀ c ∈ text, Plain c

/-- An RMC sentence, by what it says. -/
structure RmcSentence where
  talker : PlainText
  hour : Fin 100
  minute : Fin 100
  second : Fin 100
  secondDecimals : Decimals 2
  /-- `A`, else `V`. -/
  valid : Bool
  latDegree : Fin 100
  latMinute : Fin 100
  latDecimals : Decimals 5
  /-- `N`, else `S`. -/
  north : Bool
  lonDegree : Fin 1000
  lonMinute : Fin 100
  lonDecimals : Decimals 5
  /-- The longitude is at most 18000.00000. -/
  lon_le : lonDegree.val * 10 ^ 7 + lonMinute.val * 10 ^ 5 + decimals 5 lonDecimals.digits ≤ 180 * 10 ^ 7
  /-- `E`, else `W`. -/
  east : Bool
  speed : PlainText
  course : PlainText
  day : Fin 100
  month : Fin 100
  year : Fin 100
  /-- The fields after the date. -/
  more : List PlainText
  /-- What comes after the checksum. -/
  tail : Bytes

/-- A digit of the checksum. -/
def hexChar (n : UInt8) : UInt8 := if n < 10 then 48 + n else 55 + n

def hexText (b : UInt8) : Bytes := [hexChar (b >>> 4), hexChar (b &&& 15)]

namespace RmcSentence

variable (s : RmcSentence)

/-- The fields before the date. -/
def fields : List Bytes :=
  [36 :: (s.talker.text ++ [82, 77, 67]),
    digitText (two s.hour.val ++ two s.minute.val ++ two s.second.val) ++ fracText s.secondDecimals.digits,
    [if s.valid then 65 else 86],
    digitText (two s.latDegree.val ++ two s.latMinute.val) ++ fracText s.latDecimals.digits,
    [if s.north then 78 else 83],
    digitText (three s.lonDegree.val ++ two s.lonMinute.val) ++ fracText s.lonDecimals.digits,
    [if s.east then 69 else 87],
    s.speed.text,
    s.course.text]

/-- The sentence up to the star. -/
def body : Bytes :=
  fieldsText s.fields ++ (digitText (two s.day.val ++ two s.month.val ++ two s.year.val) ++
    s.more.flatMap fun f => 44 :: f.text)

/-- The sentence. The checksum is over what stands between the first character and the star. -/
def text : Bytes :=
  s.body ++ 42 :: (hexText ((s.body.drop 1).foldl (· ^^^ ·) 0) ++ s.tail)

/-- What the sentence says. -/
def reading : NMEA0183_Gps where
  Year := UInt16.ofNat (2000 + s.year.val)
  Month := UInt8.ofNat s.month.val
  Day := UInt8.ofNat s.day.val
  Hour := UInt8.ofNat s.hour.val
  Minute := UInt8.ofNat s.minute.val
  Second := UInt16.ofNat (s.second.val * 100 + decimals 2 s.secondDecimals.digits)
  cLatitudeDegree := UInt8.ofNat s.latDegree.val
  lLatitudeMin := s.latMinute.val * 10 ^ 5 + decimals 5 s.latDecimals.digits
  cSouthNorth := if s.north then 78 else 83
  cLongitudeDegree := UInt8.ofNat s.lonDegree.val
  lLongitudeMin := s.lonMinute.val * 10 ^ 5 + decimals 5 s.lonDecimals.digits
  cEastWest := if s.east then 69 else 87
  quality := if s.valid then 1 else 2

/-! ## The sentence is well formed -/

theorem plain_of_digit {c : UInt8} (h : 48 ≤ c.toNat ∧ c.toNat ≤ 57) : Plain c := by
  refine ⟨by omega, by omega, ?_, ?_⟩
  · rintro rfl
    exact absurd h (by decide)
  · rintro rfl
    exact absurd h (by decide)

theorem plain_digitText {ds : List ℕ} (hds : Digits ds) : ∀ c ∈ digitText ds, Plain c := by
  intro c hc
  exact plain_of_digit (mem_digitText hds hc)

theorem plain_number {ds fs : List ℕ} (hds : Digits ds) (hfs : Digits fs) :
    ∀ c ∈ digitText ds ++ fracText fs, Plain c := by
  intro c hc
  rcases List.mem_append.mp hc with h | h
  · exact plain_digitText hds c h
  · rcases fs with _ | ⟨f, fs⟩
    · exact absurd h List.not_mem_nil
    · rcases List.mem_cons.mp h with rfl | h
      · decide
      · exact plain_digitText hfs c h

theorem digits_time : Digits (two s.hour.val ++ two s.minute.val ++ two s.second.val) :=
  ((digits_two s.hour.isLt).append (digits_two s.minute.isLt)).append (digits_two s.second.isLt)

theorem digits_lat : Digits (two s.latDegree.val ++ two s.latMinute.val) :=
  (digits_two s.latDegree.isLt).append (digits_two s.latMinute.isLt)

theorem digits_lon : Digits (three s.lonDegree.val ++ two s.lonMinute.val) :=
  (digits_three s.lonDegree.isLt).append (digits_two s.lonMinute.isLt)

theorem digits_date : Digits (two s.day.val ++ two s.month.val ++ two s.year.val) :=
  ((digits_two s.day.isLt).append (digits_two s.month.isLt)).append (digits_two s.year.isLt)

theorem plain_char {b : Bool} {x y : UInt8} (hx : Plain x) (hy : Plain y) :
    ∀ c ∈ [if b then x else y], Plain c := by
  intro c hc
  rw [List.mem_singleton.mp hc]
  split
  · exact hx
  · exact hy

theorem plain_fields : ∀ f ∈ s.fields, ∀ c ∈ f, Plain c := by
  have hhead : ∀ c ∈ 36 :: (s.talker.text ++ [82, 77, 67]), Plain c := by
    intro c hc
    rcases List.mem_cons.mp hc with rfl | hc
    · decide
    · rcases List.mem_append.mp hc with hc | hc
      · exact s.talker.plain c hc
      · simp only [List.mem_cons, List.not_mem_nil, or_false] at hc
        rcases hc with rfl | rfl | rfl <;> decide
  intro f hf
  simp only [fields, List.mem_cons, List.not_mem_nil, or_false] at hf
  rcases hf with rfl | rfl | rfl | rfl | rfl | rfl | rfl | rfl | rfl
  · exact hhead
  · exact plain_number s.digits_time s.secondDecimals.decimal
  · exact plain_char (by decide) (by decide)
  · exact plain_number s.digits_lat s.latDecimals.decimal
  · exact plain_char (by decide) (by decide)
  · exact plain_number s.digits_lon s.lonDecimals.decimal
  · exact plain_char (by decide) (by decide)
  · exact s.speed.plain
  · exact s.course.plain

/-- The star is the first one. -/
theorem body_inside : ∀ c ∈ s.body, outside c = false ∧ c ≠ 42 := by
  have hplain : ∀ c, Plain c → outside c = false ∧ c ≠ 42 := by
    rintro c ⟨hlow, hhigh, -, hstar⟩
    exact ⟨outside_of_le hlow hhigh, hstar⟩
  have hcomma : outside 44 = false ∧ (44 : UInt8) ≠ 42 := by decide
  intro c hc
  rcases List.mem_append.mp hc with h | h
  · obtain ⟨f, hf, hcf⟩ := List.mem_flatMap.mp h
    rcases List.mem_append.mp hcf with hcf | hcf
    · exact hplain c (s.plain_fields f hf c hcf)
    · rw [List.mem_singleton.mp hcf]
      exact hcomma
  · rcases List.mem_append.mp h with h | h
    · exact hplain c (plain_digitText s.digits_date c h)
    · obtain ⟨f, -, hcf⟩ := List.mem_flatMap.mp h
      rcases List.mem_cons.mp hcf with rfl | hcf
      · exact hcomma
      · exact hplain c (f.plain c hcf)

/-! ## Where the fields are -/

/-- **The field after `a` others is found by counting `a.length` commas.** -/
theorem field_pos (hlen : s.text.length < 128) {a b : List Bytes} {f : Bytes}
    (h : s.fields = a ++ f :: b) : ∃ posx t, NMEA_Comma_Pos s.text a.length s.text.length = posx ∧
      posx ≠ 0xFF ∧ s.text.drop posx = f ++ 44 :: t := by
  have hplain : ∀ g ∈ a, ∀ c ∈ g, Plain c := by
    intro g hg
    exact s.plain_fields g (by rw [h]; exact List.mem_append_left _ hg)
  obtain ⟨t, ht⟩ : ∃ t, s.text = fieldsText a ++ (f ++ 44 :: t) := by
    unfold text body
    rw [h]
    simp only [fieldsText, List.flatMap_append, List.flatMap_cons, List.append_assoc, List.cons_append,
      List.nil_append]
    exact ⟨_, rfl⟩
  have hpos := comma_pos (t := f ++ 44 :: t) hplain (by simp) (by rw [← ht]; omega)
  have hle : (fieldsText a).length ≤ s.text.length := by
    rw [ht, List.length_append]
    omega
  rw [← ht] at hpos
  exact ⟨_, t, hpos, by omega, by rw [ht, List.drop_left]⟩

/-- The date, with the star or a comma behind it. -/
theorem date_pos (hlen : s.text.length < 128) : ∃ posx c t,
    NMEA_Comma_Pos s.text 9 s.text.length = posx ∧ posx ≠ 0xFF ∧ Ends c ∧
      s.text.drop posx = digitText (two s.day.val ++ two s.month.val ++ two s.year.val) ++ c :: t := by
  obtain ⟨c, t, hc, ht⟩ : ∃ c t, Ends c ∧ s.text = fieldsText s.fields ++
      (digitText (two s.day.val ++ two s.month.val ++ two s.year.val) ++ c :: t) := by
    unfold text body
    rcases s.more with _ | ⟨f, more⟩
    · simp only [List.append_assoc, List.flatMap_nil, List.nil_append]
      exact ⟨42, _, Or.inr rfl, rfl⟩
    · simp only [List.append_assoc, List.flatMap_cons, List.cons_append]
      exact ⟨44, _, Or.inl rfl, rfl⟩
  have hpos := comma_pos (t := digitText (two s.day.val ++ two s.month.val ++ two s.year.val) ++ c :: t)
    s.plain_fields (by simp) (by rw [← ht]; omega)
  have hle : (fieldsText s.fields).length ≤ s.text.length := by
    rw [ht, List.length_append]
    omega
  rw [← ht] at hpos
  exact ⟨_, c, t, hpos, by omega, hc, by rw [ht, List.drop_left]⟩

/-! ## What the fields are read as -/

variable {m : Arith} (hm : m.Right32)

include hm in
/-- A number with at most `places` decimals, brought to this number of them. -/
theorem scaled_field {p1 : Bytes} {p : ℕ} {ds fs : List ℕ} (hds : Digits ds) (hfs : Digits fs)
    (hne : ds ≠ []) {t : Bytes} (h : p1.drop p = digitText ds ++ fracText fs ++ 44 :: t) {places : ℕ}
    (hplaces : fs.length ≤ places) (hlen : ds.length + places ≤ 10)
    (hval : decVal ds * 10 ^ places + decimals places fs < 2 ^ 31) :
    (NMEA_Str2num m p1 p places).bBlank = false ∧
      scaled m (NMEA_Str2num m p1 p places) places
        = decVal ds * 10 ^ places + decimals places fs := by
  have hsplit : decVal ds * 10 ^ places + decimals places fs
      = (decVal ds * 10 ^ fs.length + decVal fs) * 10 ^ (places - fs.length) := by
    have hpow : 10 ^ places = 10 ^ fs.length * 10 ^ (places - fs.length) := by
      rw [← pow_add]
      congr 1
      omega
    unfold decimals
    rw [hpow]
    ring
  have hpow : 1 ≤ 10 ^ (places - fs.length) := Nat.one_le_pow _ _ (by norm_num)
  have hnum : decVal ds * 10 ^ fs.length + decVal fs < 2 ^ 31 := by
    have hle := Nat.le_mul_of_pos_right (decVal ds * 10 ^ fs.length + decVal fs) hpow
    omega
  rw [List.append_assoc] at h
  rw [NMEA_Str2num_field hm hds hfs hne (Or.inl rfl) h hplaces (by omega) hnum]
  refine ⟨rfl, ?_⟩
  have htemp := hm.u32 (decVal ds * 10 ^ fs.length + decVal fs) (by omega)
  have hdx : ((fs.length : ℤ) % 256).toNat = fs.length := by omega
  unfold scaled
  dsimp only
  rw [htemp, hdx, hsplit]
  split_ifs with hlt
  · have hpos := List.length_pos_of_ne_nil hne
    have hright := hm.u32 ((decVal ds * 10 ^ fs.length + decVal fs) * 10 ^ (places - fs.length)) (by omega)
    rw [NMEA_Pow_eq hm (by omega)]
    exact_mod_cast hright
  · have hzero : places - fs.length = 0 := by omega
    rw [hzero, pow_zero, mul_one]

theorem decimals_lt {places : ℕ} (f : Decimals places) : decimals places f.digits < 10 ^ places := by
  have hlt := decVal_lt f.decimal
  have hpow : 10 ^ places = 10 ^ f.digits.length * 10 ^ (places - f.digits.length) := by
    rw [← pow_add]
    have hle := f.length_le
    congr 1
    omega
  unfold decimals
  rw [hpow]
  exact Nat.mul_lt_mul_of_pos_right hlt (by positivity)

theorem decVal_append_two (ds : List ℕ) (n : ℕ) : decVal (ds ++ two n) = decVal ds * 100 + n := by
  rw [decVal_append, decVal_two]
  rfl

include hm in
/-- Degrees and minutes, for any width of the degrees. -/
theorem degreeMin_field {p1 : Bytes} {p : ℕ} {ds : List ℕ} (hds : Digits ds) (hlen : ds.length ≤ 3)
    {minute : ℕ} (hminute : minute < 100) (f : Decimals 5) {t : Bytes}
    (h : p1.drop p = digitText (ds ++ two minute) ++ fracText f.digits ++ 44 :: t)
    (hval : decVal ds * 10 ^ 7 + minute * 10 ^ 5 + decimals 5 f.digits < 2 ^ 31) :
    degreeMin m p1 p = some (UInt8.ofNat (decVal ds), minute * 10 ^ 5 + decimals 5 f.digits) := by
  have hnum : decVal (ds ++ two minute) * 10 ^ 5 + decimals 5 f.digits
      = decVal ds * 10 ^ 7 + minute * 10 ^ 5 + decimals 5 f.digits := by
    rw [decVal_append_two]
    ring
  -- Ten digits at most, or the power of ten would not fit a `uint32`.
  have hwidth : (ds ++ two minute).length + 5 ≤ 10 := by
    rw [List.length_append]
    show ds.length + 2 + 5 ≤ 10
    omega
  obtain ⟨hblank, htemp⟩ := scaled_field hm (hds.append (digits_two hminute)) f.decimal
    (by simp [two]) h f.length_le hwidth (by rw [hnum]; exact hval)
  have hlt := decimals_lt f
  unfold degreeMin
  rw [hnum] at htemp
  rw [Nat.cast_ofNat] at hblank htemp
  dsimp only
  rw [hblank, htemp, NMEA_Pow_eq hm (by norm_num), if_neg Bool.false_ne_true]
  -- Seven places are the minutes with their decimals; the degrees stand above them.
  have hdegree : (decVal ds * 10 ^ 7 + minute * 10 ^ 5 + decimals 5 f.digits) / 10 ^ (5 + 2) = decVal ds
      := by omega
  have hmin : (decVal ds * 10 ^ 7 + minute * 10 ^ 5 + decimals 5 f.digits) % 10 ^ (5 + 2)
      = minute * 10 ^ 5 + decimals 5 f.digits := by omega
  rw [hdegree, hmin]

/-! ## The steps of the analysis -/

variable {s} (hlen : s.text.length < 128) (d : NMEA0183_Gps)

include hm hlen in
theorem utcTime_text : utcTime m s.text s.text.length d =
    { d with Hour := s.reading.Hour, Minute := s.reading.Minute, Second := s.reading.Second } := by
  obtain ⟨posx, t, hpos, hff, hdrop⟩ :=
    s.field_pos hlen (a := s.fields.take 1) (b := s.fields.drop 2) rfl
  have hval : decVal (two s.hour.val ++ two s.minute.val ++ two s.second.val)
      = s.hour.val * 10000 + s.minute.val * 100 + s.second.val := by
    rw [decVal_append_two, decVal_append_two, decVal_two]
    ring
  have hfrac := decimals_lt s.secondDecimals
  have hhour := s.hour.isLt
  have hminute := s.minute.isLt
  have hsecond := s.second.isLt
  obtain ⟨-, htemp⟩ := scaled_field hm s.digits_time s.secondDecimals.decimal (by simp [two]) hdrop
    s.secondDecimals.length_le (by simp [two]) (by rw [hval]; omega)
  rw [hval, Nat.cast_ofNat] at htemp
  change NMEA_Comma_Pos s.text 1 s.text.length = posx at hpos
  unfold utcTime
  rw [hpos]
  dsimp only
  rw [if_pos hff, htemp]
  -- `hhmmss` and the two decimals, taken apart again.
  have h1 : ((s.hour.val * 10000 + s.minute.val * 100 + s.second.val) * 10 ^ 2 +
      decimals 2 s.secondDecimals.digits) / 1000000 = s.hour.val := by omega
  have h2 : ((s.hour.val * 10000 + s.minute.val * 100 + s.second.val) * 10 ^ 2 +
      decimals 2 s.secondDecimals.digits) / 10000 % 100 = s.minute.val := by omega
  have h3 : ((s.hour.val * 10000 + s.minute.val * 100 + s.second.val) * 10 ^ 2 +
      decimals 2 s.secondDecimals.digits) % 10000
        = s.second.val * 100 + decimals 2 s.secondDecimals.digits := by omega
  rw [h1, h2, h3]
  rfl

include hlen in
theorem posMode_text : posMode s.text s.text.length d = { d with quality := s.reading.quality } := by
  obtain ⟨posx, t, hpos, hff, hdrop⟩ :=
    s.field_pos hlen (a := s.fields.take 2) (b := s.fields.drop 3) rfl
  change NMEA_Comma_Pos s.text 2 s.text.length = posx at hpos
  unfold posMode
  rw [hpos]
  dsimp only
  rw [if_pos hff, getD_of_drop hdrop]
  unfold reading
  cases s.valid <;> rfl

include hm hlen in
theorem latitude_text : latitude m s.text s.text.length d =
    { d with
      cLatitudeDegree := s.reading.cLatitudeDegree
      lLatitudeMin := s.reading.lLatitudeMin } := by
  obtain ⟨posx, t, hpos, hff, hdrop⟩ :=
    s.field_pos hlen (a := s.fields.take 3) (b := s.fields.drop 4) rfl
  have hfrac := decimals_lt s.latDecimals
  have hdegree := s.latDegree.isLt
  have hminute := s.latMinute.isLt
  have hread := degreeMin_field hm (digits_two hdegree) (by simp [two]) hminute s.latDecimals hdrop
    (by rw [decVal_two]; omega)
  rw [decVal_two] at hread
  change NMEA_Comma_Pos s.text 3 s.text.length = posx at hpos
  unfold latitude
  rw [hpos]
  dsimp only
  rw [if_pos hff, hread]
  rfl

include hlen in
theorem southNorth_text : southNorth s.text s.text.length d =
    { d with cSouthNorth := s.reading.cSouthNorth } := by
  obtain ⟨posx, t, hpos, hff, hdrop⟩ :=
    s.field_pos hlen (a := s.fields.take 4) (b := s.fields.drop 5) rfl
  change NMEA_Comma_Pos s.text 4 s.text.length = posx at hpos
  unfold southNorth
  rw [hpos]
  dsimp only
  rw [if_pos hff, getD_of_drop hdrop]
  rfl

include hm hlen in
theorem longitude_text : longitude m s.text s.text.length d =
    { d with
      cLongitudeDegree := s.reading.cLongitudeDegree
      lLongitudeMin := s.reading.lLongitudeMin } := by
  obtain ⟨posx, t, hpos, hff, hdrop⟩ :=
    s.field_pos hlen (a := s.fields.take 5) (b := s.fields.drop 6) rfl
  have hle := s.lon_le
  have hread := degreeMin_field hm (digits_three s.lonDegree.isLt) (by simp [three]) s.lonMinute.isLt
    s.lonDecimals hdrop (by rw [decVal_three]; omega)
  rw [decVal_three] at hread
  change NMEA_Comma_Pos s.text 5 s.text.length = posx at hpos
  unfold longitude
  rw [hpos]
  dsimp only
  rw [if_pos hff, hread]
  rfl

include hlen in
theorem eastWest_text : eastWest s.text s.text.length d =
    { d with cEastWest := s.reading.cEastWest } := by
  obtain ⟨posx, t, hpos, hff, hdrop⟩ :=
    s.field_pos hlen (a := s.fields.take 6) (b := s.fields.drop 7) rfl
  change NMEA_Comma_Pos s.text 6 s.text.length = posx at hpos
  unfold eastWest
  rw [hpos]
  dsimp only
  rw [if_pos hff, getD_of_drop hdrop]
  rfl

include hm hlen in
theorem utcDate_text : utcDate m s.text s.text.length d =
    { d with Day := s.reading.Day, Month := s.reading.Month, Year := s.reading.Year } := by
  obtain ⟨posx, c, t, hpos, hff, hc, hdrop⟩ := s.date_pos hlen
  have hval : decVal (two s.day.val ++ two s.month.val ++ two s.year.val)
      = s.day.val * 10000 + s.month.val * 100 + s.year.val := by
    rw [decVal_append_two, decVal_append_two, decVal_two]
    ring
  have hday := s.day.isLt
  have hmonth := s.month.isLt
  have hyear := s.year.isLt
  -- A date is a field without decimals, and it may be ended by the star instead of a comma.
  have hnone : Digits [] := nofun
  have hmax : ([] : List ℕ).length ≤ 0 := le_rfl
  have hread := NMEA_Str2num_field hm s.digits_date hnone (by simp [two]) hc hdrop hmax
    (by simp [two]) (by rw [hval, decVal_nil]; simp only [List.length_nil]; omega)
  rw [hval, Nat.cast_zero] at hread
  simp only [List.length_nil, pow_zero, mul_one, decVal_nil, add_zero] at hread
  unfold utcDate
  rw [hpos]
  dsimp only
  rw [if_pos hff, hread]
  dsimp only
  rw [hm.u32 _ (by omega)]
  have h1 : (s.day.val * 10000 + s.month.val * 100 + s.year.val) / 10000 = s.day.val := by omega
  have h2 : (s.day.val * 10000 + s.month.val * 100 + s.year.val) / 100 % 100 = s.month.val := by omega
  have h3 : (s.day.val * 10000 + s.month.val * 100 + s.year.val) % 100 = s.year.val := by omega
  rw [h1, h2, h3]
  rfl

end RmcSentence

/-! ## The whole sentence -/

/-- The halves of a byte, and the byte that they make. -/
theorem hex_halves : ∀ n : Fin 256, let b := UInt8.ofNat n
    hexDigit (hexChar (b >>> 4)) = some (b >>> 4) ∧ hexDigit (hexChar (b &&& 15)) = some (b &&& 15) ∧
      b >>> 4 <<< 4 ||| (b &&& 15) = b := by
  decide +kernel

/-- The two digits of a checksum stand for it. -/
theorem get_checksum_hexText (b : UInt8) (t : Bytes) :
    nmea0183_get_checksum (hexText b ++ t) = b := by
  obtain ⟨hhigh, hlow, hjoin⟩ := hex_halves ⟨b.toNat, b.toNat_lt⟩
  rw [UInt8.ofNat_toNat] at hhigh hlow hjoin
  have hfirst : (hexText b ++ t).getD 0 0 = hexChar (b >>> 4) := rfl
  have hsecond : (hexText b ++ t).getD 1 0 = hexChar (b &&& 15) := rfl
  unfold nmea0183_get_checksum
  rw [hfirst, hsecond, hhigh, hlow]
  exact hjoin

/-- **The analysis of an RMC sentence gets exactly what the sentence says**, with any arithmetic
that is right as long as no value needs more than 32 bits. -/
theorem rmc_analysis_exact {m : Arith} (hm : m.Right32) (s : RmcSentence)
    (hlen : s.text.length < 128) :
    api_nmea0183_rmc_analysis m s.text s.text.length = some s.reading := by
  have hbody : s.body.length + 1 ≤ s.text.length := by
    unfold RmcSentence.text
    rw [List.length_append, List.length_cons]
    omega
  have hstar : nmea0183_star_Pos s.text 1 s.text.length = s.body.length + 1 := by
    have hpos := star_pos (t := hexText ((s.body.drop 1).foldl (· ^^^ ·) 0) ++ s.tail) s.body_inside (by
      show s.text.length < 65536
      omega)
    rwa [Nat.mod_eq_of_lt (by omega)] at hpos
  have hpos : 0 < s.body.length := Nat.succ_pos _
  have hsum : nmea0183_get_checksum (s.text.drop (s.body.length + 1))
      = (s.body.drop 1).foldl (· ^^^ ·) 0 := by
    have hdrop : s.text.drop (s.body.length + 1)
        = hexText ((s.body.drop 1).foldl (· ^^^ ·) 0) ++ s.tail := by
      unfold RmcSentence.text
      rw [← List.drop_drop, List.drop_left]
      rfl
    rw [hdrop, get_checksum_hexText]
  have hbcc : bcc_checksum (s.text.drop 1) ((s.body.length + 1 + 254) % 256)
      = some ((s.body.drop 1).foldl (· ^^^ ·) 0) := bcc_between hpos (by omega) _
  have hff : s.body.length + 1 ≠ 0xFF := by omega
  unfold api_nmea0183_rmc_analysis
  dsimp only
  rw [List.take_length, hstar, if_pos hff, hsum, hbcc, Option.map_some, if_neg (by simp),
    RmcSentence.utcTime_text hm hlen, RmcSentence.posMode_text hlen, RmcSentence.latitude_text hm hlen,
    RmcSentence.southNorth_text hlen, RmcSentence.longitude_text hm hlen, RmcSentence.eastWest_text hlen,
    RmcSentence.utcDate_text hm hlen]

def RMC_TEST_DATA : Bytes :=
  bytes "$GNRMC,094449.00,A,2241.52300,N,11417.56819,E,0.075,,241220,,,D*6A"

/-- `RMC_TEST_DATA`, by what it says. -/
def rmcTest : RmcSentence where
  talker := ⟨bytes "GN", by decide +kernel⟩
  hour := 9
  minute := 44
  second := 49
  secondDecimals := ⟨[0, 0], by decide, by decide, by decide⟩
  valid := true
  latDegree := 22
  latMinute := 41
  latDecimals := ⟨[5, 2, 3, 0, 0], by decide, by decide, by decide⟩
  north := true
  lonDegree := 114
  lonMinute := 17
  lonDecimals := ⟨[5, 6, 8, 1, 9], by decide, by decide, by decide⟩
  lon_le := by decide
  east := true
  speed := ⟨bytes "0.075", by decide +kernel⟩
  course := ⟨[], by decide +kernel⟩
  day := 24
  month := 12
  year := 20
  more := [⟨[], by decide +kernel⟩, ⟨[], by decide +kernel⟩, ⟨bytes "D", by decide +kernel⟩]
  tail := []

theorem rmc_analysis_exact_test_data : arith32.Right32 ∧ rmcTest.text.length < 128 ∧
    rmcTest.text = RMC_TEST_DATA ∧
    api_nmea0183_rmc_analysis arith32 rmcTest.text rmcTest.text.length = some
      { Year := 2020, Month := 12, Day := 24, Hour := 9, Minute := 44, Second := 4900,
        cLatitudeDegree := 22, lLatitudeMin := 4152300, cSouthNorth := 78,
        cLongitudeDegree := 114, lLongitudeMin := 1756819, cEastWest := 69, quality := 1 } := by
  have hlen : rmcTest.text.length < 128 := by decide +kernel
  refine ⟨arith32_right, hlen, by decide +kernel, ?_⟩
  rw [rmc_analysis_exact arith32_right rmcTest hlen]
  decide +kernel

end TestCore.Gps
