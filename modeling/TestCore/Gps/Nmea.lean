/-
The helpers of `gps_uart.c` for NMEA 0183 sentences: positions of marks, the checksum, and the
conversion of a field to a scaled integer.

A sentence lies in a buffer `p1` of `nRxLen` bytes, and everything is found by its offset in
it. Characters are `int8`, that is, signed; the counters of a number's digits are `int8` too,
and wrap. What is computed in a `uint32` or an `int` goes through `Arith`: the arithmetic of
the machine, of which the results only use that it is right as long as nothing overflows
(`Arith.Right32`). A result that holds for all of these does not depend on what the machine
does with a value of 32 bits or more.

`nmea0183_star_Pos` and `NMEA_Comma_Pos` are the same loop, with another mark and another
set of characters that end it (`nmeaPos`).
-/
import TestCore.Lib.Decimal

set_option autoImplicit false

namespace TestCore.Gps

open TestCore.Lib

/-! ## Numbers of the machine -/

/-- What a value becomes in a `uint32` and in an `int`. -/
structure Arith where
  u32 : ℤ → ℕ
  int : ℤ → ℤ

/-- The arithmetic is right where nothing overflows. -/
structure Arith.Right32 (m : Arith) : Prop where
  u32 : ∀ n : ℕ, n < 2 ^ 32 → m.u32 n = n
  int : ∀ n : ℕ, n < 2 ^ 31 → m.int n = n

/-- A machine on which both have 32 bits. -/
def arith32 : Arith where
  u32 n := (n % 2 ^ 32).toNat
  int n := Int.bmod n (2 ^ 32)

theorem arith32_right : arith32.Right32 := by
  constructor
  case u32 =>
    intro n hn
    dsimp only [arith32]
    omega
  case int =>
    intro n hn
    dsimp only [arith32]
    rw [Int.bmod_def]
    split_ifs
    · omega
    · omega

/-- A value in an `int8`. -/
def i8 (n : ℤ) : ℤ := Int.bmod n (2 ^ 8)

theorem i8_of_lt {n : ℕ} (h : n < 128) : i8 n = n := by
  unfold i8
  rw [Int.bmod_def]
  split_ifs
  · omega
  · omega

/-- The character at an offset. Outside the buffer it is taken to be a zero. -/
def charAt (p1 : Bytes) (i : ℤ) : ℤ := if 0 ≤ i then i8 (p1.getD i.toNat 0).toNat else 0

/-! ## Positions -/

/-- The loop of the two functions: one past the `cx`-th mark as an `u8`, or `0xFF`. `nMaxLen`
is a `u16` that is counted down before it is tested. -/
def nmeaPos (stop : UInt8 → Bool) (mark : UInt8) : Bytes → ℕ → ℕ → ℕ → ℕ
  | [], pos, cx, _ => if cx = 0 then pos % 256 else 0xFF
  | c :: buf, pos, cx, nMaxLen =>
      if cx = 0 then pos % 256
      else if stop c then 0xFF
      else
        let cx := if c = mark then cx - 1 else cx
        let nMaxLen := (nMaxLen + 65535) % 65536
        if nMaxLen = 0 then (if cx = 0 then (pos + 1) % 256 else 0xFF)
        else nmeaPos stop mark buf (pos + 1) cx nMaxLen

/-- `(*buf<' ')||(*buf>'z')`. -/
def outside (c : UInt8) : Bool := i8 c.toNat < 32 ∨ 122 < i8 c.toNat

def nmea0183_star_Pos (buf : Bytes) (cx nMaxLen : ℕ) : ℕ := nmeaPos outside 42 buf 0 cx nMaxLen

def NMEA_Comma_Pos (buf : Bytes) (cx nMaxLen : ℕ) : ℕ :=
  nmeaPos (fun c => c = 42 || outside c) 44 buf 0 cx nMaxLen

/-! ## The checksum -/

/-- One hexadecimal digit of `nmea0183_get_checksum`. -/
def hexDigit (c : UInt8) : Option UInt8 :=
  if 48 ≤ c ∧ c ≤ 57 then some (c - 48) else if 65 ≤ c ∧ c ≤ 70 then some (c - 65 + 10) else none

def nmea0183_get_checksum (buf : Bytes) : UInt8 :=
  match hexDigit (buf.getD 0 0), hexDigit (buf.getD 1 0) with
  | some high, some low => high <<< 4 ||| low
  | _, _ => 0xFF

/-- `bcc_checksum`. Its `int8 i` never gets to a `len` of 128 or more: there is no result. -/
def bcc_checksum (buf : Bytes) (len : ℕ) : Option UInt8 :=
  if len < 128 then some ((buf.take len).foldl (· ^^^ ·) 0) else none

/-! ## Numbers -/

/-- `NMEA_Pow`, for `n` rounds of its loop. -/
def NMEA_Pow (m : Arith) (b : ℕ) : ℕ → ℕ
  | 0 => 1
  | n + 1 => m.u32 (NMEA_Pow m b n * b)

/-- What the loop of `NMEA_Str2num` over a field finds. -/
structure Scan where
  /-- `mask & 0X02`. -/
  minus : Bool := false
  /-- `mask & 0X01`. -/
  point : Bool := false
  ilen : ℤ := 0
  flen : ℤ := 0
  deriving DecidableEq, Repr

/-- `if(*p=='-')`. -/
def Scan.sign (p1 : Bytes) (p : ℕ) (s : Scan) : ℕ × Scan :=
  if charAt p1 p = 45 then (p + 1, { s with minus := true }) else (p, s)

/-- One more digit is counted. -/
def Scan.count (s : Scan) : Scan :=
  if s.point then { s with flen := i8 (s.flen + 1) } else { s with ilen := i8 (s.ilen + 1) }

/-- The loop. The character after the point is counted without a look at it. Every round goes at
least one character on, and none goes past the end of the buffer. -/
def NMEA_Str2num.scan (p1 : Bytes) : ℕ → ℕ → Scan → Scan
  | 0, _, s => s
  | rounds + 1, p, s =>
      let (p, s) := s.sign p1 p
      if charAt p1 p = 44 ∨ charAt p1 p = 42 then s
      else if charAt p1 p = 46 then
        NMEA_Str2num.scan p1 rounds (p + 2) { s with point := true }.count
      else if 57 < charAt p1 p ∨ charAt p1 p < 48 then { s with ilen := 0, flen := 0 }
      else NMEA_Str2num.scan p1 rounds (p + 1) s.count

/-- The sum over `len` digits from the offset `pos` on. -/
def NMEA_Str2num.sum (m : Arith) (p1 : Bytes) (pos len : ℤ) : ℕ :=
  (List.range len.toNat).foldl (fun res i =>
    m.u32 (res + m.u32 (NMEA_Pow m 10 (len.toNat - 1 - i) * (charAt p1 (pos + i) - 48)))) 0

/-- The result of `NMEA_Str2num`, with what it stores to `dx` and `bBlank`. -/
structure Num where
  res : ℤ
  dx : ℤ
  bBlank : Bool
  deriving DecidableEq, Repr

/-- `NMEA_Str2num` of the field at offset `pos`. -/
def NMEA_Str2num (m : Arith) (p1 : Bytes) (pos : ℕ) (cMaxFlen : ℤ) : Num :=
  let s := NMEA_Str2num.scan p1 (p1.length + 1) pos {}
  let buf : ℤ := if s.minus then pos + 1 else pos
  let ires := NMEA_Str2num.sum m p1 buf s.ilen
  let flen := if s.flen > cMaxFlen then cMaxFlen else s.flen
  let fres := NMEA_Str2num.sum m p1 (buf + s.ilen + 1) flen
  -- A negative `int8` is counted down to zero all the way round.
  let res := m.int (m.u32 (m.u32 (ires * NMEA_Pow m 10 (flen % 256).toNat) + fres))
  let res := if flen < cMaxFlen ∧ 0 < flen ∧ 5 < charAt p1 (buf + s.ilen + flen + 1) - 48 then
    m.int (res + 1) else res
  { res := if s.minus then m.int (-res) else res
    dx := flen
    bBlank := s.ilen = 0 ∧ s.flen = 0 }

/-! ## Characters at an offset -/

theorem charAt_natCast (p1 : Bytes) (i : ℕ) : charAt p1 i = i8 (p1.getD i 0).toNat := by
  unfold charAt
  rw [if_pos (Int.natCast_nonneg i), Int.toNat_natCast]

theorem getD_of_drop {p1 : Bytes} {p : ℕ} {c : UInt8} {t : Bytes} (h : p1.drop p = c :: t) :
    p1.getD p 0 = c := by
  have hzero : (p1.drop p).getD 0 0 = c := by
    rw [h]
    rfl
  simpa [List.getD_eq_getElem?_getD, List.getElem?_drop] using hzero

/-- The character that a part of the buffer starts with. -/
theorem charAt_of_drop {p1 : Bytes} {p : ℕ} {c : UInt8} {t : Bytes} (h : p1.drop p = c :: t)
    (hc : c.toNat < 128) : charAt p1 p = c.toNat := by
  rw [charAt_natCast, getD_of_drop h, i8_of_lt hc]

/-- A character further on in that part. -/
theorem charAt_of_drop_append {p1 : Bytes} {p : ℕ} {f : Bytes} {c : UInt8} {t : Bytes}
    (h : p1.drop p = f ++ c :: t) (hc : c.toNat < 128) : charAt p1 (p + f.length : ℕ) = c.toNat := by
  refine charAt_of_drop (t := t) ?_ hc
  rw [← List.drop_drop, h, List.drop_left]

theorem drop_next {p1 : Bytes} {p : ℕ} {c : UInt8} {t : Bytes} (h : p1.drop p = c :: t) :
    p1.drop (p + 1) = t := by
  rw [← List.drop_drop, h]
  rfl

/-! ## The sum of the digits -/

variable {m : Arith} (hm : m.Right32)

theorem lt_of_pow {n : ℕ} (h : n ≤ 9) : 10 ^ n < 2 ^ 32 :=
  lt_of_le_of_lt (Nat.pow_le_pow_right (by norm_num) h) (by norm_num)

include hm in
theorem NMEA_Pow_eq {n : ℕ} (h : n ≤ 9) : NMEA_Pow m 10 n = 10 ^ n := by
  induction n with
  | zero => rfl
  | succ n ih =>
      have hlt := lt_of_pow h
      show m.u32 (NMEA_Pow m 10 n * (10 : ℕ)) = _
      rw [ih (by omega), pow_succ]
      exact_mod_cast hm.u32 _ (by rwa [pow_succ] at hlt)

/-- The value of the first digits, with zeros for the others. -/
theorem decVal_take_le (ds : List ℕ) (k : ℕ) :
    decVal (ds.take k) * 10 ^ (ds.length - k) ≤ decVal ds := by
  have hsplit := decVal_append (ds.take k) (ds.drop k)
  rw [List.take_append_drop, List.length_drop] at hsplit
  omega

theorem decVal_take_succ {ds : List ℕ} {k : ℕ} (h : k < ds.length) :
    decVal (ds.take (k + 1)) = decVal (ds.take k) * 10 + ds.getD k 0 := by
  rw [List.take_succ_eq_append_getElem h, decVal_append, decVal_singleton,
    List.getD_eq_getElem _ _ h, List.length_singleton, pow_one]

theorem charAt_digit {p1 : Bytes} {pos : ℕ} {ds : List ℕ} (hds : Digits ds) {t : Bytes}
    (h : p1.drop pos = digitText ds ++ t) {k : ℕ} (hk : k < ds.length) :
    charAt p1 ((pos : ℤ) + k) = 48 + ds.getD k 0 := by
  have hget : ds.getD k 0 = ds[k] := List.getD_eq_getElem _ _ hk
  have hlt : ds[k] < 10 := hds _ (List.getElem_mem hk)
  have hchar : (digit ds[k]).toNat = 48 + ds[k] := digit_toNat hlt
  have hsplit : p1.drop pos = digitText (ds.take k) ++ digit ds[k] :: (digitText (ds.drop (k + 1)) ++ t)
      := by
    conv at h => rw [← List.take_append_drop k ds, List.drop_eq_getElem_cons hk]
    rw [h, digitText_append, List.append_assoc]
    rfl
  have hoff := charAt_of_drop_append hsplit (by omega)
  rw [digitText_length, List.length_take_of_le hk.le] at hoff
  rw [hget]
  push_cast at hoff
  rw [hoff]
  exact_mod_cast hchar

include hm in
/-- One digit at its place. Where the power is too large for the machine, the digit is zero. -/
theorem digit_at_place {d n : ℕ} (hval : d * 10 ^ n < 2 ^ 32) :
    m.u32 (NMEA_Pow m 10 n * (d : ℕ)) = d * 10 ^ n := by
  rcases Nat.eq_zero_or_pos d with rfl | hpos
  · simpa using hm.u32 0 (by norm_num)
  · have hn : n ≤ 9 := by
      by_contra hn
      have hpow : 10 ^ 10 ≤ 10 ^ n := Nat.pow_le_pow_right (by norm_num) (by omega)
      have hle : 10 ^ n ≤ d * 10 ^ n := Nat.le_mul_of_pos_left _ hpos
      have hbig : 2 ^ 32 ≤ 10 ^ 10 := by norm_num
      omega
    have hright := hm.u32 _ hval
    rw [NMEA_Pow_eq hm hn, ← hright]
    congr 1
    push_cast
    ring

include hm in
/-- One more digit: it is added at its place, and neither the product nor the sum overflows. -/
theorem sum_step {ds : List ℕ} (hval : decVal ds < 2 ^ 32) {k : ℕ} (hk : k < ds.length) :
    m.u32 ((decVal (ds.take k) * 10 ^ (ds.length - k) : ℕ)
        + m.u32 (NMEA_Pow m 10 (ds.length - 1 - k) * (ds.getD k 0 : ℕ)))
      = decVal (ds.take (k + 1)) * 10 ^ (ds.length - (k + 1)) := by
  have hle := decVal_take_le ds (k + 1)
  have hexp : ds.length - k = ds.length - (k + 1) + 1 := by omega
  have hplace : ds.length - 1 - k = ds.length - (k + 1) := by omega
  rw [decVal_take_succ hk, add_mul] at hle
  rw [hplace, digit_at_place hm (by omega), decVal_take_succ hk, hexp, pow_succ, add_mul]
  have hlt : decVal (ds.take k) * 10 * 10 ^ (ds.length - (k + 1)) +
      ds.getD k 0 * 10 ^ (ds.length - (k + 1)) < 2 ^ 32 := by omega
  have hright := hm.u32 _ hlt
  rw [← hright]
  congr 1
  push_cast
  ring

include hm in
/-- **The sum is the number that the digits stand for**, and nothing on the way is greater. -/
theorem sum_eq {p1 : Bytes} {pos : ℕ} {ds : List ℕ} (hds : Digits ds) {t : Bytes}
    (h : p1.drop pos = digitText ds ++ t) (hval : decVal ds < 2 ^ 32) :
    NMEA_Str2num.sum m p1 pos ds.length = decVal ds := by
  -- After `k` digits the sum is their value with zeros behind.
  have hpart : ∀ k ≤ ds.length, (List.range k).foldl (fun res i =>
      m.u32 (res + m.u32 (NMEA_Pow m 10 (ds.length - 1 - i) * (charAt p1 (pos + i) - 48)))) 0
        = decVal (ds.take k) * 10 ^ (ds.length - k) := by
    intro k hk
    induction k with
    | zero => simp
    | succ k ih =>
        have hdigit : (48 + (ds.getD k 0 : ℤ)) - 48 = (ds.getD k 0 : ℕ) := by ring
        rw [List.range_succ, List.foldl_append, ih (by omega), List.foldl_cons, List.foldl_nil,
          charAt_digit hds h hk, hdigit]
        exact sum_step hm hval hk
  have hall := hpart ds.length le_rfl
  rw [List.take_length, Nat.sub_self, pow_zero, mul_one] at hall
  unfold NMEA_Str2num.sum
  rw [Int.toNat_natCast]
  exact hall

/-! ## Fields -/

/-- The characters between two marks. -/
def Plain (c : UInt8) : Prop := 32 ≤ c.toNat ∧ c.toNat ≤ 122 ∧ c ≠ 44 ∧ c ≠ 42

instance (c : UInt8) : Decidable (Plain c) := inferInstanceAs (Decidable (_ ∧ _ ∧ _ ∧ _))

theorem outside_of_le {c : UInt8} (h : 32 ≤ c.toNat) (h' : c.toNat ≤ 122) : outside c = false := by
  have hchar : i8 c.toNat = c.toNat := i8_of_lt (by omega)
  unfold outside
  rw [hchar, decide_eq_false_iff_not]
  omega

/-- A character that is no mark and ends nothing is passed over, if it is not the last one. -/
theorem nmeaPos_pass {stop : UInt8 → Bool} {mark c : UInt8} (hstop : stop c = false) (hmark : c ≠ mark)
    {t : Bytes} {pos cx n : ℕ} (hcx : cx ≠ 0) (hn : 1 < n) (hmax : n < 65536) :
    nmeaPos stop mark (c :: t) pos cx n = nmeaPos stop mark t (pos + 1) cx (n - 1) := by
  have hdown : (n + 65535) % 65536 = n - 1 := by omega
  have hzero : ¬ n - 1 = 0 := by omega
  rw [nmeaPos, if_neg hcx, hstop, if_neg Bool.false_ne_true]
  dsimp only
  rw [if_neg hmark, hdown, if_neg hzero]

/-- Such characters, one after the other. -/
theorem nmeaPos_skip {stop : UInt8 → Bool} {mark : UInt8} {f t : Bytes}
    (hf : ∀ c ∈ f, stop c = false ∧ c ≠ mark) {pos cx n : ℕ} (hcx : cx ≠ 0) (hn : f.length < n)
    (hmax : n < 65536) :
    nmeaPos stop mark (f ++ t) pos cx n
      = nmeaPos stop mark t (pos + f.length) cx (n - f.length) := by
  induction f generalizing pos n with
  | nil => rfl
  | cons c f ih =>
      obtain ⟨hstop, hmark⟩ := hf c List.mem_cons_self
      rw [List.length_cons] at hn
      rw [List.cons_append, nmeaPos_pass hstop hmark hcx (by omega) hmax,
        ih (fun e he => hf e (List.mem_cons_of_mem c he)) (by omega) (by omega), List.length_cons,
        Nat.sub_sub, Nat.add_assoc, Nat.add_comm 1]

/-- A mark that is not the last character is counted. -/
theorem nmeaPos_mark {stop : UInt8 → Bool} {mark : UInt8} (hstop : stop mark = false) {t : Bytes}
    {pos cx n : ℕ} (hn : 1 < n) (hmax : n < 65536) :
    nmeaPos stop mark (mark :: t) pos (cx + 1) n = nmeaPos stop mark t (pos + 1) cx (n - 1) := by
  have hdown : (n + 65535) % 65536 = n - 1 := by omega
  have hzero : ¬ n - 1 = 0 := by omega
  rw [nmeaPos, if_neg (Nat.succ_ne_zero cx), hstop, if_neg (by simp)]
  dsimp only
  rw [if_pos rfl, hdown, if_neg hzero, Nat.add_sub_cancel]

theorem nmeaPos_zero (stop : UInt8 → Bool) (mark : UInt8) (t : Bytes) (pos n : ℕ) :
    nmeaPos stop mark t pos 0 n = pos % 256 := by
  cases t <;> rfl

/-- Fields, with the comma behind each. -/
def fieldsText (fields : List Bytes) : Bytes := fields.flatMap (· ++ [44])

theorem fieldsText_cons (f : Bytes) (fields : List Bytes) :
    fieldsText (f :: fields) = f ++ 44 :: fieldsText fields := by
  simp [fieldsText]

/-- **The text after `k` fields is found behind the `k`-th comma.** -/
theorem comma_pos {fields : List Bytes} (hplain : ∀ f ∈ fields, ∀ c ∈ f, Plain c) {t : Bytes}
    (hne : t ≠ []) (hmax : (fieldsText fields ++ t).length < 256) :
    NMEA_Comma_Pos (fieldsText fields ++ t) fields.length (fieldsText fields ++ t).length
      = (fieldsText fields).length := by
  have hrest : 0 < t.length := List.length_pos_of_ne_nil hne
  -- Behind any number of fields, with the rest of the length still to go.
  have hloop : ∀ pos, nmeaPos (fun c => c = 42 || outside c) 44 (fieldsText fields ++ t) pos
      fields.length (fieldsText fields ++ t).length = (pos + (fieldsText fields).length) % 256 := by
    clear hne
    induction fields with
    | nil =>
        intro pos
        rw [List.length_nil, nmeaPos_zero]
        rfl
    | cons f fields ih =>
        intro pos
        have hf : ∀ c ∈ f, (decide (c = 42) || outside c) = false ∧ c ≠ 44 := by
          intro c hc
          obtain ⟨hlow, hhigh, hcomma, hstar⟩ := hplain f List.mem_cons_self c hc
          rw [outside_of_le hlow hhigh, decide_eq_false hstar]
          exact ⟨rfl, hcomma⟩
        rw [fieldsText_cons] at hmax ⊢
        simp only [List.append_assoc, List.cons_append, List.length_append, List.length_cons] at hmax ⊢
        rw [nmeaPos_skip hf (Nat.succ_ne_zero _) (by omega) (by omega),
          nmeaPos_mark (by decide) (by omega) (by omega)]
        have hih := ih (fun g hg => hplain g (List.mem_cons_of_mem f hg))
          (by rw [List.length_append]; omega) (pos + f.length + 1)
        have hleft : f.length + ((fieldsText fields).length + t.length + 1) - f.length - 1
            = (fieldsText fields ++ t).length := by
          rw [List.length_append]
          omega
        rw [hleft, hih]
        congr 1
        omega
  have hzero := hloop 0
  rw [List.length_append] at hmax
  rw [Nat.zero_add, Nat.mod_eq_of_lt (by omega)] at hzero
  exact hzero

/-- The last character is counted, too, if it is a mark. -/
theorem nmeaPos_last {stop : UInt8 → Bool} {mark : UInt8} (hstop : stop mark = false) (pos : ℕ) :
    nmeaPos stop mark [mark] pos 1 1 = (pos + 1) % 256 := by
  rw [nmeaPos, if_neg Nat.one_ne_zero, hstop, if_neg Bool.false_ne_true]
  dsimp only
  rw [if_pos rfl, if_pos (by norm_num)]

/-- The star behind a text without one. -/
theorem star_pos {f t : Bytes} (hf : ∀ c ∈ f, outside c = false ∧ c ≠ 42)
    (hmax : (f ++ 42 :: t).length < 65536) :
    nmea0183_star_Pos (f ++ 42 :: t) 1 (f ++ 42 :: t).length = (f.length + 1) % 256 := by
  rw [List.length_append, List.length_cons] at hmax
  unfold nmea0183_star_Pos
  rw [List.length_append, List.length_cons, nmeaPos_skip hf (by omega) (by omega) (by omega),
    Nat.add_sub_cancel_left, Nat.zero_add]
  rcases t with _ | ⟨c, t⟩
  · exact nmeaPos_last (by decide) _
  · rw [nmeaPos_mark (by decide) (by simp) (by omega), nmeaPos_zero]

/-- A character that ends the search. -/
theorem nmeaPos_stop {stop : UInt8 → Bool} {mark : UInt8} {f t : Bytes} (hmark : mark ∉ f)
    (hstop : ∃ c ∈ f, stop c = true) {pos cx n : ℕ} (hcx : cx ≠ 0) (hn : f.length ≤ n)
    (hmax : n < 65536) : nmeaPos stop mark (f ++ t) pos cx n = 0xFF := by
  induction f generalizing pos n with
  | nil =>
      obtain ⟨c, hc, -⟩ := hstop
      exact absurd hc List.not_mem_nil
  | cons c f ih =>
      rw [List.length_cons] at hn
      rw [List.mem_cons, not_or] at hmark
      by_cases hc : stop c = true
      · rw [List.cons_append, nmeaPos, if_neg hcx, if_pos hc]
      · have hrest : ∃ e ∈ f, stop e = true := by
          obtain ⟨e, he, hstop⟩ := hstop
          rcases List.mem_cons.mp he with rfl | he
          · exact absurd hstop hc
          · exact ⟨e, he, hstop⟩
        have hlen : 0 < f.length := List.length_pos_of_mem hrest.choose_spec.1
        rw [List.cons_append, nmeaPos_pass (by simpa using hc) (Ne.symm hmark.1) hcx (by omega) hmax]
        exact ih hmark.2 hrest (by omega) (by omega)

/-- The length that the checksum gets is from the second character to the star. -/
theorem bcc_between {f : Bytes} (hpos : 0 < f.length) (hlen : f.length ≤ 128) (t : Bytes) :
    bcc_checksum ((f ++ t).drop 1) ((f.length + 1 + 254) % 256)
      = some ((f.drop 1).foldl (· ^^^ ·) 0) := by
  have hcount : (f.length + 1 + 254) % 256 = (f.drop 1).length := by
    rw [List.length_drop]
    omega
  have htake : ((f ++ t).drop 1).take (f.drop 1).length = f.drop 1 := by
    rw [List.drop_append_of_le_length hpos, List.take_left]
  unfold bcc_checksum
  rw [hcount, if_pos (by rw [List.length_drop]; omega), htake]

end TestCore.Gps
