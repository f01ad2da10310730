/-
Whether the analysis of an RMC sentence comes to an end (`bcc_checksum`, `uart_rx`).

`bcc_checksum` counts with an `int8` up to a `u8`. A length of 128 or more is never reached: the
counter goes from 127 to -128, and the loop reads the same 256 bytes around its buffer for ever. The
length is the position of the star less two, and both are kept modulo 256, so a star at the very
start of a line makes a length of 255, and one at index 129 makes 128.

The loop over the characters of a number has no bound at all. It ends at the first character that
belongs to no number, which may lie behind the copy of the sentence.
-/
import TestCore.Gps.Gate

set_option autoImplicit false

namespace TestCore.Gps

open TestCore.Lib

/-! ## Lines of a receiver -/

inductive E_NMEA0183_DATA_TYPE where
  | E_NMEA0183_VTG
  | E_NMEA0183_GGA
  | E_NMEA0183_GNS
  | E_NMEA0183_GSA
  | E_NMEA0183_GSV
  | E_NMEA0183_GST
  | E_NMEA0183_GLL
  | E_NMEA0183_GRS
  | E_NMEA0183_ZDA
  | E_NMEA0183_DTM
  | E_NMEA0183_RMC
  | E_NMEA0183_RMA
  | E_NMEA0183_NULL
  deriving DecidableEq, Repr

open E_NMEA0183_DATA_TYPE

/-- The type that three characters behind `$GN` or `$GP` stand for. -/
def headType (s : Bytes) : E_NMEA0183_DATA_TYPE :=
  if s = bytes "VTG" then E_NMEA0183_VTG
  else if s = bytes "GGA" then E_NMEA0183_GGA
  else if s = bytes "GNS" then E_NMEA0183_GNS
  else if s = bytes "GSA" then E_NMEA0183_GSA
  else if s = bytes "GSV" then E_NMEA0183_GSV
  else if s = bytes "GST" then E_NMEA0183_GST
  else if s = bytes "GLL" then E_NMEA0183_GLL
  else if s = bytes "GRS" then E_NMEA0183_GRS
  else if s = bytes "ZDA" then E_NMEA0183_ZDA
  else if s = bytes "DTM" then E_NMEA0183_DTM
  else if s = bytes "RMC" then E_NMEA0183_RMC
  else if s = bytes "RMA" then E_NMEA0183_RMA
  else E_NMEA0183_NULL

/-- `find_nmea0183_head`: the first `$` with more than six characters from it on decides. -/
def find_nmea0183_head (buf1 : Bytes) (nRxLen : ℕ) : E_NMEA0183_DATA_TYPE :=
  match (List.range nRxLen).find? fun i => buf1.getD i 0 = 36 && decide ((i : ℤ) < nRxLen - 6) with
  | some i => headType ((buf1.drop (i + 3)).take 3)
  | none => E_NMEA0183_NULL

/-- The line that `uart_rx` passes to the analysis, of what `read` has left in `rx_buf`. -/
def uart_rx.line (rx_buf : Bytes) : Option Bytes :=
  (strtok (fun c => c == 13 || c == 10) (cstr rx_buf)).find? fun temp =>
    find_nmea0183_head temp temp.length = E_NMEA0183_RMC

/-- A line of up to 1023 characters that `uart_rx` passes on. -/
structure PassedOn (line : Bytes) : Prop where
  ne_nil : line ≠ []
  length_le : line.length ≤ 1023
  no_end : ∀ c ∈ line, c ≠ 13 ∧ c ≠ 10 ∧ c ≠ 0
  rmc : find_nmea0183_head line line.length = E_NMEA0183_RMC

/-! ## The loops -/

/-- A byte at an offset from a buffer. Around the buffer it is taken to be a zero. -/
def byteAt (buf : Bytes) (i : ℤ) : UInt8 := if 0 ≤ i then buf.getD i.toNat 0 else 0

/-- One turn of the loop of `bcc_checksum`, with its `i` and `ret`. -/
def bcc_checksum.turn (buf : ℤ → UInt8) (len : ℕ) (s : ℤ × UInt8) : UInt8 ⊕ (ℤ × UInt8) :=
  -- Both sides are promoted to `int`, and the sum is cut to an `int8`.
  if s.1 < len then .inr (i8 (s.1 + 1), s.2 ^^^ buf s.1) else .inl s.2

section Analysis

variable (line behind : Bytes)

/-- The loop of `bcc_checksum` in the analysis of a line, from the second character on. -/
def bccTurn : ℤ × UInt8 → UInt8 ⊕ (ℤ × UInt8) :=
  bcc_checksum.turn (fun i => byteAt (line ++ behind) (i + 1))
    ((nmea0183_star_Pos line 1 line.length + 254) % 256)

/-- The analysis of a line comes to an end: the loops do that it gets to. Those that look for marks
count `nRxLen` down, so they are functions here; the other two are given by their turns. `behind` is
what the memory holds behind the copy of the line. -/
def AnalysisEnds : Prop :=
  nmea0183_star_Pos line 1 line.length ≠ 0xFF →
    ∃ bcc, EndsWith (bccTurn line behind) (0, 0) bcc ∧
      (nmea0183_get_checksum ((line ++ behind).drop (nmea0183_star_Pos line 1 line.length)) = bcc →
        -- The fields that are numbers.
        ∀ cx ∈ [1, 3, 5, 9], NMEA_Comma_Pos line cx line.length ≠ 0xFF →
          Lib.Ends (NMEA_Str2num.turn (line ++ behind)) (NMEA_Comma_Pos line cx line.length, {}))

/-- `bcc_checksum` reads the character at the index `j` of the line. -/
def BccReads (j : ℤ) : Prop :=
  nmea0183_star_Pos line 1 line.length ≠ 0xFF ∧
    ∃ s, Visits (bccTurn line behind) (0, 0) s ∧
      s.1 < ((nmea0183_star_Pos line 1 line.length + 254) % 256 : ℕ) ∧ j = s.1 + 1

end Analysis

/-! ## The lines that are passed on -/

/-- The lines are those that `uart_rx` takes from a buffer with a terminator. -/
theorem passedOn_iff {line : Bytes} :
    PassedOn line ↔
      ∃ rx_buf : Bytes, rx_buf.length = 1024 ∧ 0 ∈ rx_buf ∧ uart_rx.line rx_buf = some line := by
  constructor
  · intro h
    have hnul : NulFree line := fun c hc => (h.no_end c hc).2.2
    have hlen := h.length_le
    refine ⟨line ++ List.replicate (1024 - line.length) 0, by simp; omega, ?_, ?_⟩
    · refine List.mem_append_right _ (List.mem_replicate.mpr ⟨by omega, rfl⟩)
    · have hzeros : List.replicate (1024 - line.length) (0 : UInt8)
          = 0 :: List.replicate (1023 - line.length) 0 := by
        rw [← List.replicate_succ]
        congr 1
        omega
      have htokens : strtok (fun c => c == 13 || c == 10) line = [line] := by
        have hall : ∀ c ∈ line, (c == 13 || c == 10) = false := fun c hc => by
          simpa using ⟨(h.no_end c hc).1, (h.no_end c hc).2.1⟩
        unfold strtok
        rw [List.splitOnP_eq_singleton hall]
        simp [h.ne_nil]
      unfold uart_rx.line
      rw [hzeros, cstr_append_zero_cons, cstr_of_nulFree hnul, htokens]
      simp [h.rmc]
  · rintro ⟨rx_buf, hlen, hzero, hline⟩
    obtain ⟨hne, hin, hnone⟩ := strtok_mem _ (List.mem_of_find?_eq_some hline)
    refine ⟨hne, ?_, fun c hc => ?_, by simpa using List.find?_some hline⟩
    · have hshort : (cstr rx_buf).length < 1024 := by
        rw [← hlen]
        exact cstr_length_lt (by rwa [List.take_length])
      have := hin.length_le
      omega
    · have hdelim := hnone c hc
      rw [Bool.or_eq_false_iff, beq_eq_false_iff_ne, beq_eq_false_iff_ne] at hdelim
      exact ⟨hdelim.1, hdelim.2, cstr_nulFree rx_buf c (hin.subset hc)⟩

/-! ## The loop of the checksum -/

theorem i8_range (n : ℤ) : -128 ≤ i8 n ∧ i8 n ≤ 127 := by
  unfold i8
  rw [Int.bmod_def]
  split_ifs
  · omega
  · omega

/-- An `int8` never gets to a length of 128 or more. -/
theorem bcc_not_ends (buf : ℤ → UInt8) {len : ℕ} (hlen : 128 ≤ len) :
    ¬ Lib.Ends (bcc_checksum.turn buf len) (0, 0) := by
  refine not_ends_of_invariant (I := fun s => s.1 ≤ 127) (fun s hs => ?_) (by norm_num)
  refine ⟨(i8 (s.1 + 1), s.2 ^^^ buf s.1), if_pos (by omega), (i8_range _).2⟩

/-- The turns from a counter on. -/
theorem bcc_endsWith (buf : ℤ → UInt8) {len : ℕ} (hlen : len < 128) {k n : ℕ} (hk : k + n = len)
    (ret : UInt8) :
    EndsWith (bcc_checksum.turn buf len) ((k : ℤ), ret)
      ((List.range' k n).foldl (fun ret (i : ℕ) => ret ^^^ buf i) ret) := by
  induction n generalizing k ret with
  | zero =>
      have hturn : bcc_checksum.turn buf len ((k : ℤ), ret) = .inl ret := if_neg (by dsimp only; omega)
      exact (endsWith_inl hturn).mpr rfl
  | succ n ih =>
      have hturn : bcc_checksum.turn buf len ((k : ℤ), ret)
          = .inr (((k + 1 : ℕ) : ℤ), ret ^^^ buf k) := by
        have hnext := i8_of_lt (n := k + 1) (by omega)
        push_cast at hnext ⊢
        unfold bcc_checksum.turn
        rw [if_pos (by dsimp only; omega)]
        dsimp only
        rw [hnext]
      rw [endsWith_inr hturn, List.range'_succ, List.foldl_cons]
      exact ih (by omega) _

/-- **The loop ends if the length is below 128.** -/
theorem bcc_ends_iff (buf : ℤ → UInt8) (len : ℕ) :
    Lib.Ends (bcc_checksum.turn buf len) (0, 0) ↔ len < 128 := by
  constructor
  · intro hends
    by_contra hlen
    exact bcc_not_ends buf (by omega) hends
  · intro hlen
    exact ⟨_, bcc_endsWith buf hlen (Nat.zero_add len) 0⟩

theorem foldl_byteAt (buf : Bytes) (k n : ℕ) (ret : UInt8) :
    (List.range' k n).foldl (fun ret (i : ℕ) => ret ^^^ byteAt buf i) ret
      = ((buf.drop k).take n).foldl (· ^^^ ·) ret := by
  induction n generalizing k ret with
  | zero => rfl
  | succ n ih =>
      have hbyte : byteAt buf k = buf.getD k 0 := by
        unfold byteAt
        rw [if_pos (Int.natCast_nonneg k), Int.toNat_natCast]
      rw [List.range'_succ, List.foldl_cons, ih, hbyte]
      by_cases hk : k < buf.length
      · rw [List.drop_eq_getElem_cons hk, List.take_succ_cons, List.foldl_cons,
          List.getD_eq_getElem _ _ hk]
      · -- The zeros behind the buffer change nothing.
        rw [List.drop_eq_nil_of_le (not_lt.mp hk), List.drop_eq_nil_of_le (by omega),
          List.getD_eq_default _ _ (not_lt.mp hk), UInt8.xor_zero, List.take_nil, List.take_nil]

/-- The model of the checksum has the result that the loop ends with. -/
theorem bcc_checksum_eq_some_iff (buf : Bytes) (len : ℕ) (bcc : UInt8) :
    bcc_checksum buf len = some bcc ↔ EndsWith (bcc_checksum.turn (byteAt buf) len) (0, 0) bcc := by
  unfold bcc_checksum
  split_ifs with hlen
  · have hends := bcc_endsWith (byteAt buf) hlen (Nat.zero_add len) 0
    rw [foldl_byteAt, List.drop_zero] at hends
    rw [Option.some_inj]
    constructor
    · rintro rfl
      exact hends
    · exact fun h => hends.unique h
  · exact iff_of_false not_false
      fun h => bcc_not_ends (byteAt buf) (not_lt.mp hlen) ⟨bcc, h⟩

/-- Its counter stays within the length. -/
theorem bcc_counter {buf : ℤ → UInt8} {len : ℕ} (hlen : len < 128) {s : ℤ × UInt8}
    (h : Visits (bcc_checksum.turn buf len) (0, 0) s) : 0 ≤ s.1 ∧ s.1 ≤ len := by
  refine h.invariant (I := fun s => 0 ≤ s.1 ∧ s.1 ≤ (len : ℤ)) ?_ ⟨le_rfl, Int.natCast_nonneg len⟩
  rintro ⟨i, ret⟩ t ⟨hlow, hhigh⟩ hturn
  unfold bcc_checksum.turn at hturn
  dsimp only at hlow hhigh hturn
  split_ifs at hturn with hi
  cases hturn
  have hnext := i8_of_lt (n := (i + 1).toNat) (by omega)
  rw [Int.toNat_of_nonneg (by omega)] at hnext
  dsimp only
  omega

/-! ## The analysis -/

/-- The analysis ends unless the length is out of reach: the numbers are no obstacle. -/
theorem analysisEnds_iff (line behind : Bytes) :
    AnalysisEnds line behind ↔
      (nmea0183_star_Pos line 1 line.length ≠ 0xFF →
        (nmea0183_star_Pos line 1 line.length + 254) % 256 < 128) := by
  constructor
  · intro h hposx
    obtain ⟨bcc, hbcc, -⟩ := h hposx
    exact (bcc_ends_iff _ _).mp ⟨bcc, hbcc⟩
  · intro h hposx
    obtain ⟨bcc, hbcc⟩ := (bcc_ends_iff (fun i => byteAt (line ++ behind) (i + 1)) _).mpr (h hposx)
    refine ⟨bcc, hbcc, fun _ cx _ _ => ?_⟩
    have hrounds : (line ++ behind).length <
        NMEA_Comma_Pos line cx line.length + ((line ++ behind).length + 1) := by omega
    exact ⟨_, scan_endsWith (line ++ behind) hrounds (Nat.succ_pos _) {}⟩

/-- The model of the analysis has a result if it ends. -/
theorem rmc_analysis_isSome (m : Arith) (line : Bytes) :
    (api_nmea0183_rmc_analysis m line line.length).isSome ↔ AnalysisEnds line [] := by
  rw [analysisEnds_iff, rmc_analysis_eq, Option.isSome_map]
  unfold rmcGate bcc_checksum
  dsimp only
  rw [List.take_length]
  split_ifs with hposx hlen
  · simp [hlen]
  · simp [hposx, hlen]
  · simp [hposx]

theorem nmeaPos_no_mark {stop : UInt8 → Bool} {mark : UInt8} {buf : Bytes} (hmark : mark ∉ buf)
    {pos cx n : ℕ} (hcx : cx ≠ 0) : nmeaPos stop mark buf pos cx n = 0xFF := by
  induction buf generalizing pos n with
  | nil => exact if_neg hcx
  | cons c buf ih =>
      rw [List.mem_cons, not_or] at hmark
      rw [nmeaPos, if_neg hcx]
      dsimp only
      rw [if_neg (Ne.symm hmark.1), if_neg hcx, ih hmark.2]
      split_ifs <;> rfl

/-- The text before the first star. -/
def beforeStar (line : Bytes) : Bytes := line.take (line.idxOf 42)

/-- The star is where the checksum copes with it: if the search gets to it, then at index 1 to 128,
modulo 256, or at 254, which makes the 0xFF of a star that is not there. -/
def StarInReach (line : Bytes) : Prop :=
  42 ∈ line → (∀ c ∈ beforeStar line, 32 ≤ c ∧ c ≤ 122) →
    (line.idxOf 42 + 255) % 256 < 128 ∨ line.idxOf 42 % 256 = 254

instance (line : Bytes) : Decidable (StarInReach line) := inferInstanceAs (Decidable (_ → _ → _))

/-- Where the search gets to. -/
theorem star_pos_line {line : Bytes} (hlen : line.length < 65536) :
    nmea0183_star_Pos line 1 line.length =
      if 42 ∈ line ∧ ∀ c ∈ beforeStar line, 32 ≤ c ∧ c ≤ 122 then (line.idxOf 42 + 1) % 256
      else 0xFF := by
  by_cases hmem : 42 ∈ line
  · obtain ⟨pre, post, rfl, hstar⟩ := List.eq_append_cons_of_mem hmem
    have hidx : (pre ++ 42 :: post).idxOf 42 = pre.length := by
      rw [List.idxOf_append_of_notMem hstar, List.idxOf_cons_self, Nat.add_zero]
    have hbefore : beforeStar (pre ++ 42 :: post) = pre := by
      rw [beforeStar, hidx, List.take_left]
    rw [hbefore, hidx]
    by_cases hin : ∀ c ∈ pre, 32 ≤ c ∧ c ≤ 122
    · rw [if_pos ⟨hmem, hin⟩]
      exact star_pos (fun c hc => ⟨(outside_eq_false_iff c).mpr (hin c hc), fun h => hstar (h ▸ hc)⟩) hlen
    · rw [if_neg (fun h => hin h.2)]
      exact nmeaPos_stop hstar (exists_outside hin) Nat.one_ne_zero (by simp) hlen
  · rw [if_neg (fun h => hmem h.1)]
    exact nmeaPos_no_mark hmem Nat.one_ne_zero

/-- **When the analysis of a line ends**, having summed up only characters between the first one and
the star. -/
theorem rmc_analysis_ends_iff {line : Bytes} (h : PassedOn line) (behind : Bytes) :
    (AnalysisEnds line behind ∧
      ∀ j, BccReads line behind j → 0 < j ∧ j < (line.idxOf 42 : ℕ)) ↔ StarInReach line := by
  have hlen : line.length < 65536 := h.length_le.trans_lt (by norm_num)
  have hposx := star_pos_line hlen
  rw [analysisEnds_iff]
  unfold StarInReach
  by_cases hgets : 42 ∈ line ∧ ∀ c ∈ beforeStar line, 32 ≤ c ∧ c ≤ 122
  · rw [if_pos hgets] at hposx
    constructor
    · rintro ⟨hends, -⟩ - -
      rw [hposx] at hends
      omega
    · intro hreach
      have hreach := hreach hgets.1 hgets.2
      rw [hposx]
      refine ⟨by omega, fun j hj => ?_⟩
      obtain ⟨hne, s, hvisits, hs, rfl⟩ := hj
      rw [hposx] at hne hs
      unfold bccTurn at hvisits
      rw [hposx] at hvisits
      have hcounter := bcc_counter (by omega) hvisits
      omega
  · rw [if_neg hgets] at hposx
    rw [hposx]
    exact ⟨fun _ hmem hin => absurd ⟨hmem, hin⟩ hgets,
      fun _ => ⟨fun hne => absurd rfl hne, fun j hj => absurd hposx hj.1⟩⟩

/-- What a receiver sends that has no position yet. -/
def noPosition : Bytes := bytes "$GPRMC,,V,,,,,,,,,,N*53"

theorem passedOn_noPosition : PassedOn noPosition where
  ne_nil := by decide
  length_le := by decide
  no_end := by decide
  rmc := by decide

theorem rmc_analysis_ends_no_position :
    AnalysisEnds noPosition [] ∧
      ∀ j, BccReads noPosition [] j → 0 < j ∧ j < (noPosition.idxOf 42 : ℕ) :=
  (rmc_analysis_ends_iff passedOn_noPosition []).mpr (by decide)

/-- A line that has lost its start, with the star of the one before: the length is 255. -/
theorem leading_star_never_ends :
    PassedOn (bytes "*$GPRMC,") ∧ ∀ behind, ¬ AnalysisEnds (bytes "*$GPRMC,") behind := by
  refine ⟨⟨by decide, by decide, by decide, by decide⟩, fun behind => ?_⟩
  have hposx : nmea0183_star_Pos (bytes "*$GPRMC,") 1 (bytes "*$GPRMC,").length = 1 := by decide
  rw [analysisEnds_iff, hposx]
  decide

end TestCore.Gps
