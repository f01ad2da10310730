/-
The positions of commas (`NMEA_Comma_Pos` of `gps_uart.c`, whose loop `nmea0183_star_Pos` has, too), in the
memory they are read from.

The loop tests its count, then the character, and then the length. So a mark that is the last character
within the length still counts, and a character that ends the search does not matter behind the last
mark. The distance that `NMEA_Comma_Pos` returns goes through an `int8`, and the caller has it in a `u8`
again: of a distance below 255 nothing is lost, and it is not taken for the 0xFF that says that there is
no such comma.

A character that is not in memory has no value, and a loop that reads one has no result. Where there is
enough in memory (`Enough`), the result is that of the function on texts (`nmeaPos_stores`).
-/
import TestCore.Gps.Gate
import TestCore.Lib.Loop

set_option autoImplicit false

namespace TestCore.Gps

open TestCore.Lib

/-! ## The functions -/

/-- The `buf - p`, the `cx` and the `nMaxLen` of the loop. -/
structure nmeaPos.State where
  pos : ℕ
  cx : ℤ
  nMaxLen : UInt16
  deriving DecidableEq, Repr

/-- A turn of the loop, with the `return` behind it if it was the last. `ret` is what
becomes of a value that is returned. -/
def nmeaPos.turn (ret : ℤ → ℤ) (stop : UInt8 → Bool) (mark : UInt8) (buf : Bytes) (s : nmeaPos.State) :
    Option (ℤ ⊕ nmeaPos.State) :=
  if s.cx = 0 then some (.inl (ret s.pos))
  else do
    let c ← buf[s.pos]?
    if stop c then pure (.inl (ret 0xFF))
    else
      let cx := if c = mark then i8 (s.cx - 1) else s.cx
      let nMaxLen := s.nMaxLen - 1
      -- The `break`, with the test of the count that is behind the loop.
      if nMaxLen = 0 then pure (.inl (if cx = 0 then ret (s.pos + 1 : ℕ) else ret 0xFF))
      else pure (.inr ⟨s.pos + 1, cx, nMaxLen⟩)

/-- `NMEA_Comma_Pos` returns an `int8`. -/
def NMEA_Comma_Pos.turn : Bytes → nmeaPos.State → Option (ℤ ⊕ nmeaPos.State) :=
  nmeaPos.turn i8 (fun c => c = 42 || outside c) 44

/-- A result, in the `u8 posx` of the caller. -/
def posx (r : ℤ) : ℕ := (r % 2 ^ 8).toNat

/-- `posx=NMEA_Comma_Pos(buf,cx,nMaxLen)` stores `v`. -/
def NMEA_Comma_Pos.Stores (buf : Bytes) (cx : ℤ) (nMaxLen : UInt16) (v : ℕ) : Prop :=
  ∃ r, EndsWith (checked (NMEA_Comma_Pos.turn buf)) ⟨0, cx, nMaxLen⟩ (some r) ∧ posx r = v

/-- The sign that an `int8` gives to a value is lost in a `u8`. -/
theorem posx_i8 (r : ℤ) : posx (i8 r) = (r % 2 ^ 8).toNat := by
  have hbmod := Int.bmod_emod (x := r) (m := 2 ^ 8)
  rw [posx, i8]
  exact congrArg Int.toNat hbmod

theorem nMaxLen_ne_zero {n : UInt16} (hn : 1 ≤ n) : n ≠ 0 := by
  rintro rfl
  exact absurd hn (by decide)

theorem nMaxLen_pred {n : UInt16} (hn : n ≠ 0) : (n - 1).toNat = n.toNat - 1 := by
  have hpos : n.toNat ≠ 0 := fun h => hn (UInt16.toNat_inj.mp h)
  have hlt := n.toNat_lt
  rw [UInt16.toNat_sub, UInt16.toNat_one]
  omega

/-! ## The loop in memory -/

section Turn

variable (ret : ℤ → ℤ) (stop : UInt8 → Bool) (mark : UInt8) {buf : Bytes}

theorem nmeaPos_turn_done (buf : Bytes) (pos : ℕ) (n : UInt16) :
    nmeaPos.turn ret stop mark buf ⟨pos, 0, n⟩ = some (.inl (ret pos)) := if_pos rfl

theorem nmeaPos_turn_cons {pos : ℕ} {c : UInt8} {t : Bytes} (ht : buf.drop pos = c :: t) {k : ℕ} (hk : k ≠ 0)
    (hk' : k < 128) (n : UInt16) :
    nmeaPos.turn ret stop mark buf ⟨pos, k, n⟩ = some (
      if stop c then .inl (ret 0xFF)
      else if n - 1 = 0 then
        .inl (if (if c = mark then k - 1 else k) = 0 then ret (pos + 1 : ℕ) else ret 0xFF)
      else .inr ⟨pos + 1, (if c = mark then k - 1 else k : ℕ), n - 1⟩) := by
  have hread : buf[pos]? = some c := by
    rw [← List.head?_drop, ht]
    rfl
  have hcx : (if c = mark then i8 ((k : ℤ) - 1) else k) = ((if c = mark then k - 1 else k : ℕ) : ℤ) := by
    split_ifs
    · rw [← i8_of_lt (n := k - 1) (by omega)]
      congr 1
      omega
    · rfl
  simp only [nmeaPos.turn, hread, Option.bind_eq_bind, Option.bind_some, Int.natCast_eq_zero, hk, if_false,
    hcx]
  split_ifs <;> rfl

variable {ret stop mark}

/-- There are `n` characters in memory, or one of them ends the search. -/
def Enough (stop : UInt8 → Bool) (n : UInt16) (t : Bytes) : Prop :=
  n.toNat ≤ t.length ∨ ∃ c ∈ t, stop c = true

theorem enough_nil {n : UInt16} (hn : n ≠ 0) : ¬ Enough stop n [] := by
  rintro (hlen | ⟨c, hc, -⟩)
  · exact hn (UInt16.toNat_inj.mp (Nat.le_zero.mp hlen))
  · cases hc

/-- Behind a character that does not end the search. -/
theorem Enough.tail {c : UInt8} {t : Bytes} {n : UInt16} (h : Enough stop n (c :: t)) (hn : n ≠ 0)
    (hstop : ¬ stop c = true) : Enough stop (n - 1) t := by
  rcases h with hlen | ⟨e, he, hend⟩
  · left
    rw [List.length_cons] at hlen
    rw [nMaxLen_pred hn]
    omega
  · rcases List.mem_cons.mp he with rfl | he
    · exact absurd hend hstop
    · exact Or.inr ⟨e, he, hend⟩

/-- The same on a text. -/
theorem nmeaPos_cons {c : UInt8} {t : Bytes} {pos k : ℕ} (hk : k ≠ 0) (n : UInt16) :
    nmeaPos stop mark (c :: t) pos k n.toNat =
      if stop c then 0xFF
      else if n - 1 = 0 then (if (if c = mark then k - 1 else k) = 0 then (pos + 1) % 256 else 0xFF)
      else nmeaPos stop mark t (pos + 1) (if c = mark then k - 1 else k) (n - 1).toNat := by
  have hdown : (n.toNat + 65535) % 65536 = (n - 1).toNat := by
    rw [UInt16.toNat_sub, UInt16.toNat_one]
    omega
  have hzero : (n - 1).toNat = 0 ↔ n - 1 = 0 := UInt16.toNat_inj (b := 0)
  rw [nmeaPos, if_neg hk]
  dsimp only
  rw [hdown]
  simp only [hzero]

/-- **The loop stores what the function on texts gives**, if there is enough in memory. -/
theorem nmeaPos_stores (hret : ∀ r, posx (ret r) = (r % 2 ^ 8).toNat) {pos : ℕ} {t : Bytes}
    (ht : buf.drop pos = t) {k : ℕ} (hk : k < 128) {n : UInt16} (hn : n ≠ 0)
    (hmem : Enough stop n t) :
    ∃ r, EndsWith (checked (nmeaPos.turn ret stop mark buf)) ⟨pos, k, n⟩ (some r) ∧
      posx r = nmeaPos stop mark t pos k n.toNat := by
  induction t generalizing pos k n with
  | nil => exact absurd hmem (enough_nil hn)
  | cons c t ih =>
      rcases Nat.eq_zero_or_pos k with rfl | hpos
      · -- The last mark was counted in the turn before, and `c` is not looked at.
        refine ⟨ret pos, (endsWith_checked_inl (nmeaPos_turn_done ret stop mark buf pos n)).mpr rfl, ?_⟩
        rw [hret, nmeaPos_zero]
        omega
      · have hk0 : k ≠ 0 := Nat.ne_of_gt hpos
        have hturn := nmeaPos_turn_cons ret stop mark ht hk0 hk n
        rw [nmeaPos_cons hk0]
        by_cases hstop : stop c = true
        · rw [if_pos hstop] at hturn ⊢
          exact ⟨ret 0xFF, (endsWith_checked_inl hturn).mpr rfl, by rw [hret]; rfl⟩
        rw [if_neg hstop] at hturn ⊢
        by_cases hlast : n - 1 = 0
        · -- The last character within the length.
          rw [if_pos hlast] at hturn ⊢
          refine ⟨_, (endsWith_checked_inl hturn).mpr rfl, ?_⟩
          by_cases hzero : (if c = mark then k - 1 else k) = 0
          · rw [if_pos hzero, if_pos hzero, hret]
            omega
          · rw [if_neg hzero, if_neg hzero, hret]
            rfl
        · rw [if_neg hlast] at hturn ⊢
          obtain ⟨r, hends, hr⟩ := ih (drop_next ht) (k := if c = mark then k - 1 else k)
            (by split_ifs <;> omega) hlast (hmem.tail hn hstop)
          exact ⟨r, (endsWith_checked_inr hturn).mpr hends, hr⟩

/-- So it stores nothing else. -/
theorem stores_iff_nmeaPos (hret : ∀ r, posx (ret r) = (r % 2 ^ 8).toNat) {k : ℕ} (hk : k < 128)
    {n : UInt16} (hn : n ≠ 0) (hmem : Enough stop n buf) {v : ℕ} :
    (∃ r, EndsWith (checked (nmeaPos.turn ret stop mark buf)) ⟨0, k, n⟩ (some r) ∧ posx r = v) ↔
      v = nmeaPos stop mark buf 0 k n.toNat := by
  obtain ⟨r, hends, hr⟩ := nmeaPos_stores hret List.drop_zero hk hn hmem
  constructor
  · rintro ⟨r', hends', rfl⟩
    rw [← hr, Option.some.inj (hends'.unique hends)]
  · rintro rfl
    exact ⟨r, hends, hr⟩

end Turn

/-! ## Where a mark is -/

/-- The `k`th mark of a text is at `p`, and no character in front of it ends the search. -/
def MarkAt (stop : UInt8 → Bool) (mark : UInt8) (t : Bytes) (k p : ℕ) : Prop :=
  t[p]? = some mark ∧ (t.take p).count mark + 1 = k ∧ ∀ c ∈ t.take p, stop c = false

section Mark

variable {stop : UInt8 → Bool} {mark : UInt8}

theorem markAt_zero {c : UInt8} {t : Bytes} {k : ℕ} :
    MarkAt stop mark (c :: t) k 0 ↔ c = mark ∧ k = 1 := by
  rw [MarkAt, List.getElem?_cons_zero, Option.some.injEq]
  refine and_congr_right fun _ => ?_
  rw [List.take_zero, List.count_nil, Nat.zero_add, eq_comm]
  exact and_iff_left fun c hc => absurd hc List.not_mem_nil

/-- This is so if there is none left to be counted. -/
theorem markAt_zero_iff_left {c : UInt8} {t : Bytes} {k : ℕ} (hk : k ≠ 0) :
    MarkAt stop mark (c :: t) k 0 ↔ (if c = mark then k - 1 else k) = 0 := by
  rw [markAt_zero]
  split_ifs with hc
  · rw [and_iff_right hc]
    omega
  · exact iff_of_false (fun h => hc h.1) hk

theorem markAt_succ {c : UInt8} {t : Bytes} {k p : ℕ} :
    MarkAt stop mark (c :: t) k (p + 1) ↔
      stop c = false ∧ MarkAt stop mark t (if c = mark then k - 1 else k) p := by
  have hcount : ((c :: t).take (p + 1)).count mark + 1 = k ↔
      (t.take p).count mark + 1 = if c = mark then k - 1 else k := by
    rw [List.take_succ_cons]
    split_ifs with hc
    · rw [hc, List.count_cons_self]
      omega
    · rw [List.count_cons_of_ne hc]
  rw [MarkAt, MarkAt, hcount, List.getElem?_cons_succ, List.take_succ_cons, List.forall_mem_cons]
  tauto

theorem MarkAt.le {t : Bytes} {k p q : ℕ} (hp : MarkAt stop mark t k p) (hq : MarkAt stop mark t k q) :
    q ≤ p := by
  by_contra hlt
  -- Up to `q` there are all the marks up to `p`, and the one at `p`.
  have hupto : t.take (p + 1) <+: t.take q := List.take_prefix_take_left (Nat.lt_of_not_le hlt)
  have hcount := hupto.count_le mark
  rw [List.take_add_one, hp.1, Option.toList_some, List.count_append, List.count_singleton_self] at hcount
  have hk := hp.2.1
  have hk' := hq.2.1
  omega

/-- A text has one `k`th mark. -/
theorem MarkAt.unique {t : Bytes} {k p q : ℕ} (hp : MarkAt stop mark t k p)
    (hq : MarkAt stop mark t k q) : p = q :=
  le_antisymm (hq.le hp) (hp.le hq)

/-- **The function on texts** finds the `k`th mark if it is within the length. -/
theorem nmeaPos_markAt (hmark : stop mark = false) {t : Bytes} (pos : ℕ) {k : ℕ} (hk : k ≠ 0) {n : UInt16}
    (hn : n ≠ 0) :
    (∃ p < n.toNat, MarkAt stop mark t k p ∧
        nmeaPos stop mark t pos k n.toNat = (pos + p + 1) % 256) ∨
      (∀ p < n.toNat, ¬ MarkAt stop mark t k p) ∧ nmeaPos stop mark t pos k n.toNat = 0xFF := by
  induction t generalizing pos k n with
  | nil => exact Or.inr ⟨fun p _ hp => (by cases hp.1), if_neg hk⟩
  | cons c t ih =>
      rw [nmeaPos_cons hk]
      by_cases hstop : stop c = true
      · -- A character that ends the search is no mark, and none is looked at behind it.
        rw [if_pos hstop]
        refine Or.inr ⟨fun p _ hp => ?_, rfl⟩
        rcases p with _ | p
        · rw [(markAt_zero.mp hp).1, hmark] at hstop
          cases hstop
        · rw [(markAt_succ.mp hp).1] at hstop
          cases hstop
      rw [if_neg hstop]
      have hzero : MarkAt stop mark (c :: t) k 0 ↔ _ := markAt_zero_iff_left hk
      by_cases hfound : (if c = mark then k - 1 else k) = 0
      · -- This is the one.
        refine Or.inl ⟨0, Nat.pos_of_ne_zero fun h => hn (UInt16.toNat_inj.mp h), hzero.mpr hfound, ?_⟩
        rw [hfound, if_pos rfl, nmeaPos_zero, ite_self, Nat.add_zero]
      · have hzero : ¬ MarkAt stop mark (c :: t) k 0 := mt hzero.mp hfound
        have hsucc : ∀ p, MarkAt stop mark (c :: t) k (p + 1) ↔
            MarkAt stop mark t (if c = mark then k - 1 else k) p := fun p =>
          markAt_succ.trans (and_iff_right (by simpa using hstop))
        by_cases hlast : n - 1 = 0
        · -- It may be behind the last character within the length.
          rw [if_pos hlast, if_neg hfound]
          refine Or.inr ⟨fun p hp => ?_, rfl⟩
          have hone : n.toNat - 1 = 0 := by rw [← nMaxLen_pred hn, hlast]; rfl
          rwa [show p = 0 by omega]
        · rw [if_neg hlast]
          rcases ih (pos + 1) hfound hlast with ⟨p, hlt, hp, heq⟩ | ⟨hno, heq⟩
          · rw [nMaxLen_pred hn] at hlt
            refine Or.inl ⟨p + 1, by omega, (hsucc p).mpr hp, ?_⟩
            rw [heq]
            congr 1
            omega
          · refine Or.inr ⟨fun p hlt hp => ?_, heq⟩
            rcases p with _ | p
            · exact hzero hp
            · exact hno p (by rw [nMaxLen_pred hn]; omega) ((hsucc p).mp hp)

/-- Only what comes up to a place matters for it. -/
theorem markAt_congr {t t' : Bytes} {k p : ℕ} (h : t.take (p + 1) = t'.take (p + 1)) :
    MarkAt stop mark t k p ↔ MarkAt stop mark t' k p := by
  have hchar : t[p]? = t'[p]? := by
    rw [← List.getElem?_take_of_lt (Nat.lt_succ_self p), h, List.getElem?_take_of_lt (Nat.lt_succ_self p)]
  have htake : t.take p = t'.take p := by
    have htake := congrArg (List.take p) h
    rwa [List.take_take, List.take_take, Nat.min_eq_left (Nat.le_succ p)] at htake
  rw [MarkAt, MarkAt, hchar, htake]

/-- A text ends with a character that ends the search. -/
theorem markAt_append (hmark : stop mark = false) {e : UInt8} (hend : stop e = true) (sentence behind : Bytes)
    {k p : ℕ} : MarkAt stop mark (sentence ++ e :: behind) k p ↔ MarkAt stop mark sentence k p := by
  by_cases hp : p < sentence.length
  · exact markAt_congr (List.take_append_of_le_length hp)
  refine iff_of_false (fun hat => ?_) fun hat => ?_
  · obtain ⟨i, rfl⟩ := Nat.exists_eq_add_of_le (Nat.le_of_not_lt hp)
    rcases i with _ | i
    · have hchar := hat.1
      rw [Nat.add_zero, List.getElem?_append_right le_rfl, Nat.sub_self, List.getElem?_cons_zero] at hchar
      rw [Option.some.inj hchar, hmark] at hend
      cases hend
    · have hmem : e ∈ (sentence ++ e :: behind).take (sentence.length + (i + 1)) := by
        rw [List.take_length_add_append, List.take_succ_cons]
        exact List.mem_append_right _ List.mem_cons_self
      rw [hat.2.2 e hmem] at hend
      cases hend
  · rw [MarkAt, List.getElem?_eq_none (Nat.le_of_not_lt hp)] at hat
    cases hat.1

/-- A memory has `n` characters of a text, or all of them. -/
theorem memory_text (text rest : Bytes) (n : ℕ) :
    n ≤ (text.take n ++ rest).length ∧ (text.take n ++ rest).take n = text.take n ∨
      text.take n ++ rest = text ++ rest := by
  rcases Nat.le_total n text.length with hle | hle
  · have hlen := List.length_take_of_le hle
    refine Or.inl ⟨by rw [List.length_append, hlen]; omega, ?_⟩
    rw [List.take_append_of_le_length hlen.ge, List.take_take, Nat.min_self]
  · exact Or.inr (by rw [List.take_of_length_le hle])

section Memory

variable {e : UInt8} (hend : stop e = true) (sentence behind rest : Bytes)

include hend

theorem memory_enough (n : UInt16) : Enough stop n ((sentence ++ e :: behind).take n.toNat ++ rest) := by
  rcases memory_text (sentence ++ e :: behind) rest n.toNat with ⟨hle, -⟩ | hall
  · exact Or.inl hle
  · rw [hall]
    exact Or.inr ⟨e, List.mem_append_left rest (List.mem_append_right _ List.mem_cons_self), hend⟩

/-- Within the first `n` characters the marks in memory are those of the sentence. -/
theorem memory_markAt (hmark : stop mark = false) {n k p : ℕ} (hp : p < n) :
    MarkAt stop mark ((sentence ++ e :: behind).take n ++ rest) k p ↔ MarkAt stop mark sentence k p := by
  rcases memory_text (sentence ++ e :: behind) rest n with ⟨-, htake⟩ | hall
  · refine Iff.trans (markAt_congr ?_) (markAt_append hmark hend sentence behind)
    have hshort := congrArg (List.take (p + 1)) htake
    rwa [List.take_take, List.take_take, Nat.min_eq_left hp] at hshort
  · rw [hall, List.append_assoc, List.cons_append]
    exact markAt_append hmark hend sentence (behind ++ rest)

/-- What the loop stores for a sentence of which the first characters, as many as the length says, are in
memory. -/
theorem nmeaPos_stores_iff {ret : ℤ → ℤ} (hret : ∀ r, posx (ret r) = (r % 2 ^ 8).toNat)
    (hmark : stop mark = false) (hlen : sentence.length < 255) {k : ℕ} (hk : k ≠ 0) (hk' : k < 128)
    {n : UInt16} (hn : n ≠ 0) {v : ℕ} :
    (∃ r, EndsWith (checked (nmeaPos.turn ret stop mark ((sentence ++ e :: behind).take n.toNat ++ rest)))
        ⟨0, k, n⟩ (some r) ∧ posx r = v) ↔
      (∃ p < n.toNat, MarkAt stop mark sentence k p ∧ v = p + 1) ∨
        (∀ p < n.toNat, ¬ MarkAt stop mark sentence k p) ∧ v = 0xFF := by
  have hat {p : ℕ} (hp : p < n.toNat) := memory_markAt hend sentence behind rest hmark hp (k := k)
  rw [stores_iff_nmeaPos hret hk' hn (memory_enough hend sentence behind rest n)]
  rcases nmeaPos_markAt hmark 0 hk hn with ⟨p, hp, hfound, heq⟩ | ⟨hno, heq⟩
  · have hfound := (hat hp).mp hfound
    have hin : p < sentence.length := (List.getElem?_eq_some_iff.mp hfound.1).1
    rw [heq, Nat.zero_add, Nat.mod_eq_of_lt (by omega)]
    constructor
    · exact fun hv => Or.inl ⟨p, hp, hfound, hv⟩
    · rintro (⟨q, -, hq, hv⟩ | ⟨hno, -⟩)
      · rw [hv, hfound.unique hq]
      · exact absurd hfound (hno p hp)
  · have hno : ∀ p < n.toNat, ¬ MarkAt stop mark sentence k p := fun p hp h => hno p hp ((hat hp).mpr h)
    rw [heq]
    constructor
    · exact fun hv => Or.inr ⟨hno, hv⟩
    · rintro (⟨q, hq, hfound, -⟩ | ⟨-, hv⟩)
      · exact absurd hfound (hno q hq)
      · exact hv

end Memory

end Mark

/-! ## Commas and stars -/

/-- The `k`th comma of a sentence is at `p`, and there is no star in front of it. -/
def CommaAt (sentence : Bytes) (k p : ℕ) : Prop :=
  sentence[p]? = some 44 ∧ (sentence.take p).count 44 + 1 = k ∧ 42 ∉ sentence.take p

instance (sentence : Bytes) (k p : ℕ) : Decidable (CommaAt sentence k p) :=
  inferInstanceAs (Decidable (_ ∧ _ ∧ _))

section Sentence

variable {sentence : Bytes} (hin : ∀ c ∈ sentence, 32 ≤ c ∧ c ≤ 122) {e : UInt8}
  (hend : ¬ (32 ≤ e ∧ e ≤ 122)) {k : ℕ}

theorem outside_of_not (hend : ¬ (32 ≤ e ∧ e ≤ 122)) : outside e = true := by
  rwa [← outside_eq_false_iff, Bool.not_eq_false] at hend

include hin in
theorem markAt_iff_commaAt {p : ℕ} :
    MarkAt (fun c => c = 42 || outside c) 44 sentence k p ↔ CommaAt sentence k p := by
  refine and_congr_right fun _ => and_congr_right fun _ => ?_
  constructor
  · intro hno hstar
    cases hno 42 hstar
  · intro hstar c hc
    dsimp only
    rw [(outside_eq_false_iff c).mpr (hin c (List.mem_of_mem_take hc)), Bool.or_false, decide_eq_false_iff_not]
    rintro rfl
    exact hstar hc

variable (hlen : sentence.length < 255) (behind rest : Bytes) (hk : 1 ≤ k) (hk' : k ≤ 127)
  {nMaxLen : UInt16} (hn : 1 ≤ nMaxLen) {v : ℕ}

include hin hend hlen hk hk' hn

/-- **One past the `k`th comma** is stored if it is in front of every star and within `nMaxLen` characters,
and 0xFF otherwise. With nothing in `rest`, no more than the first `nMaxLen` characters are in memory. -/
theorem comma_pos_exact :
    NMEA_Comma_Pos.Stores ((sentence ++ e :: behind).take nMaxLen.toNat ++ rest) k nMaxLen v ↔
      (∃ p < nMaxLen.toNat, CommaAt sentence k p ∧ v = p + 1) ∨
        (∀ p < nMaxLen.toNat, ¬ CommaAt sentence k p) ∧ v = 0xFF := by
  refine (nmeaPos_stores_iff ?_ sentence behind rest posx_i8 ?_ hlen (by omega) (by omega)
    (nMaxLen_ne_zero hn)).trans ?_
  · rw [outside_of_not hend, Bool.or_true]
  · decide
  · simp only [markAt_iff_commaAt hin]

end Sentence

/-- The second comma is the last of the five characters that may be read, and there are no more. -/
theorem comma_pos_exact_last :
    NMEA_Comma_Pos.Stores ((bytes "$A,1,2*" ++ 13 :: []).take (5 : UInt16).toNat ++ []) (2 : ℕ) 5 5 := by
  refine (comma_pos_exact ?_ ?_ ?_ [] [] ?_ ?_ ?_).mpr (Or.inl ⟨4, ?_, ?_, rfl⟩)
  all_goals decide

end TestCore.Gps
