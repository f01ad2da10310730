/-
Parameters in UTF-16 and in UTF-8: `jrd_convert_unicode_to_utf8` and `jrd_convert_utf8_to_unicode`
of `sock_clt.c`.

The encoder writes one, two or three bytes for a unit, and behind the last one what the source spells
`'/0'`: a character constant of two characters, of which the byte `0` stays. The second of three
bytes is not masked as the others are, so that bit 12 of the unit gets into it.

The decoder takes the length of a character from its first byte and goes on until the length of the
string is used up to the byte. It has no answer to a byte that no character starts with, and none to
a character that is longer than the rest of the string. `Chars` says that a string has neither.

A pointer is the memory from there on. `malloc` does not fail, and a string is shorter than 2^31
bytes, which an `int` can count.
-/
import TestCore.Lib.Loop
import TestCore.Lib.Utf8
import TestCore.Lib.Wire

set_option autoImplicit false

namespace TestCore.Webs

open TestCore.Lib

/-! ## Encoding -/

/-- The bytes that are written for a unit. -/
def unitBytes (unicode : UInt16) : Bytes :=
  if unicode ≤ 0x007f then [unicode.toUInt8]
  else if unicode ≤ 0x07ff then
    [((0xc0 : UInt16) ||| unicode >>> 6).toUInt8,
      ((0x80 : UInt16) ||| unicode &&& (0xff : UInt16) >>> 2).toUInt8]
  else
    [((0xe0 : UInt16) ||| unicode >>> 12).toUInt8,
      ((0x80 : UInt16) ||| unicode >>> 6 &&& 0x00ff).toUInt8,
      ((0x80 : UInt16) ||| unicode &&& (0xff : UInt16) >>> 2).toUInt8]

/-- `'/0'`, with the characters one behind the other in an `int`, as compilers have it. -/
def slashZero : UInt16 := 47 * 256 + 48

/-- The loop of `jrd_convert_unicode_to_utf8` over the units: the block, and where `tmp` is. -/
def jrd_convert_unicode_to_utf8.loop : List UInt16 → (result : Bytes) → (tmp : ℕ) → Bytes × ℕ
  | [], result, tmp => (result, tmp)
  | unicode :: in_, result, tmp =>
      jrd_convert_unicode_to_utf8.loop in_ (writeAt result tmp (unitBytes unicode))
        (tmp + (unitBytes unicode).length)

/-- `jrd_convert_unicode_to_utf8`: the block that `*out` points to. -/
def jrd_convert_unicode_to_utf8 (in_ : List UInt16) : Bytes :=
  let charscount := in_.length
  let (result, tmp) := jrd_convert_unicode_to_utf8.loop in_ (List.replicate (charscount * 3 + 1) 0) 0
  writeAt result tmp [slashZero.toUInt8]

/-! ## Decoding -/

/-- `char_len`, from the first byte of a character. -/
def charLen (c : UInt8) : ℕ :=
  if c &&& 0x80 = 0 then 1
  else if c &&& 0x40 ≠ 0 then
    if c &&& 0x20 = 0 then 2
    else if c &&& 0x10 = 0 then 3
    else if c &&& 0x08 = 0 then 4
    else 0
  else 0

/-- The unit for the character that a string begins with. -/
def charUnit (b : Bytes) : UInt16 :=
  let c i := b.getD i 0
  match charLen (c 0) with
  | 1 => (c 0).toUInt16
  | 2 => ((c 0 &&& 0x1F).toUInt16 <<< 6) ||| (c 1 &&& 0x3F).toUInt16
  | 3 => ((c 0 &&& 0x0F).toUInt16 <<< 12) ||| ((c 1 &&& 0x3F).toUInt16 <<< 6) ||| (c 2 &&& 0x3F).toUInt16
  | _ => 0xF60A

/-- What the loop of `jrd_convert_utf8_to_unicode` works on. -/
structure Utf8Loop where
  /-- `UTF8_local - UTF8`. -/
  pos : ℕ
  UTF_len : ℤ
  /-- What has been written; `step` is its length. -/
  unicode_data : List UInt16
  /-- The end of the bytes that have been read. -/
  top : ℕ
  deriving DecidableEq, Repr

/-- One turn of the loop, over the memory from `UTF8` on. -/
def jrd_convert_utf8_to_unicode.turn (mem : Bytes) (s : Utf8Loop) : Utf8Loop ⊕ Utf8Loop :=
  if s.UTF_len = 0 then .inl s
  else
    let char_len := charLen ((mem.drop s.pos).getD 0 0)
    if char_len = 0 then .inr { s with top := max s.top (s.pos + 1) }
    else
      .inr {
        pos := s.pos + char_len
        UTF_len := s.UTF_len - char_len
        unicode_data := s.unicode_data ++ [charUnit (mem.drop s.pos)]
        top := max s.top (s.pos + char_len) }

def Utf8Loop.start (mem : Bytes) : Utf8Loop := ⟨0, (cstr mem).length, [], 0⟩

/-- `jrd_convert_utf8_to_unicode`: a call that returns gives `step`, with what it has written. -/
def jrd_convert_utf8_to_unicode (mem : Bytes) (r : ℕ × List UInt16) : Prop :=
  if cstr mem = [] then r = (0, [0])
  else
    ∃ s, EndsWith (jrd_convert_utf8_to_unicode.turn mem) (Utf8Loop.start mem) s ∧
      r = (s.unicode_data.length, s.unicode_data)

/-! ## What is encoded -/

/-- The units before the first zero. -/
def beforeZero (units : List UInt16) : List UInt16 := units.takeWhile (· ≠ 0)

theorem not_mem_beforeZero (units : List UInt16) : 0 ∉ beforeZero units := by
  intro hmem
  have hne := List.mem_takeWhile_imp hmem
  simp at hne

theorem beforeZero_of_not_mem {units : List UInt16} (h : 0 ∉ units) : beforeZero units = units :=
  List.takeWhile_eq_self_iff.mpr fun _ hu => decide_eq_true (ne_of_mem_of_not_mem hu h)

/-- The bytes of a unit, by its number. -/
theorem unitBytes_eq (u : UInt16) : unitBytes u =
    if u.toNat ≤ 0x7f then [UInt8.ofNat u.toNat]
    else if u.toNat ≤ 0x7ff then [UInt8.ofNat (u.toNat / 64 + 0xc0), UInt8.ofNat (u.toNat % 64 + 0x80)]
    else [UInt8.ofNat (u.toNat / 4096 + 0xe0), UInt8.ofNat (u.toNat / 64 % 128 + 0x80),
      UInt8.ofNat (u.toNat % 64 + 0x80)] := by
  have hu := u.toNat_lt
  have hor : ∀ a n k : ℕ, n < 2 ^ k → 2 ^ k * a ||| n = n + 2 ^ k * a := by
    intro a n k hn
    rw [← Nat.two_pow_add_eq_or_of_lt hn, Nat.add_comm]
  have hbyte : ∀ (w : UInt16) (n : ℕ), w.toNat % 256 = n % 256 → w.toUInt8 = UInt8.ofNat n := by
    intro w n h
    rw [← UInt8.toNat_inj, UInt16.toNat_toUInt8, UInt8.toNat_ofNat', h]
  have hle : ∀ n : UInt16, u ≤ n ↔ u.toNat ≤ n.toNat := fun n => UInt16.le_iff_toNat_le
  have h6 : (u >>> 6).toNat = u.toNat / 64 := by
    rw [UInt16.toNat_shiftRight]
    exact Nat.shiftRight_eq_div_pow _ 6
  have h12 : (u >>> 12).toNat = u.toNat / 4096 := by
    rw [UInt16.toNat_shiftRight]
    exact Nat.shiftRight_eq_div_pow _ 12
  have hlow : (u &&& (0xff : UInt16) >>> 2).toNat = u.toNat % 64 := by
    rw [UInt16.toNat_and]
    exact Nat.and_two_pow_sub_one_eq_mod _ 6
  have hmid : (u >>> 6 &&& 0x00ff).toNat = u.toNat / 64 % 256 := by
    rw [UInt16.toNat_and, h6]
    exact Nat.and_two_pow_sub_one_eq_mod _ 8
  have htail : ((0x80 : UInt16) ||| u &&& (0xff : UInt16) >>> 2).toUInt8 = UInt8.ofNat (u.toNat % 64 + 0x80) := by
    apply hbyte
    rw [UInt16.toNat_or, hlow]
    have hsum := hor 2 (u.toNat % 64) 6 (Nat.mod_lt _ (by norm_num))
    exact congrArg (· % 256) hsum
  unfold unitBytes
  rw [if_congr (hle 0x007f) rfl rfl, if_congr (hle 0x07ff) rfl rfl]
  by_cases h1 : u.toNat ≤ 0x7f
  · rw [if_pos (show u.toNat ≤ (0x007f : UInt16).toNat from h1), if_pos h1, hbyte u _ rfl]
  rw [if_neg (show ¬ u.toNat ≤ (0x007f : UInt16).toNat from h1), if_neg h1]
  by_cases h2 : u.toNat ≤ 0x7ff
  · have hlead : ((0xc0 : UInt16) ||| u >>> 6).toUInt8 = UInt8.ofNat (u.toNat / 64 + 0xc0) := by
      apply hbyte
      rw [UInt16.toNat_or, h6]
      have hsum := hor 6 (u.toNat / 64) 5 (by omega)
      exact congrArg (· % 256) hsum
    rw [if_pos (show u.toNat ≤ (0x07ff : UInt16).toNat from h2), if_pos h2, hlead, htail]
  · have hlead : ((0xe0 : UInt16) ||| u >>> 12).toUInt8 = UInt8.ofNat (u.toNat / 4096 + 0xe0) := by
      apply hbyte
      rw [UInt16.toNat_or, h12]
      have hsum := hor 14 (u.toNat / 4096) 4 (by omega)
      exact congrArg (· % 256) hsum
    have hsecond : ((0x80 : UInt16) ||| u >>> 6 &&& 0x00ff).toUInt8 = UInt8.ofNat (u.toNat / 64 % 128 + 0x80) := by
      apply hbyte
      rw [UInt16.toNat_or, hmid]
      -- Bit 7 of the second part is the one that is set anyway.
      have hall : ∀ n < 256, (128 ||| n) % 256 = (n % 128 + 128) % 256 := by decide +kernel
      have hsum := hall (u.toNat / 64 % 256) (Nat.mod_lt _ (by norm_num))
      rw [Nat.mod_mod_of_dvd _ (by norm_num : 128 ∣ 256)] at hsum
      exact hsum
    rw [if_neg (show ¬ u.toNat ≤ (0x07ff : UInt16).toNat from h2), if_neg h2, hlead, hsecond, htail]

theorem unitBytes_length (u : UInt16) : (unitBytes u).length = (utf8Unit u).length := by
  rw [unitBytes_eq]
  unfold utf8Unit
  dsimp only
  split_ifs <;> rfl

theorem unitBytes_length_le (u : UInt16) : (unitBytes u).length ≤ 3 := by
  rw [unitBytes_eq]
  split_ifs
  · exact Nat.le_of_ble_eq_true rfl
  · exact Nat.le_of_ble_eq_true rfl
  · exact le_rfl

/-- **One unit.** Its bytes are those of UTF-8 if it takes less than three, or bit 12 is zero. -/
theorem unitBytes_eq_utf8Unit_iff (u : UInt16) :
    unitBytes u = utf8Unit u ↔ u.toNat < 0x800 ∨ u.toNat / 4096 % 2 = 0 := by
  have hu := u.toNat_lt
  rw [unitBytes_eq]
  unfold utf8Unit
  dsimp only
  by_cases h1 : u.toNat ≤ 0x7f
  · rw [if_pos h1, if_pos h1]
    exact iff_of_true rfl (Or.inl (by omega))
  rw [if_neg h1, if_neg h1]
  by_cases h2 : u.toNat ≤ 0x7ff
  · rw [if_pos h2, if_pos h2]
    exact iff_of_true rfl (Or.inl (by omega))
  rw [if_neg h2, if_neg h2]
  constructor
  · intro h
    have hsecond := congrArg UInt8.toNat (List.cons.inj (List.cons.inj h).2).1
    rw [UInt8.toNat_ofNat', UInt8.toNat_ofNat'] at hsecond
    right
    omega
  · rintro (h | h)
    · omega
    · have hsecond : u.toNat / 64 % 128 = u.toNat / 64 % 64 := by omega
      rw [hsecond]

/-- The bytes of a unit other than zero have no zero byte. -/
theorem unitBytes_nulFree {u : UInt16} (h : u ≠ 0) : NulFree (unitBytes u) := by
  rw [unitBytes_eq]
  exact block_nulFree h _ (by omega) (by omega)

theorem flatMap_unitBytes_nulFree {units : List UInt16} (h : 0 ∉ units) :
    NulFree (units.flatMap unitBytes) := by
  intro c hc
  obtain ⟨u, hu, hcu⟩ := List.mem_flatMap.mp hc
  exact unitBytes_nulFree (ne_of_mem_of_not_mem hu h) c hcu

theorem flatMap_unitBytes_length_le (units : List UInt16) :
    (units.flatMap unitBytes).length ≤ 3 * units.length := by
  induction units with
  | nil => exact Nat.zero_le _
  | cons u units ih =>
      have hle := unitBytes_length_le u
      rw [List.flatMap_cons, List.length_append, List.length_cons]
      omega

/-- The loop puts the bytes of the units one behind the other. -/
theorem encode_loop (units : List UInt16) (done rest : Bytes) :
    jrd_convert_unicode_to_utf8.loop units (done ++ rest) done.length
      = (done ++ units.flatMap unitBytes ++ rest.drop (units.flatMap unitBytes).length,
        (done ++ units.flatMap unitBytes).length) := by
  induction units generalizing done rest with
  | nil => simp [jrd_convert_unicode_to_utf8.loop]
  | cons u units ih =>
      have hstep := ih (done ++ unitBytes u) (rest.drop (unitBytes u).length)
      rw [List.length_append] at hstep
      rw [jrd_convert_unicode_to_utf8.loop, writeAt_append, hstep]
      simp [List.append_assoc]

/-- The block: the bytes of the units, the byte `0`, and the zeros that are left. -/
theorem encode_eq (units : List UInt16) : jrd_convert_unicode_to_utf8 units =
    units.flatMap unitBytes ++ 48 ::
      List.replicate (units.length * 3 - (units.flatMap unitBytes).length) 0 := by
  have hle := flatMap_unitBytes_length_le units
  have hloop := encode_loop units [] (List.replicate (units.length * 3 + 1) 0)
  have hslash : slashZero.toUInt8 = 48 := by decide
  rw [List.nil_append, List.length_nil, List.nil_append] at hloop
  unfold jrd_convert_unicode_to_utf8
  dsimp only
  rw [hloop]
  dsimp only
  rw [writeAt_append, hslash, List.drop_replicate, List.length_singleton, List.drop_replicate,
    List.append_assoc, List.singleton_append]
  congr 3
  omega

/-- The string in the block, if a unit is zero. -/
theorem cstr_encode {units : List UInt16} (h : 0 ∈ units) (behind : Bytes) :
    cstr (jrd_convert_unicode_to_utf8 units ++ behind) = (beforeZero units).flatMap unitBytes := by
  obtain ⟨rest, hrest⟩ : ∃ rest, units = beforeZero units ++ 0 :: rest := by
    have hsplit : units = beforeZero units ++ units.dropWhile (· ≠ 0) :=
      List.takeWhile_append_dropWhile.symm
    rcases hdrop : units.dropWhile (· ≠ 0) with _ | ⟨u, rest⟩
    · rw [hdrop, List.append_nil] at hsplit
      rw [hsplit] at h
      have hne := List.mem_takeWhile_imp h
      simp at hne
    · have hu := List.head_dropWhile_not (p := (· ≠ (0 : UInt16))) (l := units)
        (by rw [hdrop]; exact List.cons_ne_nil u rest)
      simp only [hdrop, List.head_cons] at hu
      have hzero : u = 0 := by simpa using hu
      rw [hdrop, hzero] at hsplit
      exact ⟨rest, hsplit⟩
  have hnul := not_mem_beforeZero units
  have hzero : unitBytes 0 = [0] := by decide
  have hbytes : units.flatMap unitBytes
      = (beforeZero units).flatMap unitBytes ++ 0 :: rest.flatMap unitBytes := by
    conv_lhs => rw [hrest]
    rw [List.flatMap_append, List.flatMap_cons, hzero, List.singleton_append]
  rw [encode_eq, hbytes, List.append_assoc, List.append_assoc,
    cstr_append (flatMap_unitBytes_nulFree hnul), List.cons_append, cstr_zero_cons, List.append_nil]

/-- What a caller may rely on: the block has the size that was asked for, there is a terminator in
it, and before that the units up to the first zero in UTF-8. -/
structure EncodesUtf8 (units : List UInt16) : Prop where
  size : (jrd_convert_unicode_to_utf8 units).length = units.length * 3 + 1
  terminated : 0 ∈ jrd_convert_unicode_to_utf8 units
  text : cstr (jrd_convert_unicode_to_utf8 units) = utf8 (beforeZero units)

/-- **The encoder.** It is right exactly for the arrays with a zero unit in them, before which no unit
from 0x800 on has bit 12. -/
theorem encodes_utf8_iff (units : List UInt16) :
    EncodesUtf8 units ↔
      0 ∈ units ∧ ∀ u ∈ beforeZero units, u.toNat < 0x800 ∨ u.toNat / 4096 % 2 = 0 := by
  have hle := flatMap_unitBytes_length_le units
  have hsize : (jrd_convert_unicode_to_utf8 units).length = units.length * 3 + 1 := by
    rw [encode_eq, List.length_append, List.length_cons, List.length_replicate]
    omega
  have hflat : (beforeZero units).flatMap unitBytes = utf8 (beforeZero units) ↔
      ∀ u ∈ beforeZero units, u.toNat < 0x800 ∨ u.toNat / 4096 % 2 = 0 := by
    unfold utf8
    rw [flatMap_eq_iff unitBytes_length]
    exact forall₂_congr fun u _ => unitBytes_eq_utf8Unit_iff u
  by_cases hzero : 0 ∈ units
  · have htext := cstr_encode hzero []
    rw [List.append_nil] at htext
    constructor
    · intro h
      exact ⟨hzero, hflat.mp (htext.symm.trans h.text)⟩
    · rintro ⟨-, hunits⟩
      refine ⟨hsize, ?_, htext.trans (hflat.mpr hunits)⟩
      rw [encode_eq]
      have hmem : 0 ∈ units.flatMap unitBytes :=
        List.mem_flatMap.mpr ⟨0, hzero, by decide⟩
      exact List.mem_append_left _ hmem
  · refine iff_of_false ?_ (fun h => hzero h.1)
    rintro ⟨-, -, htext⟩
    -- The byte behind the last unit is taken for part of the string.
    have hall := beforeZero_of_not_mem hzero
    have hlen := congrArg List.length htext
    rw [encode_eq, cstr_append (flatMap_unitBytes_nulFree hzero), cstr_cons (by decide), hall,
      List.length_append, List.length_cons, flatMap_length_eq unitBytes_length] at hlen
    unfold utf8 at hlen
    omega

/-- A single unit without a terminator. -/
theorem unterminated_not_encoded :
    ¬ ∀ units : List UInt16, (∀ u ∈ units, u < 0xD800 ∨ 0xDFFF < u) → EncodesUtf8 units := by
  intro hall
  have htext := (hall [65] (by simp)).text
  exact absurd htext (by decide +kernel)

/-! ## What is decoded -/

/-- A string of whole characters, each as long as its first byte says, with their units. -/
inductive Chars : Bytes → List UInt16 → Prop
  | nil : Chars [] []
  | cons {b : Bytes} {units : List UInt16} :
      charLen (b.getD 0 0) ≠ 0 → charLen (b.getD 0 0) ≤ b.length →
        Chars (b.drop (charLen (b.getD 0 0))) units → Chars b (charUnit b :: units)

theorem charLen_eq (c : UInt8) : charLen c =
    if c.toNat < 0x80 then 1 else if c.toNat < 0xc0 then 0 else if c.toNat < 0xe0 then 2
    else if c.toNat < 0xf0 then 3 else if c.toNat < 0xf8 then 4 else 0 := by
  have hall : ∀ n < 256, charLen (UInt8.ofNat n) =
      if n < 0x80 then 1 else if n < 0xc0 then 0 else if n < 0xe0 then 2
      else if n < 0xf0 then 3 else if n < 0xf8 then 4 else 0 := by decide +kernel
  have hc := hall c.toNat c.toNat_lt
  rwa [UInt8.ofNat_toNat] at hc

/-- A character is read off its own bytes. -/
theorem charUnit_append {b : Bytes} (hne : charLen (b.getD 0 0) ≠ 0)
    (hle : charLen (b.getD 0 0) ≤ b.length) (behind : Bytes) : charUnit (b ++ behind) = charUnit b := by
  have hget : ∀ i < charLen (b.getD 0 0), (b ++ behind).getD i 0 = b.getD i 0 :=
    fun i hi => List.getD_append b behind 0 i (by omega)
  unfold charUnit
  dsimp only
  rw [hget 0 (by omega)]
  generalize charLen (b.getD 0 0) = k at hget
  split
  · rfl
  · rw [hget 1 (by omega)]
  · rw [hget 1 (by omega), hget 2 (by omega)]
  · rfl

theorem Chars.length_le {b : Bytes} {units : List UInt16} (h : Chars b units) :
    units.length ≤ b.length := by
  induction h with
  | nil => exact le_rfl
  | cons hne hle _ ih =>
      rw [List.length_drop] at ih
      rw [List.length_cons]
      omega

theorem Chars.unique {b : Bytes} {units units' : List UInt16} (h : Chars b units)
    (h' : Chars b units') : units = units' := by
  induction h generalizing units' with
  | nil =>
      cases h' with
      | nil => rfl
      | cons hne hle _ => exact absurd (Nat.le_zero.mp hle) hne
  | cons hne hle _ ih =>
      cases h' with
      | nil => exact absurd (Nat.le_zero.mp hle) hne
      | cons _ _ htail => rw [ih htail]

/-! ### Characters of one, two and three bytes -/

/-- The low bits of a byte. -/
theorem toNat_masked {m : UInt8} {k : ℕ} (hm : m.toNat = 2 ^ k - 1) (c : UInt8) :
    (c &&& m).toUInt16.toNat = c.toNat % 2 ^ k := by
  rw [UInt8.toNat_toUInt16, UInt8.toNat_and, hm, Nat.and_two_pow_sub_one_eq_mod]

/-- Bits put behind others. -/
theorem toNat_shifted_or {w v k : UInt16} {n : ℕ} (hk : k.toNat % 16 = n)
    (hw : 2 ^ n * w.toNat < 2 ^ 16) (hv : v.toNat < 2 ^ n) :
    ((w <<< k) ||| v).toNat = 2 ^ n * w.toNat + v.toNat := by
  have hshift : (w <<< k).toNat = 2 ^ n * w.toNat := by
    rw [UInt16.toNat_shiftLeft, hk, Nat.shiftLeft_eq, Nat.mul_comm, Nat.mod_eq_of_lt hw]
  rw [UInt16.toNat_or, hshift, ← Nat.two_pow_add_eq_or_of_lt hv]

theorem charUnit_one {c : UInt8} (h : c.toNat < 0x80) (rest : Bytes) :
    charLen c = 1 ∧ (charUnit (c :: rest)).toNat = c.toNat := by
  have hlen : charLen c = 1 := by rw [charLen_eq, if_pos h]
  refine ⟨hlen, ?_⟩
  unfold charUnit
  simp only [List.getD_cons_zero, hlen]
  exact UInt8.toNat_toUInt16 c

theorem charUnit_two {c : UInt8} (hlo : 0xc0 ≤ c.toNat) (hhi : c.toNat < 0xe0) (d : UInt8)
    (rest : Bytes) :
    charLen c = 2 ∧ (charUnit (c :: d :: rest)).toNat = c.toNat % 32 * 64 + d.toNat % 64 := by
  have hlen : charLen c = 2 := by
    rw [charLen_eq, if_neg (by omega), if_neg (by omega), if_pos hhi]
  have hc : (c &&& 0x1F).toUInt16.toNat = c.toNat % 32 := toNat_masked (k := 5) rfl c
  have hd : (d &&& 0x3F).toUInt16.toNat = d.toNat % 64 := toNat_masked (k := 6) rfl d
  refine ⟨hlen, ?_⟩
  unfold charUnit
  simp only [List.getD_cons_zero, List.getD_cons_succ, hlen]
  rw [toNat_shifted_or (n := 6) rfl (by omega) (by omega), hc, hd]
  omega

theorem charUnit_three {c : UInt8} (hlo : 0xe0 ≤ c.toNat) (hhi : c.toNat < 0xf0) (d e : UInt8)
    (rest : Bytes) :
    charLen c = 3 ∧ (charUnit (c :: d :: e :: rest)).toNat
      = c.toNat % 16 * 4096 + d.toNat % 64 * 64 + e.toNat % 64 := by
  have hlen : charLen c = 3 := by
    rw [charLen_eq, if_neg (by omega), if_neg (by omega), if_neg (by omega), if_pos hhi]
  have hc : (c &&& 0x0F).toUInt16.toNat = c.toNat % 16 := toNat_masked (k := 4) rfl c
  have hd : (d &&& 0x3F).toUInt16.toNat = d.toNat % 64 := toNat_masked (k := 6) rfl d
  have he : (e &&& 0x3F).toUInt16.toNat = e.toNat % 64 := toNat_masked (k := 6) rfl e
  have hlow : ((d &&& 0x3F).toUInt16 <<< 6 ||| (e &&& 0x3F).toUInt16).toNat
      = 64 * (d.toNat % 64) + e.toNat % 64 := by
    rw [toNat_shifted_or (n := 6) rfl (by omega) (by omega), hd, he]
    omega
  refine ⟨hlen, ?_⟩
  unfold charUnit
  simp only [List.getD_cons_zero, List.getD_cons_succ, hlen]
  rw [UInt16.or_assoc, toNat_shifted_or (n := 12) rfl (by omega) (by omega), hlow, hc]
  omega

/-- Bytes that have a unit's bits where the decoder looks for them make one character. -/
theorem Chars.cons_block {u : UInt16} {block rest : Bytes} {units : List UInt16}
    (hlen : charLen (block.getD 0 0) = block.length) (hne : block ≠ [])
    (hunit : (charUnit block).toNat = u.toNat) (h : Chars rest units) :
    Chars (block ++ rest) (u :: units) := by
  have hpos := List.length_pos_of_ne_nil hne
  have hhead : (block ++ rest).getD 0 0 = block.getD 0 0 := List.getD_append block rest 0 0 hpos
  have hchar := charUnit_append (by omega) hlen.le rest
  rw [← UInt16.toNat_inj.mp hunit, ← hchar]
  apply Chars.cons
  · rw [hhead, hlen]
    omega
  · rw [hhead, hlen, List.length_append]
    omega
  · rw [hhead, hlen, List.drop_left]
    exact h

theorem exists_ofNat {n : ℕ} (h : n < 256) : ∃ c, UInt8.ofNat n = c ∧ c.toNat = n :=
  ⟨_, rfl, by rw [UInt8.toNat_ofNat', Nat.mod_eq_of_lt h]⟩

/-- The blocks of units, in bytes that have the units' bits where the decoder looks for them: of the
second byte of three it takes six bits, so that `mid` may have others as well. -/
theorem chars_blocks (mid : UInt16 → ℕ) (hmid : ∀ u, mid u % 64 = u.toNat / 64 % 64)
    (hlt : ∀ u, mid u < 256) (units : List UInt16) :
    Chars (units.flatMap fun u =>
      if u.toNat ≤ 0x7f then [UInt8.ofNat u.toNat]
      else if u.toNat ≤ 0x7ff then
        [UInt8.ofNat (u.toNat / 64 + 0xc0), UInt8.ofNat (u.toNat % 64 + 0x80)]
      else [UInt8.ofNat (u.toNat / 4096 + 0xe0), UInt8.ofNat (mid u), UInt8.ofNat (u.toNat % 64 + 0x80)])
      units := by
  induction units with
  | nil => exact Chars.nil
  | cons u units ih =>
      have hu := u.toNat_lt
      obtain ⟨e, he, hlow⟩ := exists_ofNat (n := u.toNat % 64 + 0x80) (by omega)
      rw [List.flatMap_cons, he]
      split_ifs with h1 h2
      · obtain ⟨c, hc, hlead⟩ := exists_ofNat (n := u.toNat) (by omega)
        rw [hc]
        obtain ⟨hlen, hunit⟩ := charUnit_one (c := c) (by omega) []
        exact Chars.cons_block hlen (List.cons_ne_nil _ _) (hunit.trans hlead) ih
      · obtain ⟨c, hc, hlead⟩ := exists_ofNat (n := u.toNat / 64 + 0xc0) (by omega)
        rw [hc]
        obtain ⟨hlen, hunit⟩ := charUnit_two (c := c) (by omega) (by omega) e []
        exact Chars.cons_block hlen (List.cons_ne_nil _ _) (hunit.trans (by omega)) ih
      · obtain ⟨c, hc, hlead⟩ := exists_ofNat (n := u.toNat / 4096 + 0xe0) (by omega)
        obtain ⟨d, hd, hmiddle⟩ := exists_ofNat (hlt u)
        have hbits := hmid u
        rw [hc, hd]
        obtain ⟨hlen, hunit⟩ := charUnit_three (c := c) (by omega) (by omega) d e []
        exact Chars.cons_block hlen (List.cons_ne_nil _ _) (hunit.trans (by omega)) ih

/-- What the encoder writes for units is decoded to them. -/
theorem chars_unitBytes (units : List UInt16) : Chars (units.flatMap unitBytes) units := by
  have hblocks := chars_blocks (fun u => u.toNat / 64 % 128 + 0x80) (fun u => by omega)
    (fun u => by omega) units
  rwa [List.flatMap_congr fun u _ => unitBytes_eq u]

/-- UTF-8 is decoded to the units that it encodes. -/
theorem chars_utf8 (units : List UInt16) : Chars (utf8 units) units :=
  chars_blocks (fun u => u.toNat / 64 % 64 + 0x80) (fun u => by omega) (fun u => by omega) units

/-! ### The loop -/

/-- Before a character that starts at `pos`, with `done` written and `b` left. -/
def Utf8Loop.at (pos : ℕ) (b : Bytes) (done : List UInt16) : Utf8Loop := ⟨pos, b.length, done, pos⟩

/-- A turn of the loop over a whole character. -/
theorem decode_turn {mem b behind : Bytes} {pos : ℕ} (hmem : mem.drop pos = b ++ behind)
    (hne : charLen (b.getD 0 0) ≠ 0) (hle : charLen (b.getD 0 0) ≤ b.length) (done : List UInt16) :
    jrd_convert_utf8_to_unicode.turn mem (.at pos b done)
      = .inr (.at (pos + charLen (b.getD 0 0)) (b.drop (charLen (b.getD 0 0))) (done ++ [charUnit b])) := by
  have hhead : (mem.drop pos).getD 0 0 = b.getD 0 0 := by
    rw [hmem, List.getD_append b behind 0 0 (by omega)]
  have hleft : ¬ (b.length : ℤ) = 0 := by omega
  unfold jrd_convert_utf8_to_unicode.turn Utf8Loop.at
  dsimp only
  rw [if_neg hleft, hhead, if_neg hne, hmem, charUnit_append hne hle, List.length_drop,
    Nat.cast_sub hle, max_eq_right (Nat.le_add_right _ _)]

/-- **A run over whole characters** writes their units. -/
theorem decode_chars {mem b behind : Bytes} {units : List UInt16} (h : Chars b units) {pos n : ℕ}
    (hmem : mem.drop pos = b ++ behind) (hn : units.length < n) (done : List UInt16) :
    loopFor (jrd_convert_utf8_to_unicode.turn mem) n (.at pos b done)
      = some (.at (pos + b.length) [] (done ++ units)) := by
  obtain ⟨n, rfl⟩ : ∃ m, n = m + 1 := ⟨n - 1, by omega⟩
  induction h generalizing pos n done with
  | nil =>
      have hend : jrd_convert_utf8_to_unicode.turn mem (.at pos [] done) = .inl (.at pos [] done) := rfl
      rw [List.append_nil]
      exact loopFor_inl hend n
  | @cons b units hne hle _ ih =>
      have hdrop : mem.drop (pos + charLen (b.getD 0 0)) = b.drop (charLen (b.getD 0 0)) ++ behind := by
        rw [← List.drop_drop, hmem, List.drop_append_of_le_length hle]
      obtain ⟨n, rfl⟩ : ∃ m, n = m + 1 := ⟨n - 1, by rw [List.length_cons] at hn; omega⟩
      have hrest := ih hdrop (done ++ [charUnit b]) n (Nat.lt_of_succ_lt_succ hn)
      rw [List.length_drop, Nat.add_assoc, Nat.add_sub_cancel' hle, List.append_assoc,
        List.singleton_append] at hrest
      rw [loopFor_inr (decode_turn hmem hne hle done), hrest]

/-- The memory is the string and what is behind it. -/
theorem exists_drop_zero (mem : Bytes) : ∃ behind, mem.drop 0 = cstr mem ++ behind := by
  obtain ⟨behind, h⟩ := List.takeWhile_prefix (· ≠ 0) (l := mem)
  exact ⟨behind, h.symm⟩

/-- What is left in the array that the decoder writes to. -/
def writtenUnits (units : List UInt16) : List UInt16 := if units = [] then [0] else units

/-- **The decoder**, on a string of whole characters. -/
theorem decode_iff {mem : Bytes} {units : List UInt16} (h : Chars (cstr mem) units)
    (r : ℕ × List UInt16) :
    jrd_convert_utf8_to_unicode mem r ↔ r = (units.length, writtenUnits units) := by
  obtain ⟨behind, hdrop⟩ := exists_drop_zero mem
  have hrun : EndsWith (jrd_convert_utf8_to_unicode.turn mem) (Utf8Loop.start mem)
      (.at (cstr mem).length [] units) := by
    have hfor := decode_chars h hdrop (Nat.lt_succ_self _) []
    rw [List.nil_append, Nat.zero_add] at hfor
    exact ⟨_, hfor⟩
  have hempty : cstr mem = [] ↔ units = [] := by
    constructor
    · intro hnil
      rw [hnil] at h
      exact h.unique Chars.nil
    · rintro rfl
      generalize cstr mem = b at h
      cases h
      rfl
  unfold jrd_convert_utf8_to_unicode writtenUnits
  rw [if_congr hempty rfl rfl]
  by_cases hnil : units = []
  · rw [if_pos hnil, if_pos hnil, hnil, List.length_nil]
  · rw [if_neg hnil, if_neg hnil]
    constructor
    · rintro ⟨s, hs, hr⟩
      rw [hr, ← hrun.unique hs]
      rfl
    · rintro rfl
      exact ⟨_, hrun, rfl⟩

/-- **Round trip.** If a unit is zero, decoding what was encoded gives the units before it, and how
many they are. -/
theorem decode_encode {units : List UInt16} (h : 0 ∈ units) (behind : Bytes) (r : ℕ × List UInt16) :
    jrd_convert_utf8_to_unicode (jrd_convert_unicode_to_utf8 units ++ behind) r ↔
      r = ((beforeZero units).length, writtenUnits (beforeZero units)) := by
  apply decode_iff
  rw [cstr_encode h]
  exact chars_unitBytes (beforeZero units)

/-- `'A'`, a unit of two bytes, one of three with bit 12, and the terminator. -/
theorem decode_encode_mixed :
    (0 : UInt16) ∈ [0x41, 0xe9, 0x5b57, 0, 0x42] ∧
      jrd_convert_utf8_to_unicode (jrd_convert_unicode_to_utf8 [0x41, 0xe9, 0x5b57, 0, 0x42] ++ [])
        (3, [0x41, 0xe9, 0x5b57]) := by
  have hzero : (0 : UInt16) ∈ [0x41, 0xe9, 0x5b57, 0, 0x42] := by decide
  exact ⟨hzero, (decode_encode hzero [] _).mpr rfl⟩

/-! ## What is read and written -/

/-- A call on the string that `mem` begins with returns, reads nothing behind the terminator, and
writes no more than `room` units. -/
structure Utf8Safe (mem : Bytes) (room : ℕ) : Prop where
  returns : ∃ r, jrd_convert_utf8_to_unicode mem r
  reads : ∀ s, Visits (jrd_convert_utf8_to_unicode.turn mem) (Utf8Loop.start mem) s →
    s.top ≤ (cstr mem).length + 1
  writes : ∀ r, jrd_convert_utf8_to_unicode mem r → r.2.length ≤ room

/-- A first byte that starts no character is looked at for ever. -/
theorem not_ends_of_charLen_zero {mem : Bytes} {s : Utf8Loop} (hleft : s.UTF_len ≠ 0)
    (hzero : charLen ((mem.drop s.pos).getD 0 0) = 0) :
    ¬ Ends (jrd_convert_utf8_to_unicode.turn mem) s := by
  have hturn : ∀ top, jrd_convert_utf8_to_unicode.turn mem { s with top := top }
      = .inr { s with top := max top (s.pos + 1) } := by
    intro top
    unfold jrd_convert_utf8_to_unicode.turn
    dsimp only
    rw [if_neg hleft, if_pos hzero]
  have hback := hturn (max s.top (s.pos + 1))
  rw [max_eq_left (le_max_right _ _)] at hback
  rw [ends_inr (hturn s.top)]
  exact not_ends_of_back hback

/-- A count that has gone below zero is never zero again. -/
theorem not_ends_of_neg {mem : Bytes} {s : Utf8Loop} (hneg : s.UTF_len < 0) :
    ¬ Ends (jrd_convert_utf8_to_unicode.turn mem) s := by
  refine not_ends_of_invariant (I := fun t => t.UTF_len < 0) (fun t ht => ?_) hneg
  unfold jrd_convert_utf8_to_unicode.turn
  dsimp only
  rw [if_neg (ne_of_lt ht)]
  split_ifs
  · exact ⟨_, rfl, ht⟩
  · refine ⟨_, rfl, ?_⟩
    dsimp only
    omega

/-- In a loop that ends all characters are whole. -/
theorem chars_of_ends {mem b behind : Bytes} {pos : ℕ} (hmem : mem.drop pos = b ++ behind)
    {done : List UInt16} (hends : Ends (jrd_convert_utf8_to_unicode.turn mem) (.at pos b done)) :
    ∃ units, Chars b units := by
  induction hn : b.length using Nat.strong_induction_on generalizing b pos done with
  | _ n ih =>
      by_cases hb : b = []
      · exact ⟨[], hb ▸ Chars.nil⟩
      have hpos := List.length_pos_of_ne_nil hb
      have hleft : ¬ (b.length : ℤ) = 0 := by omega
      have hhead : (mem.drop pos).getD 0 0 = b.getD 0 0 := by
        rw [hmem, List.getD_append b behind 0 0 hpos]
      have hne : charLen (b.getD 0 0) ≠ 0 := fun hzero =>
        not_ends_of_charLen_zero (s := .at pos b done) hleft (hhead ▸ hzero) hends
      have hle : charLen (b.getD 0 0) ≤ b.length := by
        by_contra hlong
        have hturn : ∃ s, jrd_convert_utf8_to_unicode.turn mem (.at pos b done) = .inr s ∧
            s.UTF_len = b.length - charLen (b.getD 0 0) := by
          unfold jrd_convert_utf8_to_unicode.turn Utf8Loop.at
          dsimp only
          rw [if_neg hleft, hhead, if_neg hne]
          exact ⟨_, rfl, rfl⟩
        obtain ⟨s, hs, hsleft⟩ := hturn
        exact not_ends_of_neg (by omega) ((ends_inr hs).mp hends)
      have hturn := decode_turn hmem hne hle done
      have hdrop : mem.drop (pos + charLen (b.getD 0 0)) = b.drop (charLen (b.getD 0 0)) ++ behind := by
        rw [← List.drop_drop, hmem, List.drop_append_of_le_length hle]
      have hlength : (b.drop (charLen (b.getD 0 0))).length = b.length - charLen (b.getD 0 0) :=
        List.length_drop
      obtain ⟨units, hunits⟩ := ih _ (by omega) hdrop ((ends_inr hturn).mp hends) rfl
      exact ⟨charUnit b :: units, Chars.cons hne hle hunits⟩

/-- **When the decoder returns.** -/
theorem decode_returns_iff (mem : Bytes) :
    (∃ r, jrd_convert_utf8_to_unicode mem r) ↔ ∃ units, Chars (cstr mem) units := by
  constructor
  · rintro ⟨r, hr⟩
    by_cases hnil : cstr mem = []
    · exact ⟨[], hnil ▸ Chars.nil⟩
    · obtain ⟨behind, hdrop⟩ := exists_drop_zero mem
      unfold jrd_convert_utf8_to_unicode at hr
      rw [if_neg hnil] at hr
      obtain ⟨s, hs, -⟩ := hr
      exact chars_of_ends hdrop ⟨s, hs⟩
  · rintro ⟨units, hunits⟩
    exact ⟨_, (decode_iff hunits _).mpr rfl⟩

/-- On whole characters nothing but the string is read. -/
theorem decode_top {mem b behind : Bytes} {units : List UInt16} (h : Chars b units) {pos : ℕ}
    (hmem : mem.drop pos = b ++ behind) {done : List UInt16} {s : Utf8Loop}
    (hs : Visits (jrd_convert_utf8_to_unicode.turn mem) (.at pos b done) s) :
    s.top ≤ pos + b.length := by
  induction h generalizing pos done with
  | nil =>
      have hend : jrd_convert_utf8_to_unicode.turn mem (.at pos [] done) = .inl (.at pos [] done) := rfl
      rcases Relation.ReflTransGen.cases_head hs with rfl | ⟨t, ht, -⟩
      · exact le_rfl
      · rw [hend] at ht
        cases ht
  | @cons b units hne hle _ ih =>
      have hdrop : mem.drop (pos + charLen (b.getD 0 0)) = b.drop (charLen (b.getD 0 0)) ++ behind := by
        rw [← List.drop_drop, hmem, List.drop_append_of_le_length hle]
      rcases Relation.ReflTransGen.cases_head hs with rfl | ⟨t, ht, hvisits⟩
      · exact Nat.le_add_right _ _
      · rw [decode_turn hmem hne hle done] at ht
        cases ht
        have hrest := ih hdrop hvisits
        rw [List.length_drop] at hrest
        omega

/-- **What makes a call safe.** The string has whole characters only, and its units fit; for the
empty string there has to be room for one. -/
theorem utf8Safe_iff (mem : Bytes) (room : ℕ) :
    Utf8Safe mem room ↔ ∃ units, Chars (cstr mem) units ∧ max 1 units.length ≤ room := by
  obtain ⟨behind, hdrop⟩ := exists_drop_zero mem
  have hwritten : ∀ units : List UInt16, (writtenUnits units).length = max 1 units.length := by
    intro units
    cases units with
    | nil => rfl
    | cons u units =>
        unfold writtenUnits
        rw [if_neg (List.cons_ne_nil u units), List.length_cons]
        omega
  constructor
  · rintro ⟨hreturns, -, hwrites⟩
    obtain ⟨units, hunits⟩ := (decode_returns_iff mem).mp hreturns
    have hroom := hwrites _ ((decode_iff hunits _).mpr rfl)
    exact ⟨units, hunits, hwritten units ▸ hroom⟩
  · rintro ⟨units, hunits, hroom⟩
    refine ⟨(decode_returns_iff mem).mpr ⟨units, hunits⟩, ?_, ?_⟩
    · intro s hs
      have hbound := decode_top hunits hdrop hs
      omega
    · intro r hr
      rw [(decode_iff hunits r).mp hr, hwritten units]
      exact hroom

end TestCore.Webs
