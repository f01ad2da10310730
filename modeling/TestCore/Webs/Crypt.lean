/-
`jrd_encrypt` and `jrd_decrypt` of `webs_define.c`.

Each byte becomes two: its low and its high nibble, exclusive-ored with the low
nibble of a key byte and put under the high nibble of that key byte. Reading the
pair back needs only the low nibbles, so it does not matter whether `char` is
signed (the high nibble of a byte from 0x80 on is then sign-extended).

The key has no byte below 0x10, so no ciphertext byte is the terminator and the
ciphertext is a string of exactly twice the length.
-/
import TestCore.Lib.CString

set_option autoImplicit false

namespace TestCore.Webs

open TestCore.Lib

def jrd_key : Bytes := bytes "e5dl12XYVggihggafXWf0f2YSf2Xngd1"

/-- `jrd_key[i % key_len]`. -/
def keyAt (i : ℕ) : UInt8 := jrd_key.getD (i % jrd_key.length) 0

/-- `source[i] >> 4`, cut to a byte. -/
def charShr4 (charSigned : Bool) (c : UInt8) : UInt8 :=
  if charSigned && decide (0x80 ≤ c) then (c >>> 4) ||| 0xf0 else c >>> 4

/-- `tmp_str[2*i]`. -/
def encryptLow (c k : UInt8) : UInt8 := (k &&& 0xf0) ||| ((c &&& 0xf) ^^^ (k &&& 0xf))

/-- `tmp_str[2*i+1]`. -/
def encryptHigh (charSigned : Bool) (c k : UInt8) : UInt8 :=
  (k &&& 0xf0) ||| (charShr4 charSigned c ^^^ (k &&& 0xf))

/-- The loop of `jrd_encrypt` from index `i` on. -/
def encryptFrom (charSigned : Bool) : ℕ → Bytes → Bytes
  | _, [] => []
  | i, c :: source =>
      encryptLow c (keyAt i) :: encryptHigh charSigned c (keyAt i) ::
        encryptFrom charSigned (i + 1) source

/-- `jrd_encrypt`; its second argument does not enter the result. -/
def jrd_encrypt (charSigned : Bool) (source : Bytes) : Bytes := encryptFrom charSigned 0 source

/-- `tmp_str[new_i]` from `source[i]` and `source[i+1]`. -/
def decryptByte (a b k : UInt8) : UInt8 := ((b ^^^ k) <<< 4) ||| ((a ^^^ k) &&& 0xf)

/-- The loop of `jrd_decrypt` from `new_i` on. -/
def decryptFrom : ℕ → Bytes → Bytes
  | _, [] => []
  -- A last byte without a partner is paired with the terminator.
  | i, [a] => [decryptByte a 0 (keyAt i)]
  | i, a :: b :: source => decryptByte a b (keyAt i) :: decryptFrom (i + 1) source

/-- `jrd_decrypt`: the string in the buffer it returns. -/
def jrd_decrypt (source : Bytes) : Bytes := cstr (decryptFrom 0 source)

/-! ## One byte -/

/-- The low nibble of the key cancels and its high nibble is shifted out or masked
off, whatever stands above the high nibble of the byte. -/
theorem decrypt_bits (c k m : BitVec 8) :
    ((((k &&& 0xf0#8) ||| (((c >>> 4) ||| (m &&& 0xf0#8)) ^^^ (k &&& 0xf#8))) ^^^ k) <<< 4) |||
      ((((k &&& 0xf0#8) ||| ((c &&& 0xf#8) ^^^ (k &&& 0xf#8))) ^^^ k) &&& 0xf#8) = c := by
  apply BitVec.eq_of_getLsbD_eq
  intro i hi
  simp only [BitVec.getLsbD_or, BitVec.getLsbD_and, BitVec.getLsbD_xor, BitVec.getLsbD_shiftLeft,
    BitVec.getLsbD_ushiftRight]
  interval_cases i <;> simp

theorem decryptByte_encrypt (charSigned : Bool) (c k : UInt8) :
    decryptByte (encryptLow c k) (encryptHigh charSigned c k) k = c := by
  have h : ∀ m high : UInt8, high = (c >>> 4) ||| (m &&& 0xf0) →
      decryptByte (encryptLow c k) ((k &&& 0xf0) ||| (high ^^^ (k &&& 0xf))) k = c := by
    intro m high hhigh
    rw [hhigh]
    apply UInt8.toBitVec_inj.mp
    exact decrypt_bits c.toBitVec k.toBitVec m.toBitVec
  unfold encryptHigh charShr4
  split_ifs
  · exact h 0xff _ rfl
  · exact h 0 _ (by simp)

/-- Every key byte has something in its high nibble. -/
theorem keyAt_high (i : ℕ) : keyAt i &&& 0xf0 ≠ 0 := by
  have hall : ∀ c ∈ jrd_key, c &&& 0xf0 ≠ 0 := by decide
  have hlen : i % jrd_key.length < jrd_key.length := Nat.mod_lt _ (by decide)
  unfold keyAt
  rw [List.getD_eq_getElem _ _ hlen]
  exact hall _ (List.getElem_mem hlen)

theorem or_ne_zero_of_left {a b : UInt8} (ha : a ≠ 0) : a ||| b ≠ 0 := by
  intro h
  apply ha
  have hbits : a.toBitVec ||| b.toBitVec = 0#8 := congrArg UInt8.toBitVec h
  apply UInt8.toBitVec_inj.mp
  exact (BitVec.or_eq_zero_iff.mp hbits).1

/-! ## The whole string -/

theorem encryptFrom_length (charSigned : Bool) (i : ℕ) (s : Bytes) :
    (encryptFrom charSigned i s).length = 2 * s.length := by
  induction s generalizing i with
  | nil => rfl
  | cons c s ih =>
      rw [encryptFrom, List.length_cons, List.length_cons, ih, List.length_cons]
      omega

theorem encryptFrom_nulFree (charSigned : Bool) (i : ℕ) (s : Bytes) :
    NulFree (encryptFrom charSigned i s) := by
  induction s generalizing i with
  | nil => simp [encryptFrom, NulFree]
  | cons c s ih =>
      intro b hb
      rw [encryptFrom, List.mem_cons, List.mem_cons] at hb
      rcases hb with rfl | rfl | hb
      · exact or_ne_zero_of_left (keyAt_high i)
      · exact or_ne_zero_of_left (keyAt_high i)
      · exact ih (i + 1) b hb

theorem encryptFrom_take (charSigned : Bool) (i n : ℕ) (s : Bytes) :
    (encryptFrom charSigned i s).take (2 * n) = encryptFrom charSigned i (s.take n) := by
  induction n generalizing i s with
  | zero => simp [encryptFrom]
  | succ n ih =>
      cases s with
      | nil => simp [encryptFrom]
      | cons c s =>
          have h2 : 2 * (n + 1) = 2 * n + 1 + 1 := by omega
          rw [encryptFrom, h2, List.take_succ_cons, List.take_succ_cons, ih, List.take_succ_cons,
            encryptFrom]

/-- Decrypting a ciphertext with more bytes behind it gives the plaintext and then
whatever those bytes decrypt to. -/
theorem decryptFrom_encryptFrom_append (charSigned : Bool) (i : ℕ) (s rest : Bytes) :
    decryptFrom i (encryptFrom charSigned i s ++ rest) = s ++ decryptFrom (i + s.length) rest := by
  induction s generalizing i with
  | nil => simp [encryptFrom]
  | cons c s ih =>
      have hlen : i + (c :: s).length = i + 1 + s.length := by
        rw [List.length_cons]
        omega
      rw [encryptFrom, List.cons_append, List.cons_append, decryptFrom, decryptByte_encrypt, ih,
        hlen, List.cons_append]

theorem jrd_encrypt_length (charSigned : Bool) (s : Bytes) :
    (jrd_encrypt charSigned s).length = 2 * s.length :=
  encryptFrom_length charSigned 0 s

theorem jrd_encrypt_nulFree (charSigned : Bool) (s : Bytes) : NulFree (jrd_encrypt charSigned s) :=
  encryptFrom_nulFree charSigned 0 s

theorem jrd_decrypt_jrd_encrypt_append (charSigned : Bool) {s : Bytes} (hs : NulFree s)
    (rest : Bytes) : jrd_decrypt (jrd_encrypt charSigned s ++ rest)
      = s ++ cstr (decryptFrom s.length rest) := by
  unfold jrd_decrypt jrd_encrypt
  rw [decryptFrom_encryptFrom_append, cstr_append hs, Nat.zero_add]

/-! ## The buffers

The two functions fill a zeroed buffer by index: `jrd_encrypt` writes two bytes in each turn
of its loop, `jrd_decrypt` one byte in each turn, at half the index it reads, and its loop
counter goes up twice. -/

/-- One turn of the loop of `jrd_encrypt`. -/
def jrd_encrypt.turn (charSigned : Bool) (source tmp_str : Bytes) (i : ℕ) : Bytes :=
  (tmp_str.set (2 * i) (encryptLow (source.getD i 0) (keyAt i))).set (2 * i + 1)
    (encryptHigh charSigned (source.getD i 0) (keyAt i))

/-- The buffer `jrd_encrypt` returns for the string `source`. -/
def jrd_encrypt.tmp_str (charSigned : Bool) (source : Bytes) : Bytes :=
  (List.range source.length).foldl (jrd_encrypt.turn charSigned source)
    (List.replicate (2 * (source.length + 1)) 0)

/-- The loop of `jrd_decrypt`, from `i` on. The string ends in its terminator, so the byte
behind the last one reads as zero. -/
def jrd_decrypt.loop (source : Bytes) : (fuel i : ℕ) → Bytes → Bytes
  | 0, _, tmp_str => tmp_str
  | fuel + 1, i, tmp_str =>
      if i < source.length then
        let new_i := if i = 0 then 0 else i / 2
        jrd_decrypt.loop source fuel (i + 1 + 1)
          (tmp_str.set new_i
            (decryptByte (source.getD i 0) (source.getD (i + 1) 0) (keyAt new_i)))
      else tmp_str

/-- The buffer `jrd_decrypt` returns for the string at the front of `buf`. -/
def jrd_decrypt.tmp_str (buf : Bytes) : Bytes :=
  let source := cstr buf
  jrd_decrypt.loop source source.length 0 (List.replicate (source.length + 1) 0)

theorem encrypt_turns (charSigned : Bool) (source done : Bytes) (n i : ℕ) (c : UInt8) (s : Bytes)
    (hs : source.drop i = s) (hdone : done.length = 2 * i) :
    (List.range' i s.length).foldl (jrd_encrypt.turn charSigned source)
        (done ++ List.replicate (2 * s.length + n) c)
      = done ++ encryptFrom charSigned i s ++ List.replicate n c := by
  -- By induction on what is left of the source; `done` is what the turns so far have written.
  induction s generalizing done i with
  | nil => simp [encryptFrom]
  | cons b s ih =>
      have hget : source.getD i 0 = b := by
        rw [List.getD_eq_getElem?_getD, ← List.head?_drop, hs]
        rfl
      have hnext : source.drop (i + 1) = s := by
        rw [← List.drop_drop, hs]
        rfl
      have hrep : List.replicate (2 * (b :: s).length + n) c
          = c :: c :: List.replicate (2 * s.length + n) c := by
        rw [List.length_cons, show 2 * (s.length + 1) + n = 2 * s.length + n + 1 + 1 by omega]
        rfl
      have hturn : jrd_encrypt.turn charSigned source
            (done ++ c :: c :: List.replicate (2 * s.length + n) c) i
          = (done ++ [encryptLow b (keyAt i), encryptHigh charSigned b (keyAt i)]) ++
              List.replicate (2 * s.length + n) c := by
        unfold jrd_encrypt.turn
        rw [hget, ← hdone]
        simp [List.set_append_right]
      rw [List.length_cons, List.range'_succ, List.foldl_cons, ← List.length_cons (a := b), hrep,
        hturn, ih _ _ hnext (by simp [hdone]; omega), encryptFrom]
      simp

/-- The buffer holds the ciphertext and then zeros. -/
theorem encrypt_tmp_str (charSigned : Bool) (source : Bytes) :
    jrd_encrypt.tmp_str charSigned source = jrd_encrypt charSigned source ++ [0, 0] := by
  have h := encrypt_turns charSigned source [] 2 0 0 source rfl rfl
  rw [List.nil_append, List.nil_append] at h
  unfold jrd_encrypt.tmp_str jrd_encrypt
  rw [List.range_eq_range', Nat.mul_add, h]
  rfl

theorem decrypt_turn {source : Bytes} {done : Bytes} {i : ℕ} (hdone : done.length = i)
    (hlt : 2 * i < source.length) (m fuel : ℕ) :
    jrd_decrypt.loop source (fuel + 1) (2 * i) (done ++ List.replicate (m + 1) 0)
      = jrd_decrypt.loop source fuel (2 * (i + 1))
          ((done ++ [decryptByte (source.getD (2 * i) 0) (source.getD (2 * i + 1) 0) (keyAt i)]) ++
            List.replicate m 0) := by
  have hnew : (if 2 * i = 0 then 0 else 2 * i / 2) = i := by
    split_ifs with h
    · omega
    · omega
  have hset : ∀ b : UInt8, (done ++ List.replicate (m + 1) 0).set i b
      = (done ++ [b]) ++ List.replicate m 0 := by
    intro b
    rw [List.replicate_succ, List.set_append_right _ _ (by omega), hdone, Nat.sub_self,
      List.set_cons_zero, List.append_assoc, List.singleton_append]
  rw [jrd_decrypt.loop, if_pos hlt, hnew]
  dsimp only
  rw [hset]
  rfl

/-- From `i` on the loop adds what the rest of the source decrypts to. The induction is along
the list function, which takes two bytes at a time, as a turn of the loop does. -/
theorem decrypt_turns (source : Bytes) (i : ℕ) (s : Bytes) :
    ∀ (done : Bytes) (m fuel : ℕ), done.length = i → source.drop (2 * i) = s →
      s.length ≤ fuel → s.length ≤ m →
      ∃ k, jrd_decrypt.loop source fuel (2 * i) (done ++ List.replicate (m + 1) 0)
        = done ++ decryptFrom i s ++ List.replicate (k + 1) 0 := by
  have hend : ∀ (fuel i : ℕ) (tmp_str : Bytes), source.length ≤ i →
      jrd_decrypt.loop source fuel i tmp_str = tmp_str := by
    intro fuel i tmp_str hi
    rcases fuel with _ | fuel
    · rfl
    · rw [jrd_decrypt.loop, if_neg (by omega)]
  have hget : ∀ {n : ℕ} {s : Bytes}, source.drop n = s → ∀ j,
      source.getD (n + j) 0 = s.getD j 0 := by
    rintro n s rfl j
    rw [List.getD_eq_getElem?_getD, List.getD_eq_getElem?_getD, List.getElem?_drop]
  have hlen : ∀ {n : ℕ} {s : Bytes}, source.drop n = s → s.length = source.length - n := by
    rintro n s rfl
    rw [List.length_drop]
  induction i, s using decryptFrom.induct with
  | case1 i =>
      intro done m fuel hdone hs hfuel hm
      have hsrc := hlen hs
      rw [List.length_nil] at hsrc
      refine ⟨m, ?_⟩
      rw [hend _ _ _ (by omega), decryptFrom, List.append_nil]
  | case2 i a =>
      intro done m fuel hdone hs hfuel hm
      have hsrc := hlen hs
      rw [List.length_singleton] at hsrc hfuel hm
      obtain ⟨fuel, rfl⟩ : ∃ f, fuel = f + 1 := ⟨fuel - 1, by omega⟩
      obtain ⟨m, rfl⟩ : ∃ m', m = m' + 1 := ⟨m - 1, by omega⟩
      have ha : source.getD (2 * i) 0 = a := hget hs 0
      have hb : source.getD (2 * i + 1) 0 = 0 := hget hs 1
      refine ⟨m, ?_⟩
      rw [decrypt_turn hdone (by omega), hend _ _ _ (by omega), ha, hb, decryptFrom]
  | case3 i a b s ih =>
      intro done m fuel hdone hs hfuel hm
      have hsrc := hlen hs
      rw [List.length_cons, List.length_cons] at hsrc hfuel hm
      obtain ⟨fuel, rfl⟩ : ∃ f, fuel = f + 1 := ⟨fuel - 1, by omega⟩
      obtain ⟨m, rfl⟩ : ∃ m', m = m' + 1 := ⟨m - 1, by omega⟩
      have ha : source.getD (2 * i) 0 = a := hget hs 0
      have hb : source.getD (2 * i + 1) 0 = b := hget hs 1
      have hnext : source.drop (2 * (i + 1)) = s := by
        rw [Nat.mul_add, ← List.drop_drop, hs]
        rfl
      obtain ⟨k, hk⟩ := ih (done ++ [decryptByte a b (keyAt i)]) m fuel (by simp [hdone]) hnext
        (by omega) (by omega)
      refine ⟨k, ?_⟩
      rw [decrypt_turn hdone (by omega), ha, hb, hk, decryptFrom]
      simp

/-- The buffer `jrd_decrypt` fills holds the decrypted bytes and then zeros. -/
theorem cstr_decrypt_tmp_str (buf : Bytes) :
    cstr (jrd_decrypt.tmp_str buf) = jrd_decrypt (cstr buf) := by
  obtain ⟨k, hk⟩ := decrypt_turns (cstr buf) 0 (cstr buf) [] (cstr buf).length (cstr buf).length
    rfl rfl (le_refl _) (le_refl _)
  rw [List.nil_append, List.nil_append] at hk
  have hzeros : ∀ a : Bytes, cstr (a ++ List.replicate (k + 1) 0) = cstr a := by
    intro a
    induction a with
    | nil => rw [List.nil_append, List.replicate_succ, cstr_zero_cons, cstr_nil]
    | cons b a ih =>
        unfold cstr at ih ⊢
        rw [List.cons_append, List.takeWhile_cons, List.takeWhile_cons, ih]
  unfold jrd_decrypt.tmp_str jrd_decrypt
  dsimp only
  rw [hk, hzeros]

/-- **Decryption inverts encryption.** The ciphertext fills the first `2 * |s|` bytes of its
buffer without a terminator among them, and the terminator follows, so the decryption reads
all of it and leaves the plaintext as the string in its own buffer. -/
theorem jrd_decrypt_inverts_jrd_encrypt (charSigned : Bool) (s : Bytes) (hs : NulFree s) :
    (cstr (jrd_encrypt.tmp_str charSigned s)).length = 2 * s.length ∧
      NulFree ((jrd_encrypt.tmp_str charSigned s).take (2 * s.length)) ∧
      cstr (jrd_decrypt.tmp_str (jrd_encrypt.tmp_str charSigned s)) = s := by
  have hfree := jrd_encrypt_nulFree charSigned s
  have hlen := jrd_encrypt_length charSigned s
  have hcstr : cstr (jrd_encrypt.tmp_str charSigned s) = jrd_encrypt charSigned s := by
    rw [encrypt_tmp_str, cstr_append hfree, cstr_zero_cons, List.append_nil]
  refine ⟨?_, ?_, ?_⟩
  · rw [hcstr, hlen]
  · rw [encrypt_tmp_str, ← hlen, List.take_left]
    exact hfree
  · have h := jrd_decrypt_jrd_encrypt_append charSigned hs []
    rw [List.append_nil] at h
    rw [cstr_decrypt_tmp_str, hcstr, h, decryptFrom, cstr_nil, List.append_nil]

/-- Bytes from 0x80 on, with a signed `char`. -/
theorem jrd_decrypt_inverts_jrd_encrypt_high_bytes :
    NulFree [0x80, 0x7f, 0xff, 0xc3] ∧
      cstr (jrd_decrypt.tmp_str (jrd_encrypt.tmp_str true [0x80, 0x7f, 0xff, 0xc3]))
        = [0x80, 0x7f, 0xff, 0xc3] := by
  have hs : NulFree [0x80, 0x7f, 0xff, 0xc3] := by decide
  exact ⟨hs, (jrd_decrypt_inverts_jrd_encrypt true _ hs).2.2⟩

end TestCore.Webs
