/-
Bytes on a wire.

Two things that any program reading messages from a stream needs. An `int` as it lies in
memory: four bytes, lowest first (`intBytes`, `readInt`). And a stream of messages, each
encoded as a block of bytes: of the messages `ms`, those that lie within the first `n` bytes
are `arrived enc ms n`. A reader that keeps up has handed on exactly these, and holds the
beginning of the next block; `arrived_of_split` is how such a reader is verified.
-/
import TestCore.Lib.CString

set_option autoImplicit false

namespace TestCore.Lib

/-! ## Integers in memory -/

/-- The bytes of an `int`. -/
def intBytes (n : ℤ) : Bytes :=
  [UInt8.ofNat (n % 2 ^ 32).toNat, UInt8.ofNat ((n % 2 ^ 32).toNat / 2 ^ 8),
    UInt8.ofNat ((n % 2 ^ 32).toNat / 2 ^ 16), UInt8.ofNat ((n % 2 ^ 32).toNat / 2 ^ 24)]

/-- The unsigned value of the first four bytes. -/
def readWord (b : Bytes) : ℕ :=
  (b.getD 0 0).toNat + (b.getD 1 0).toNat * 2 ^ 8 + (b.getD 2 0).toNat * 2 ^ 16 +
    (b.getD 3 0).toNat * 2 ^ 24

/-- The `int` in the first four bytes. -/
def readInt (b : Bytes) : ℤ :=
  if readWord b < 2 ^ 31 then readWord b else (readWord b : ℤ) - 2 ^ 32

@[simp] theorem intBytes_length (n : ℤ) : (intBytes n).length = 4 := rfl

theorem readWord_append {b : Bytes} (h : 4 ≤ b.length) (c : Bytes) :
    readWord (b ++ c) = readWord b := by
  unfold readWord
  rw [List.getD_append _ _ _ _ (by omega), List.getD_append _ _ _ _ (by omega),
    List.getD_append _ _ _ _ (by omega), List.getD_append _ _ _ _ (by omega)]

/-- Only the first four bytes are read. -/
theorem readInt_append {b : Bytes} (h : 4 ≤ b.length) (c : Bytes) :
    readInt (b ++ c) = readInt b := by
  unfold readInt
  rw [readWord_append h]

theorem readWord_intBytes (n : ℤ) : readWord (intBytes n) = (n % 2 ^ 32).toNat := by
  have hlt : (n % 2 ^ 32).toNat < 2 ^ 32 := by omega
  unfold readWord intBytes
  generalize (n % 2 ^ 32).toNat = u at hlt
  simp only [List.getD_cons_zero, List.getD_cons_succ, UInt8.toNat_ofNat']
  omega

/-- What was stored is read back. -/
theorem readInt_intBytes {n : ℤ} (hlow : -2 ^ 31 ≤ n) (hhigh : n < 2 ^ 31) (rest : Bytes) :
    readInt (intBytes n ++ rest) = n := by
  rw [readInt_append (by rw [intBytes_length])]
  unfold readInt
  rw [readWord_intBytes]
  split_ifs with h
  · omega
  · omega

/-- A value that is not negative is read as the four bytes spell it. -/
theorem readWord_of_readInt {b : Bytes} {n : ℕ} (h : readInt b = n) : readWord b = n := by
  have hlt : ∀ c : UInt8, c.toNat < 2 ^ 8 := fun c => c.toNat_lt
  have h0 := hlt (b.getD 0 0)
  have h1 := hlt (b.getD 1 0)
  have h2 := hlt (b.getD 2 0)
  have h3 := hlt (b.getD 3 0)
  have hword : readWord b < 2 ^ 32 := by
    unfold readWord
    omega
  unfold readInt at h
  split_ifs at h with hpos
  · omega
  · omega

theorem intBytes_natCast {n : ℕ} (h : n < 2 ^ 32) :
    intBytes n = [UInt8.ofNat n, UInt8.ofNat (n / 2 ^ 8), UInt8.ofNat (n / 2 ^ 16),
      UInt8.ofNat (n / 2 ^ 24)] := by
  have hn : ((n : ℤ) % 2 ^ 32).toNat = n := by omega
  unfold intBytes
  rw [hn]

/-- A 16-bit word put together from its two bytes, lowest first. -/
theorem word_of_bytes (w : UInt16) :
    (w &&& 0xFF).toUInt8.toUInt16 ||| (((w >>> 8) &&& 0xFF).toUInt8.toUInt16 <<< 8) = w := by
  have hw := w.toNat_lt
  have hmask : ∀ n : ℕ, n &&& 255 = n % 256 := fun n => Nat.and_two_pow_sub_one_eq_mod n 8
  have h8 : (8 : UInt16).toNat % 16 = 8 := rfl
  have h255 : (0xFF : UInt16).toNat = 255 := rfl
  apply UInt16.toNat_inj.mp
  simp only [UInt16.toNat_or, UInt8.toNat_toUInt16, UInt16.toNat_toUInt8, UInt16.toNat_and,
    UInt16.toNat_shiftLeft, UInt16.toNat_shiftRight]
  rw [h8, h255, hmask, hmask, Nat.shiftLeft_eq, Nat.shiftRight_eq_div_pow]
  have hlow : w.toNat % 256 % 2 ^ 8 = w.toNat % 256 := by omega
  have hhigh : w.toNat / 2 ^ 8 % 256 % 2 ^ 8 * 2 ^ 8 % 2 ^ 16 = 2 ^ 8 * (w.toNat / 256) := by omega
  rw [hlow, hhigh, Nat.or_comm, ← Nat.two_pow_add_eq_or_of_lt (by omega)]
  omega

/-! ## Overwriting a part of a buffer -/

/-- `memcpy` of `b` to `buf + i`. -/
def writeAt (buf : Bytes) (i : ℕ) (b : Bytes) : Bytes :=
  buf.take i ++ b ++ buf.drop (i + b.length)

theorem writeAt_length {buf b : Bytes} {i : ℕ} (h : i + b.length ≤ buf.length) :
    (writeAt buf i b).length = buf.length := by
  unfold writeAt
  simp only [List.length_append, List.length_take, List.length_drop]
  omega

/-- Writing right behind what is there. -/
theorem writeAt_append (a rest b : Bytes) :
    writeAt (a ++ rest) a.length b = a ++ b ++ rest.drop b.length := by
  unfold writeAt
  rw [List.take_left, List.drop_append, List.drop_of_length_le (Nat.le_add_right _ _),
    List.nil_append, Nat.add_sub_cancel_left]

/-- Writing to the beginning. -/
theorem writeAt_zero (buf b : Bytes) : writeAt buf 0 b = b ++ buf.drop b.length := by
  simpa using writeAt_append [] buf b

/-- Up to the end of what was written. -/
theorem take_writeAt {buf : Bytes} {i : ℕ} (h : i ≤ buf.length) (b : Bytes) :
    (writeAt buf i b).take (i + b.length) = buf.take i ++ b := by
  have hlen : (buf.take i ++ b).length = i + b.length := by
    rw [List.length_append, List.length_take_of_le h]
  unfold writeAt
  rw [← hlen, List.take_left]

theorem getElem?_writeAt {buf b : Bytes} {i : ℕ} (h : i ≤ buf.length) (j : ℕ) :
    (writeAt buf i b)[j]? =
      if j < i then buf[j]? else if j < i + b.length then b[j - i]? else buf[j]? := by
  have hlen : (buf.take i).length = i := List.length_take_of_le h
  unfold writeAt
  rw [List.append_assoc]
  by_cases hbefore : j < i
  · rw [if_pos hbefore, List.getElem?_append_left (by omega), List.getElem?_take_of_lt hbefore]
  · rw [if_neg hbefore, List.getElem?_append_right (by omega), hlen]
    by_cases hin : j < i + b.length
    · rw [if_pos hin, List.getElem?_append_left (by omega)]
    · rw [if_neg hin, List.getElem?_append_right (by omega), List.getElem?_drop]
      congr 1
      omega

/-- A string that is copied over itself with its terminator changes nothing; at most the
memory gets the terminator that it did not have. -/
theorem writeAt_cstr_self {buf : Bytes} {i : ℕ} (h : i ≤ buf.length) :
    writeAt buf i (cstr (buf.drop i) ++ [0]) = buf ∨
      writeAt buf i (cstr (buf.drop i) ++ [0]) = buf ++ [0] := by
  have hbuf : buf.take i ++ buf.drop i = buf := List.take_append_drop i buf
  have hlen : (buf.take i).length = i := List.length_take_of_le h
  unfold writeAt
  rcases cstr_split (buf.drop i) with hs | ⟨rest, hs⟩
  · right
    have hend : buf.length ≤ i + (cstr (buf.drop i) ++ [0]).length := by
      rw [← hs, List.length_append, List.length_drop]
      omega
    rw [List.drop_of_length_le hend, ← hs, List.append_nil, ← List.append_assoc, hbuf]
  · left
    have hdrop : buf.drop (i + (cstr (buf.drop i) ++ [0]).length) = rest := by
      have happ : buf.drop i = (cstr (buf.drop i) ++ [0]) ++ rest := by
        rw [List.append_assoc]
        exact hs
      rw [← List.drop_drop]
      generalize cstr (buf.drop i) ++ [0] = pre at happ ⊢
      rw [happ, List.drop_left]
    rw [hdrop, List.append_assoc, List.append_assoc, List.singleton_append, ← hs, hbuf]

/-! ## Streams of blocks -/

/-- The first of two parts of a list begins with anything shorter that the list begins
with. -/
theorem exists_append_of_append_eq {α : Type*} {a b x y : List α} (h : a ++ b = x ++ y)
    (hle : x.length ≤ a.length) : ∃ c, a = x ++ c ∧ y = c ++ b := by
  rcases List.append_eq_append_iff.mp h with ⟨c, hx, hb⟩ | ⟨c, ha, hy⟩
  · have hc : c = [] := by
      apply List.length_eq_zero_iff.mp
      rw [hx, List.length_append] at hle
      omega
    rw [hc] at hx hb
    rw [List.append_nil] at hx
    exact ⟨[], by rw [hx, List.append_nil], by simp [hb]⟩
  · exact ⟨c, ha, hy⟩

section Stream

variable {μ : Type*} (enc : μ → Bytes)

/-- The messages one after another. -/
def stream (ms : List μ) : Bytes := (ms.map enc).flatten

@[simp] theorem stream_nil : stream enc [] = [] := rfl

@[simp] theorem stream_cons (m : μ) (ms : List μ) : stream enc (m :: ms) = enc m ++ stream enc ms := rfl

theorem stream_append (ms ms' : List μ) :
    stream enc (ms ++ ms') = stream enc ms ++ stream enc ms' := by
  unfold stream
  rw [List.map_append, List.flatten_append]

/-- The messages that lie within the first `n` bytes of the stream. -/
def arrived : List μ → ℕ → List μ
  | [], _ => []
  | m :: ms, n => if (enc m).length ≤ n then m :: arrived ms (n - (enc m).length) else []

/-- `p` is less than the first block that is still to come, and empty if there is none. -/
def Unfinished (p : Bytes) : List μ → Prop
  | [] => p = []
  | m :: _ => p.length < (enc m).length

variable {enc}

theorem arrived_unfinished {p : Bytes} {ms : List μ} (h : Unfinished enc p ms) :
    arrived enc ms p.length = [] := by
  rcases ms with _ | ⟨m, ms⟩
  · rfl
  · have hlt : p.length < (enc m).length := h
    rw [arrived, if_neg (by omega)]

/-- **What a reader that keeps up has handed on.** -/
theorem arrived_of_split {p : Bytes} {done rest : List μ} (h : Unfinished enc p rest) :
    arrived enc (done ++ rest) (stream enc done ++ p).length = done := by
  induction done with
  | nil => exact arrived_unfinished h
  | cons m done ih =>
      have hlen : (stream enc (m :: done) ++ p).length
          = (enc m).length + (stream enc done ++ p).length := by
        rw [stream_cons, List.append_assoc, List.length_append]
      rw [List.cons_append, arrived, hlen, if_pos (Nat.le_add_right _ _), Nat.add_sub_cancel_left, ih]

/-- All of it. -/
theorem arrived_all (ms : List μ) : arrived enc ms (stream enc ms).length = ms := by
  have h := @arrived_of_split μ enc [] ms [] rfl
  rwa [List.append_nil, List.append_nil] at h

end Stream

end TestCore.Lib
