/-
The MD5 message digest.

Four words of 32 bits go through 64 rounds for each block of 64 bytes, and the message is brought to whole
blocks by a bit 1, zeros, and its length in bits as a number of 64. Round `t` is given by formulas in `t`
(`md5Fn`, `md5Index`, `md5Shift`), all but its constant, which has a table.
-/
import TestCore.Lib.Blocks
import TestCore.Lib.Struct

set_option autoImplicit false

namespace TestCore.Lib

/-- The four words. -/
@[ext] structure Md5State where
  a : BitVec 32
  b : BitVec 32
  c : BitVec 32
  d : BitVec 32
  deriving DecidableEq

def Md5State.add (s s' : Md5State) : Md5State := ⟨s.a + s'.a, s.b + s'.b, s.c + s'.c, s.d + s'.d⟩

def md5Init : Md5State := ⟨0x67452301, 0xefcdab89, 0x98badcfe, 0x10325476⟩

/-! ## A round -/

/-- The function of 16 rounds. -/
def md5Fn (i : ℕ) (x y z : BitVec 32) : BitVec 32 :=
  match i with
  | 0 => x &&& y ||| ~~~x &&& z
  | 1 => x &&& z ||| y &&& ~~~z
  | 2 => x ^^^ y ^^^ z
  | _ => y ^^^ (x ||| ~~~z)

/-- The word of the block that comes in. -/
def md5Index (t : ℕ) : ℕ :=
  match t / 16 with
  | 0 => t % 16
  | 1 => (5 * t + 1) % 16
  | 2 => (3 * t + 5) % 16
  | _ => 7 * t % 16

/-- The places to rotate. -/
def md5Shift (t : ℕ) : ℕ :=
  ([[7, 12, 17, 22], [5, 9, 14, 20], [4, 11, 16, 23], [6, 10, 15, 21]].getD (t / 16) []).getD (t % 4) 0

/-- The constants, the first 32 bits of the fractions of the sines. -/
def md5Table : List ℕ := [
  0xd76aa478, 0xe8c7b756, 0x242070db, 0xc1bdceee, 0xf57c0faf, 0x4787c62a, 0xa8304613, 0xfd469501,
  0x698098d8, 0x8b44f7af, 0xffff5bb1, 0x895cd7be, 0x6b901122, 0xfd987193, 0xa679438e, 0x49b40821,
  0xf61e2562, 0xc040b340, 0x265e5a51, 0xe9b6c7aa, 0xd62f105d, 0x02441453, 0xd8a1e681, 0xe7d3fbc8,
  0x21e1cde6, 0xc33707d6, 0xf4d50d87, 0x455a14ed, 0xa9e3e905, 0xfcefa3f8, 0x676f02d9, 0x8d2a4c8a,
  0xfffa3942, 0x8771f681, 0x6d9d6122, 0xfde5380c, 0xa4beea44, 0x4bdecfa9, 0xf6bb4b60, 0xbebfbc70,
  0x289b7ec6, 0xeaa127fa, 0xd4ef3085, 0x04881d05, 0xd9d4d039, 0xe6db99e5, 0x1fa27cf8, 0xc4ac5665,
  0xf4292244, 0x432aff97, 0xab9423a7, 0xfc93a039, 0x655b59c3, 0x8f0ccc92, 0xffeff47d, 0x85845dd1,
  0x6fa87e4f, 0xfe2ce6e0, 0xa3014314, 0x4e0811a1, 0xf7537e82, 0xbd3af235, 0x2ad7d2bb, 0xeb86d391]

def md5Const (t : ℕ) : ℕ := md5Table.getD t 0

/-- Round `t` on the words `X` of the block. -/
def md5Round (X : ℕ → BitVec 32) (s : Md5State) (t : ℕ) : Md5State :=
  { a := s.d
    b := s.b + (s.a + md5Fn (t / 16) s.b s.c s.d + X (md5Index t) + BitVec.ofNat 32 (md5Const t)).rotateLeft
      (md5Shift t)
    c := s.b
    d := s.c }

/-! ## Blocks and messages -/

/-- A word of a block, the low byte first. -/
def md5Word (block : Bytes) (i : ℕ) : BitVec 32 :=
  let byte := fun k => (block.getD (4 * i + k) 0).toBitVec.setWidth 32
  byte 3 <<< 24 ||| byte 2 <<< 16 ||| byte 1 <<< 8 ||| byte 0

/-- The rounds on the words of a block. -/
def md5Rounds (X : ℕ → BitVec 32) (s : Md5State) : Md5State :=
  s.add ((List.range 64).foldl (md5Round X) s)

def md5Compress (s : Md5State) (block : Bytes) : Md5State := md5Rounds (md5Word block) s

theorem leBytes_append (j k n : ℕ) : leBytes (j + k) n = leBytes j n ++ leBytes k (n / 256 ^ j) := by
  induction j generalizing n with
  | zero => rw [Nat.zero_add, Nat.pow_zero, Nat.div_one, leBytes, List.nil_append]
  | succ j ih =>
      rw [Nat.succ_add, leBytes, ih, leBytes, List.cons_append, Nat.div_div_eq_div_mul, ← Nat.pow_succ']

theorem leBytes_mod (k n : ℕ) : leBytes k (n % 256 ^ k) = leBytes k n := by
  induction k generalizing n with
  | zero => rfl
  | succ k ih =>
      have hlow : UInt8.ofNat (n % 256 ^ (k + 1)) = UInt8.ofNat n := by
        apply UInt8.toNat_inj.mp
        rw [UInt8.toNat_ofNat', UInt8.toNat_ofNat', Nat.pow_succ']
        exact Nat.mod_mod_of_dvd n (Nat.dvd_mul_right 256 (256 ^ k))
      rw [leBytes, leBytes, hlow, Nat.pow_succ', Nat.mod_mul_right_div_self, ih]

/-- What is put behind a message of so many bytes. -/
def md5Pad (len : ℕ) : Bytes :=
  0x80 :: (List.replicate ((119 - len % 64) % 64) 0 ++ leBytes 8 (8 * len))

theorem md5Pad_dvd (len : ℕ) : 64 ∣ len + (md5Pad len).length := by
  unfold md5Pad
  rw [List.length_cons, List.length_append, List.length_replicate, leBytes_length]
  omega

theorem md5Word_congr {block block' : Bytes} {i j : ℕ}
    (h : ∀ k < 4, block.getD (4 * i + k) 0 = block'.getD (4 * j + k) 0) :
    md5Word block i = md5Word block' j := by
  simp only [md5Word, h 0 (by norm_num), h 1 (by norm_num), h 2 (by norm_num), h 3 (by norm_num)]

theorem md5Word_append_left {p : Bytes} (q : Bytes) {i : ℕ} (h : 4 * i + 3 < p.length) :
    md5Word (p ++ q) i = md5Word p i :=
  md5Word_congr fun _ _ => List.getD_append _ _ _ _ (by omega)

theorem md5Word_append_right {p : Bytes} (q : Bytes) {i : ℕ} (h : p.length = 4 * i) (j : ℕ) :
    md5Word (p ++ q) (i + j) = md5Word q j :=
  md5Word_congr fun k _ => by
    rw [List.getD_append_right _ _ _ _ (by omega)]
    congr 1
    omega

theorem or_bytes {b₀ b₁ b₂ b₃ : ℕ} (h₀ : b₀ < 256) (h₁ : b₁ < 256) (h₂ : b₂ < 256) :
    b₃ <<< 24 ||| b₂ <<< 16 ||| b₁ <<< 8 ||| b₀ = 2 ^ 24 * b₃ + (2 ^ 16 * b₂ + (2 ^ 8 * b₁ + b₀)) := by
  have hor₁ : 2 ^ 8 * b₁ ||| b₀ = 2 ^ 8 * b₁ + b₀ := (Nat.two_pow_add_eq_or_of_lt (by omega) b₁).symm
  have hor₂ : 2 ^ 16 * b₂ ||| (2 ^ 8 * b₁ + b₀) = 2 ^ 16 * b₂ + (2 ^ 8 * b₁ + b₀) :=
    (Nat.two_pow_add_eq_or_of_lt (by omega) b₂).symm
  rw [Nat.or_assoc, Nat.or_assoc, Nat.shiftLeft_eq, Nat.shiftLeft_eq, Nat.shiftLeft_eq, Nat.mul_comm b₃,
    Nat.mul_comm b₂, Nat.mul_comm b₁, hor₁, hor₂]
  exact (Nat.two_pow_add_eq_or_of_lt (by omega) b₃).symm

/-- A word of a number. -/
theorem md5Word_leBytes (n : ℕ) (q : Bytes) : md5Word (leBytes 4 n ++ q) 0 = BitVec.ofNat 32 n := by
  have hbyte : ∀ m k, k ≤ 24 → ((UInt8.ofNat m).toBitVec.setWidth 32 <<< k).toNat = (m % 256) <<< k := by
    intro m k hk
    have hpow : 2 ^ k ≤ 2 ^ 24 := Nat.pow_le_pow_right (by norm_num) hk
    have hlt : m % 256 < 256 := Nat.mod_lt _ (by norm_num)
    have hprod : m % 256 * 2 ^ k < 2 ^ 32 :=
      (Nat.mul_lt_mul_of_lt_of_le hlt hpow (by norm_num)).trans_eq (by norm_num)
    have hm : (UInt8.ofNat m).toBitVec.toNat = m % 256 := UInt8.toNat_ofNat'
    rw [BitVec.toNat_shiftLeft, BitVec.toNat_setWidth, hm, Nat.mod_eq_of_lt (by omega : m % 256 < 2 ^ 32),
      Nat.shiftLeft_eq, Nat.mod_eq_of_lt hprod]
  change (UInt8.ofNat (n / 256 / 256 / 256)).toBitVec.setWidth 32 <<< 24 |||
    (UInt8.ofNat (n / 256 / 256)).toBitVec.setWidth 32 <<< 16 |||
    (UInt8.ofNat (n / 256)).toBitVec.setWidth 32 <<< 8 ||| (UInt8.ofNat n).toBitVec.setWidth 32 = _
  have hlast : ((UInt8.ofNat n).toBitVec.setWidth 32).toNat = n % 256 := by
    have hzero := hbyte n 0 (by norm_num)
    rwa [BitVec.shiftLeft_zero, Nat.shiftLeft_zero] at hzero
  apply BitVec.eq_of_toNat_eq
  rw [BitVec.toNat_or, BitVec.toNat_or, BitVec.toNat_or, hbyte _ 24 (by norm_num), hbyte _ 16 (by norm_num),
    hbyte _ 8 (by norm_num), hlast, or_bytes (by omega) (by omega) (by omega), BitVec.toNat_ofNat]
  omega

/-- Only 16 words come in. -/
theorem md5Rounds_congr {X Y : ℕ → BitVec 32} (h : ∀ i < 16, X i = Y i) (s : Md5State) :
    md5Rounds X s = md5Rounds Y s := by
  have hindex : ∀ t < 64, md5Index t < 16 := by decide
  refine congrArg s.add (List.foldl_ext _ _ _ fun s t ht => ?_)
  unfold md5Round
  rw [h _ (hindex t (List.mem_range.mp ht))]

/-- The words in bytes. -/
def Md5State.toBytes (s : Md5State) : Bytes :=
  leBytes 4 s.a.toNat ++ leBytes 4 s.b.toNat ++ leBytes 4 s.c.toNat ++ leBytes 4 s.d.toNat

/-- The digest of a message. -/
def md5 (msg : Bytes) : Bytes :=
  ((blocks 64 (msg ++ md5Pad msg.length)).foldl md5Compress md5Init).toBytes

/-- The digest, if the message is taken in as it comes. -/
theorem md5_eq_absorb (msg : Bytes) :
    md5 msg = (absorb 64 md5Compress (absorb 64 md5Compress (md5Init, []) msg)
      (md5Pad msg.length)).1.toBytes := by
  have hdvd : 64 ∣ (msg ++ md5Pad msg.length).length := by
    rw [List.length_append]
    exact md5Pad_dvd msg.length
  rw [← absorb_append, absorb_blocks (by norm_num) hdvd]
  rfl

example : md5 (bytes "abc") =
    [0x90, 0x01, 0x50, 0x98, 0x3c, 0xd2, 0x4f, 0xb0, 0xd6, 0x96, 0x3f, 0x7d, 0x28, 0xe1, 0x7f, 0x72] := by
  decide +kernel

end TestCore.Lib
