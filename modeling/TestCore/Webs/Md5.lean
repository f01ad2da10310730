/-
The two MD5 implementations of the web server (`md5c.c`, of the digest authentication, and `jrd_md5.c`, of the
password that is stored), and the functions that write a digest in hexadecimal.

They share no line. `md5c.c` computes with `unsigned long`, of 32 bits or more, and only some steps cut a
number back to 32; it has a second body, for small code, that goes round a loop with tables. It copies a
message to its buffer a piece at a time, and counts the bits of a block when it is full. `jrd_md5.c` computes
with 32 bits, counts the bits when a piece comes, and tells from the count what is in the buffer. Both give
the digest of the message (`psMd5_digest`, `MD5_digest`), however it is cut into pieces.

A body of 64 lines is the list of its lines. A line assigns to one of `a`, `b`, `c`, `d` and reads the others,
whose parts change from line to line; `roles` are the variables in the order of their parts.
-/
import TestCore.Lib.Md5
import TestCore.Lib.Wire

set_option autoImplicit false

namespace TestCore.Webs

open TestCore.Lib

/-! ## Lines -/

/-- The variables `a`, `b`, `c` and `d`, in a ring. -/
abbrev Md5Var := Fin 4

abbrev Md5Var.a : Md5Var := 0
abbrev Md5Var.b : Md5Var := 1
abbrev Md5Var.c : Md5Var := 2
abbrev Md5Var.d : Md5Var := 3

/-- A line `f(w, x, y, z, data[k], s, t)`. -/
structure Md5Line (φ : Type) where
  f : φ
  w : Md5Var
  x : Md5Var
  y : Md5Var
  z : Md5Var
  k : ℕ
  s : ℕ
  t : ℕ
  deriving DecidableEq

/-- The variables with a state of 32 bits. -/
def md5Vars (v : ℕ) (s : Md5State) : Md5Var → BitVec v
  | 0 => s.a.setWidth v
  | 1 => s.b.setWidth v
  | 2 => s.c.setWidth v
  | 3 => s.d.setWidth v

/-! ## `md5c.c` -/

/-- The macros `FF`, `GG`, `HH` and `II`. -/
inductive PsMacro
  | FF
  | GG
  | HH
  | II
  deriving DecidableEq

section Ps

variable {v : ℕ}

/-- The functions `F`, `G`, `H` and `I` of the macros, on numbers of `v` bits. -/
def PsMacro.fn (m : PsMacro) (x y z : BitVec v) : BitVec v :=
  match m with
  | .FF => z ^^^ (x &&& (y ^^^ z))
  | .GG => y ^^^ (z &&& (y ^^^ x))
  | .HH => x ^^^ y ^^^ z
  | .II => y ^^^ (x ||| ~~~z)

/-- `ROL` and `ROLc`. -/
def ROLc (x : BitVec v) (y : ℕ) : BitVec v :=
  (x <<< (y &&& 31) ||| (x &&& 0xFFFFFFFF) >>> (32 - (y &&& 31))) &&& 0xFFFFFFFF

/-- What the macros assign to `a`. -/
def psAssign (m : PsMacro) (a b c d M : BitVec v) (s t : ℕ) : BitVec v :=
  ROLc (a + m.fn b c d + M + BitVec.ofNat v t) s + b

/-- `LOAD32L`. -/
def LOAD32L (v : ℕ) (y : Bytes) (i : ℕ) : BitVec v :=
  BitVec.ofNat v ((y.getD (i + 3) 0).toNat &&& 255) <<< 24 |||
    BitVec.ofNat v ((y.getD (i + 2) 0).toNat &&& 255) <<< 16 |||
    BitVec.ofNat v ((y.getD (i + 1) 0).toNat &&& 255) <<< 8 |||
    BitVec.ofNat v ((y.getD i 0).toNat &&& 255)

/-- `STORE32L`. -/
def STORE32L (x : ℕ) : Bytes :=
  [UInt8.ofNat (x &&& 255), UInt8.ofNat (x >>> 8 &&& 255), UInt8.ofNat (x >>> 16 &&& 255),
    UInt8.ofNat (x >>> 24 &&& 255)]

/-- The lines of `_md5_compress`. -/
def psLines : List (Md5Line PsMacro) := [
  ⟨.FF, .a, .b, .c, .d, 0, 7, 0xd76aa478⟩, ⟨.FF, .d, .a, .b, .c, 1, 12, 0xe8c7b756⟩,
  ⟨.FF, .c, .d, .a, .b, 2, 17, 0x242070db⟩, ⟨.FF, .b, .c, .d, .a, 3, 22, 0xc1bdceee⟩,
  ⟨.FF, .a, .b, .c, .d, 4, 7, 0xf57c0faf⟩, ⟨.FF, .d, .a, .b, .c, 5, 12, 0x4787c62a⟩,
  ⟨.FF, .c, .d, .a, .b, 6, 17, 0xa8304613⟩, ⟨.FF, .b, .c, .d, .a, 7, 22, 0xfd469501⟩,
  ⟨.FF, .a, .b, .c, .d, 8, 7, 0x698098d8⟩, ⟨.FF, .d, .a, .b, .c, 9, 12, 0x8b44f7af⟩,
  ⟨.FF, .c, .d, .a, .b, 10, 17, 0xffff5bb1⟩, ⟨.FF, .b, .c, .d, .a, 11, 22, 0x895cd7be⟩,
  ⟨.FF, .a, .b, .c, .d, 12, 7, 0x6b901122⟩, ⟨.FF, .d, .a, .b, .c, 13, 12, 0xfd987193⟩,
  ⟨.FF, .c, .d, .a, .b, 14, 17, 0xa679438e⟩, ⟨.FF, .b, .c, .d, .a, 15, 22, 0x49b40821⟩,
  ⟨.GG, .a, .b, .c, .d, 1, 5, 0xf61e2562⟩, ⟨.GG, .d, .a, .b, .c, 6, 9, 0xc040b340⟩,
  ⟨.GG, .c, .d, .a, .b, 11, 14, 0x265e5a51⟩, ⟨.GG, .b, .c, .d, .a, 0, 20, 0xe9b6c7aa⟩,
  ⟨.GG, .a, .b, .c, .d, 5, 5, 0xd62f105d⟩, ⟨.GG, .d, .a, .b, .c, 10, 9, 0x02441453⟩,
  ⟨.GG, .c, .d, .a, .b, 15, 14, 0xd8a1e681⟩, ⟨.GG, .b, .c, .d, .a, 4, 20, 0xe7d3fbc8⟩,
  ⟨.GG, .a, .b, .c, .d, 9, 5, 0x21e1cde6⟩, ⟨.GG, .d, .a, .b, .c, 14, 9, 0xc33707d6⟩,
  ⟨.GG, .c, .d, .a, .b, 3, 14, 0xf4d50d87⟩, ⟨.GG, .b, .c, .d, .a, 8, 20, 0x455a14ed⟩,
  ⟨.GG, .a, .b, .c, .d, 13, 5, 0xa9e3e905⟩, ⟨.GG, .d, .a, .b, .c, 2, 9, 0xfcefa3f8⟩,
  ⟨.GG, .c, .d, .a, .b, 7, 14, 0x676f02d9⟩, ⟨.GG, .b, .c, .d, .a, 12, 20, 0x8d2a4c8a⟩,
  ⟨.HH, .a, .b, .c, .d, 5, 4, 0xfffa3942⟩, ⟨.HH, .d, .a, .b, .c, 8, 11, 0x8771f681⟩,
  ⟨.HH, .c, .d, .a, .b, 11, 16, 0x6d9d6122⟩, ⟨.HH, .b, .c, .d, .a, 14, 23, 0xfde5380c⟩,
  ⟨.HH, .a, .b, .c, .d, 1, 4, 0xa4beea44⟩, ⟨.HH, .d, .a, .b, .c, 4, 11, 0x4bdecfa9⟩,
  ⟨.HH, .c, .d, .a, .b, 7, 16, 0xf6bb4b60⟩, ⟨.HH, .b, .c, .d, .a, 10, 23, 0xbebfbc70⟩,
  ⟨.HH, .a, .b, .c, .d, 13, 4, 0x289b7ec6⟩, ⟨.HH, .d, .a, .b, .c, 0, 11, 0xeaa127fa⟩,
  ⟨.HH, .c, .d, .a, .b, 3, 16, 0xd4ef3085⟩, ⟨.HH, .b, .c, .d, .a, 6, 23, 0x04881d05⟩,
  ⟨.HH, .a, .b, .c, .d, 9, 4, 0xd9d4d039⟩, ⟨.HH, .d, .a, .b, .c, 12, 11, 0xe6db99e5⟩,
  ⟨.HH, .c, .d, .a, .b, 15, 16, 0x1fa27cf8⟩, ⟨.HH, .b, .c, .d, .a, 2, 23, 0xc4ac5665⟩,
  ⟨.II, .a, .b, .c, .d, 0, 6, 0xf4292244⟩, ⟨.II, .d, .a, .b, .c, 7, 10, 0x432aff97⟩,
  ⟨.II, .c, .d, .a, .b, 14, 15, 0xab9423a7⟩, ⟨.II, .b, .c, .d, .a, 5, 21, 0xfc93a039⟩,
  ⟨.II, .a, .b, .c, .d, 12, 6, 0x655b59c3⟩, ⟨.II, .d, .a, .b, .c, 3, 10, 0x8f0ccc92⟩,
  ⟨.II, .c, .d, .a, .b, 10, 15, 0xffeff47d⟩, ⟨.II, .b, .c, .d, .a, 1, 21, 0x85845dd1⟩,
  ⟨.II, .a, .b, .c, .d, 8, 6, 0x6fa87e4f⟩, ⟨.II, .d, .a, .b, .c, 15, 10, 0xfe2ce6e0⟩,
  ⟨.II, .c, .d, .a, .b, 6, 15, 0xa3014314⟩, ⟨.II, .b, .c, .d, .a, 13, 21, 0x4e0811a1⟩,
  ⟨.II, .a, .b, .c, .d, 4, 6, 0xf7537e82⟩, ⟨.II, .d, .a, .b, .c, 11, 10, 0xbd3af235⟩,
  ⟨.II, .c, .d, .a, .b, 2, 15, 0x2ad7d2bb⟩, ⟨.II, .b, .c, .d, .a, 9, 21, 0xeb86d391⟩]

/-- One of the lines. -/
def psLine (W : ℕ → BitVec v) (r : Md5Var → BitVec v) (l : Md5Line PsMacro) : Md5Var → BitVec v :=
  Function.update r l.w (psAssign l.f (r l.w) (r l.x) (r l.y) (r l.z) (W l.k) l.s l.t)

/-- Four numbers are added to a state of 32 bits. -/
def psAdd (s : Md5State) (a b c d : BitVec v) : Md5State :=
  ⟨(s.a.setWidth v + a).setWidth 32, (s.b.setWidth v + b).setWidth 32, (s.c.setWidth v + c).setWidth 32,
    (s.d.setWidth v + d).setWidth 32⟩

/-- `_md5_compress`, with an `unsigned long` of `v` bits. -/
def md5_compress (v : ℕ) (state : Md5State) (buf : Bytes) : Md5State :=
  let W := fun i => LOAD32L v buf (4 * i)
  let r := psLines.foldl (psLine W) (md5Vars v state)
  psAdd state (r .a) (r .b) (r .c) (r .d)

def Worder : List ℕ := [
  0, 1, 2, 3, 4, 5, 6, 7, 8, 9, 10, 11, 12, 13, 14, 15,
  1, 6, 11, 0, 5, 10, 15, 4, 9, 14, 3, 8, 13, 2, 7, 12,
  5, 8, 11, 14, 1, 4, 7, 10, 13, 0, 3, 6, 9, 12, 15, 2,
  0, 7, 14, 5, 12, 3, 10, 1, 8, 15, 6, 13, 4, 11, 2, 9]

def Rorder : List ℕ := [
  7, 12, 17, 22, 7, 12, 17, 22, 7, 12, 17, 22, 7, 12, 17, 22,
  5, 9, 14, 20, 5, 9, 14, 20, 5, 9, 14, 20, 5, 9, 14, 20,
  4, 11, 16, 23, 4, 11, 16, 23, 4, 11, 16, 23, 4, 11, 16, 23,
  6, 10, 15, 21, 6, 10, 15, 21, 6, 10, 15, 21, 6, 10, 15, 21]

def Korder : List ℕ := [
  0xd76aa478, 0xe8c7b756, 0x242070db, 0xc1bdceee, 0xf57c0faf, 0x4787c62a, 0xa8304613, 0xfd469501,
  0x698098d8, 0x8b44f7af, 0xffff5bb1, 0x895cd7be, 0x6b901122, 0xfd987193, 0xa679438e, 0x49b40821,
  0xf61e2562, 0xc040b340, 0x265e5a51, 0xe9b6c7aa, 0xd62f105d, 0x02441453, 0xd8a1e681, 0xe7d3fbc8,
  0x21e1cde6, 0xc33707d6, 0xf4d50d87, 0x455a14ed, 0xa9e3e905, 0xfcefa3f8, 0x676f02d9, 0x8d2a4c8a,
  0xfffa3942, 0x8771f681, 0x6d9d6122, 0xfde5380c, 0xa4beea44, 0x4bdecfa9, 0xf6bb4b60, 0xbebfbc70,
  0x289b7ec6, 0xeaa127fa, 0xd4ef3085, 0x04881d05, 0xd9d4d039, 0xe6db99e5, 0x1fa27cf8, 0xc4ac5665,
  0xf4292244, 0x432aff97, 0xab9423a7, 0xfc93a039, 0x655b59c3, 0x8f0ccc92, 0xffeff47d, 0x85845dd1,
  0x6fa87e4f, 0xfe2ce6e0, 0xa3014314, 0x4e0811a1, 0xf7537e82, 0xbd3af235, 0x2ad7d2bb, 0xeb86d391,
  0xe1f27f3a, 0xf5710fb0, 0xada0e5c4, 0x98e4c919]

/-- The variables of the body for small code. -/
structure PsRegs (v : ℕ) where
  a : BitVec v
  b : BitVec v
  c : BitVec v
  d : BitVec v

/-- The macro of each of its four loops. -/
def psLoop (i : ℕ) : PsMacro := if i < 16 then .FF else if i < 32 then .GG else if i < 48 then .HH else .II

/-- One turn of the loops; the variable `t` has 32 bits. -/
def psTurn (W : ℕ → BitVec v) (r : PsRegs v) (i : ℕ) : PsRegs v :=
  let a := psAssign (psLoop i) r.a r.b r.c r.d (W (Worder.getD i 0)) (Rorder.getD i 0) (Korder.getD i 0)
  let t := r.d.setWidth 32
  { a := t.setWidth v, b := a, c := r.b, d := r.c }

/-- `_md5_compress`, compiled for small code. -/
def md5_compress_small (v : ℕ) (state : Md5State) (buf : Bytes) : Md5State :=
  let W := fun i => LOAD32L v buf (4 * i)
  let r := (List.range 64).foldl (psTurn W)
    ⟨state.a.setWidth v, state.b.setWidth v, state.c.setWidth v, state.d.setWidth v⟩
  psAdd state r.a r.b r.c r.d

/-- `psMd5Context_t`; a call leaves room in the buffer. -/
structure PsMd5 where
  lengthHi : ℕ
  lengthLo : ℕ
  state : Md5State
  curlen : ℕ
  buf : Bytes
  buf_size : buf.length = 64
  curlen_lt : curlen < 64

/-- `psMd5Init`. -/
def psMd5Init (md : PsMd5) : PsMd5 :=
  { md with
    state := ⟨0x67452301, 0xefcdab89, 0x98badcfe, 0x10325476⟩
    curlen := 0
    curlen_lt := by norm_num
    lengthHi := 0
    lengthLo := 0 }

/-- A copy to the buffer that does not fill it. -/
def PsMd5.copy (md : PsMd5) (p : Bytes) (h : md.curlen + p.length < 64) : PsMd5 :=
  { md with
    buf := writeAt md.buf md.curlen p
    curlen := md.curlen + p.length
    buf_size := by rw [writeAt_length (by rw [md.buf_size]; exact h.le), md.buf_size]
    curlen_lt := h }

/-- A copy to the buffer that fills it. -/
def PsMd5.fill (v : ℕ) (md : PsMd5) (p : Bytes) (h : md.curlen + p.length = 64) : PsMd5 :=
  let buf := writeAt md.buf md.curlen p
  let n := (md.lengthLo + 512) % 2 ^ 32
  { buf := buf
    state := md5_compress v md.state buf
    lengthHi := if n < md.lengthLo then (md.lengthHi + 1) % 2 ^ 32 else md.lengthHi
    lengthLo := n
    curlen := 0
    buf_size := by rw [writeAt_length (by rw [md.buf_size]; exact h.le), md.buf_size]
    curlen_lt := by norm_num }

/-- `psMd5Update`. -/
def psMd5Update (v : ℕ) (md : PsMd5) (buf : Bytes) : PsMd5 :=
  if h : buf = [] then md
  else
    let n := min buf.length (64 - md.curlen)
    have hn : (buf.take n).length = n := List.length_take_of_le (Nat.min_le_left _ _)
    have hlt := md.curlen_lt
    if hfull : md.curlen + n = 64 then
      psMd5Update v (md.fill v (buf.take n) (by omega)) (buf.drop n)
    else
      psMd5Update v (md.copy (buf.take n) (by omega)) (buf.drop n)
  termination_by buf.length
  decreasing_by
    all_goals
      have hlen := List.length_pos_iff.mpr h
      rw [List.length_drop]
      omega

/-- The loop that writes so many zeros. -/
def zeroFrom : ℕ → ℕ → Bytes → Bytes
  | 0, _, buf => buf
  | k + 1, curlen, buf => zeroFrom k (curlen + 1) (writeAt buf curlen [0])

/-- The length of the message in bits, the lower word first. -/
def PsMd5.bits (md : PsMd5) : ℕ × ℕ :=
  let n := (md.lengthLo + md.curlen <<< 3) % 2 ^ 32
  let hi := if n < md.lengthLo then (md.lengthHi + 1) % 2 ^ 32 else md.lengthHi
  (n, (hi + md.curlen >>> 29) % 2 ^ 32)

/-- The bit 1 behind the message, and zeros up to the end of the block if the length has no room there. -/
def PsMd5.mark (v : ℕ) (md : PsMd5) : Md5State × Bytes × ℕ :=
  let buf := writeAt md.buf md.curlen [0x80]
  let curlen := md.curlen + 1
  if curlen > 56 then
    let buf := zeroFrom (64 - curlen) curlen buf
    (md5_compress v md.state buf, buf, 0)
  else (md.state, buf, curlen)

/-- `psMd5Final`, with memory for the hash. -/
def psMd5Final (v : ℕ) (md : PsMd5) : Bytes :=
  let (n, hi) := md.bits
  let (state, buf, curlen) := md.mark v
  let buf := zeroFrom (56 - curlen) curlen buf
  let buf := writeAt buf 56 (STORE32L n)
  let buf := writeAt buf 60 (STORE32L hi)
  let state := md5_compress v state buf
  STORE32L state.a.toNat ++ STORE32L state.b.toNat ++ STORE32L state.c.toNat ++ STORE32L state.d.toNat

end Ps

/-! ## `jrd_md5.c` -/

/-- The functions `F1` to `F4`. -/
inductive JrdFn
  | F1
  | F2
  | F3
  | F4
  deriving DecidableEq

/-- `F1`, and the others by it where they are. -/
def JrdFn.fn (f : JrdFn) (x y z : BitVec 32) : BitVec 32 :=
  let f1 := fun x y z : BitVec 32 => z ^^^ (x &&& (y ^^^ z))
  match f with
  | .F1 => f1 x y z
  | .F2 => f1 z x y
  | .F3 => x ^^^ y ^^^ z
  | .F4 => y ^^^ (x ||| ~~~z)

/-- `MD5STEP`. -/
def MD5STEP (f : JrdFn) (w x y z data : BitVec 32) (s : ℕ) : BitVec 32 :=
  let w := w + (f.fn x y z + data)
  let w := w <<< s ||| w >>> (32 - s)
  w + x

/-- The lines of `MD5Transform`. -/
def jrdLines : List (Md5Line JrdFn) := [
  ⟨.F1, .a, .b, .c, .d, 0, 7, 0xd76aa478⟩, ⟨.F1, .d, .a, .b, .c, 1, 12, 0xe8c7b756⟩,
  ⟨.F1, .c, .d, .a, .b, 2, 17, 0x242070db⟩, ⟨.F1, .b, .c, .d, .a, 3, 22, 0xc1bdceee⟩,
  ⟨.F1, .a, .b, .c, .d, 4, 7, 0xf57c0faf⟩, ⟨.F1, .d, .a, .b, .c, 5, 12, 0x4787c62a⟩,
  ⟨.F1, .c, .d, .a, .b, 6, 17, 0xa8304613⟩, ⟨.F1, .b, .c, .d, .a, 7, 22, 0xfd469501⟩,
  ⟨.F1, .a, .b, .c, .d, 8, 7, 0x698098d8⟩, ⟨.F1, .d, .a, .b, .c, 9, 12, 0x8b44f7af⟩,
  ⟨.F1, .c, .d, .a, .b, 10, 17, 0xffff5bb1⟩, ⟨.F1, .b, .c, .d, .a, 11, 22, 0x895cd7be⟩,
  ⟨.F1, .a, .b, .c, .d, 12, 7, 0x6b901122⟩, ⟨.F1, .d, .a, .b, .c, 13, 12, 0xfd987193⟩,
  ⟨.F1, .c, .d, .a, .b, 14, 17, 0xa679438e⟩, ⟨.F1, .b, .c, .d, .a, 15, 22, 0x49b40821⟩,
  ⟨.F2, .a, .b, .c, .d, 1, 5, 0xf61e2562⟩, ⟨.F2, .d, .a, .b, .c, 6, 9, 0xc040b340⟩,
  ⟨.F2, .c, .d, .a, .b, 11, 14, 0x265e5a51⟩, ⟨.F2, .b, .c, .d, .a, 0, 20, 0xe9b6c7aa⟩,
  ⟨.F2, .a, .b, .c, .d, 5, 5, 0xd62f105d⟩, ⟨.F2, .d, .a, .b, .c, 10, 9, 0x02441453⟩,
  ⟨.F2, .c, .d, .a, .b, 15, 14, 0xd8a1e681⟩, ⟨.F2, .b, .c, .d, .a, 4, 20, 0xe7d3fbc8⟩,
  ⟨.F2, .a, .b, .c, .d, 9, 5, 0x21e1cde6⟩, ⟨.F2, .d, .a, .b, .c, 14, 9, 0xc33707d6⟩,
  ⟨.F2, .c, .d, .a, .b, 3, 14, 0xf4d50d87⟩, ⟨.F2, .b, .c, .d, .a, 8, 20, 0x455a14ed⟩,
  ⟨.F2, .a, .b, .c, .d, 13, 5, 0xa9e3e905⟩, ⟨.F2, .d, .a, .b, .c, 2, 9, 0xfcefa3f8⟩,
  ⟨.F2, .c, .d, .a, .b, 7, 14, 0x676f02d9⟩, ⟨.F2, .b, .c, .d, .a, 12, 20, 0x8d2a4c8a⟩,
  ⟨.F3, .a, .b, .c, .d, 5, 4, 0xfffa3942⟩, ⟨.F3, .d, .a, .b, .c, 8, 11, 0x8771f681⟩,
  ⟨.F3, .c, .d, .a, .b, 11, 16, 0x6d9d6122⟩, ⟨.F3, .b, .c, .d, .a, 14, 23, 0xfde5380c⟩,
  ⟨.F3, .a, .b, .c, .d, 1, 4, 0xa4beea44⟩, ⟨.F3, .d, .a, .b, .c, 4, 11, 0x4bdecfa9⟩,
  ⟨.F3, .c, .d, .a, .b, 7, 16, 0xf6bb4b60⟩, ⟨.F3, .b, .c, .d, .a, 10, 23, 0xbebfbc70⟩,
  ⟨.F3, .a, .b, .c, .d, 13, 4, 0x289b7ec6⟩, ⟨.F3, .d, .a, .b, .c, 0, 11, 0xeaa127fa⟩,
  ⟨.F3, .c, .d, .a, .b, 3, 16, 0xd4ef3085⟩, ⟨.F3, .b, .c, .d, .a, 6, 23, 0x04881d05⟩,
  ⟨.F3, .a, .b, .c, .d, 9, 4, 0xd9d4d039⟩, ⟨.F3, .d, .a, .b, .c, 12, 11, 0xe6db99e5⟩,
  ⟨.F3, .c, .d, .a, .b, 15, 16, 0x1fa27cf8⟩, ⟨.F3, .b, .c, .d, .a, 2, 23, 0xc4ac5665⟩,
  ⟨.F4, .a, .b, .c, .d, 0, 6, 0xf4292244⟩, ⟨.F4, .d, .a, .b, .c, 7, 10, 0x432aff97⟩,
  ⟨.F4, .c, .d, .a, .b, 14, 15, 0xab9423a7⟩, ⟨.F4, .b, .c, .d, .a, 5, 21, 0xfc93a039⟩,
  ⟨.F4, .a, .b, .c, .d, 12, 6, 0x655b59c3⟩, ⟨.F4, .d, .a, .b, .c, 3, 10, 0x8f0ccc92⟩,
  ⟨.F4, .c, .d, .a, .b, 10, 15, 0xffeff47d⟩, ⟨.F4, .b, .c, .d, .a, 1, 21, 0x85845dd1⟩,
  ⟨.F4, .a, .b, .c, .d, 8, 6, 0x6fa87e4f⟩, ⟨.F4, .d, .a, .b, .c, 15, 10, 0xfe2ce6e0⟩,
  ⟨.F4, .c, .d, .a, .b, 6, 15, 0xa3014314⟩, ⟨.F4, .b, .c, .d, .a, 13, 21, 0x4e0811a1⟩,
  ⟨.F4, .a, .b, .c, .d, 4, 6, 0xf7537e82⟩, ⟨.F4, .d, .a, .b, .c, 11, 10, 0xbd3af235⟩,
  ⟨.F4, .c, .d, .a, .b, 2, 15, 0x2ad7d2bb⟩, ⟨.F4, .b, .c, .d, .a, 9, 21, 0xeb86d391⟩]

/-- One of the lines. -/
def jrdLine (words : ℕ → BitVec 32) (r : Md5Var → BitVec 32) (l : Md5Line JrdFn) : Md5Var → BitVec 32 :=
  Function.update r l.w
    (MD5STEP l.f (r l.w) (r l.x) (r l.y) (r l.z) (words l.k + BitVec.ofNat 32 l.t) l.s)

/-- `MD5Transform`. -/
def MD5Transform (buf : Md5State) (words : ℕ → BitVec 32) : Md5State :=
  let r := jrdLines.foldl (jrdLine words) (md5Vars 32 buf)
  ⟨buf.a + r .a, buf.b + r .b, buf.c + r .c, buf.d + r .d⟩

/-- `MD5Context`. -/
structure MD5Context where
  buf : Md5State
  bits0 : ℕ
  bits1 : ℕ
  inb : Bytes
  inb_size : inb.length = 64

/-- `MD5Init`. -/
def MD5Init (ctx : MD5Context) : MD5Context :=
  { ctx with
    buf := ⟨0x67452301, 0xefcdab89, 0x98badcfe, 0x10325476⟩
    bits0 := 0
    bits1 := 0 }

/-- The buffer with a copy of `p` at `t`, if that fits. -/
def MD5Context.copy (ctx : MD5Context) (t : ℕ) (p : Bytes) (h : t + p.length ≤ 64) : MD5Context :=
  { ctx with
    inb := writeAt ctx.inb t p
    inb_size := by rw [writeAt_length (by rw [ctx.inb_size]; exact h), ctx.inb_size] }

/-- `byteReverse`, where the machine needs it, and `MD5Transform`: the words have the low byte first. -/
def MD5Context.transform (ctx : MD5Context) : MD5Context :=
  { ctx with buf := MD5Transform ctx.buf (md5Word ctx.inb) }

@[simp] theorem MD5Context.copy_bits0 (ctx : MD5Context) (t : ℕ) (p : Bytes) (h : t + p.length ≤ 64) :
    (ctx.copy t p h).bits0 = ctx.bits0 := rfl

@[simp] theorem MD5Context.copy_bits1 (ctx : MD5Context) (t : ℕ) (p : Bytes) (h : t + p.length ≤ 64) :
    (ctx.copy t p h).bits1 = ctx.bits1 := rfl

@[simp] theorem MD5Context.transform_bits0 (ctx : MD5Context) : ctx.transform.bits0 = ctx.bits0 := by
  unfold MD5Context.transform
  rfl

@[simp] theorem MD5Context.transform_bits1 (ctx : MD5Context) : ctx.transform.bits1 = ctx.bits1 := by
  unfold MD5Context.transform
  rfl

/-- The loop of `MD5Update` over whole blocks, and the rest. -/
def MD5Blocks (ctx : MD5Context) (buf : Bytes) : MD5Context :=
  if h : 64 ≤ buf.length then
    MD5Blocks (ctx.copy 0 (buf.take 64) (by rw [List.length_take]; omega)).transform (buf.drop 64)
  else ctx.copy 0 buf (by omega)
  termination_by buf.length
  decreasing_by
    rw [List.length_drop]
    omega

/-- The bits of a piece are counted. -/
def MD5Context.counted (ctx : MD5Context) (len : ℕ) : MD5Context :=
  let t := ctx.bits0
  let bits0 := (t + len <<< 3 % 2 ^ 32) % 2 ^ 32
  let bits1 := if bits0 < t then (ctx.bits1 + 1) % 2 ^ 32 else ctx.bits1
  { ctx with bits0 := bits0, bits1 := (bits1 + len >>> 29) % 2 ^ 32 }

/-- `MD5Update`. -/
def MD5Update (ctx : MD5Context) (data : Bytes) : MD5Context :=
  let len := data.length
  let t := ctx.bits0 >>> 3 % 64
  let ctx := ctx.counted len
  if t ≠ 0 then
    if h : len < 64 - t then ctx.copy t data (by omega)
    else
      MD5Blocks (ctx.copy t (data.take (64 - t)) (by rw [List.length_take]; omega)).transform
        (data.drop (64 - t))
  else MD5Blocks ctx data

/-- `MD5Final`: the digest. -/
def MD5Final (ctx : MD5Context) : Bytes :=
  let count := ctx.bits0 >>> 3 % 64
  let inb := writeAt ctx.inb count [0x80]
  let p := count + 1
  let count := 64 - 1 - count
  let (buf, inb) :=
    if count < 8 then
      let inb := writeAt inb p (List.replicate count 0)
      (MD5Transform ctx.buf (md5Word inb), writeAt inb 0 (List.replicate 56 0))
    else (ctx.buf, writeAt inb p (List.replicate (count - 8) 0))
  let words := fun i =>
    if i = 14 then BitVec.ofNat 32 ctx.bits0 else if i = 15 then BitVec.ofNat 32 ctx.bits1 else md5Word inb i
  (MD5Transform buf words).toBytes

/-! ## Numbers of more than 32 bits

What is above does not matter: the lower 32 bits of each result depend on the lower 32 bits only. -/

variable {v : ℕ}

theorem and_mask (hv : 32 ≤ v) (x : BitVec v) : x &&& 0xFFFFFFFF = (x.setWidth 32).setWidth v := by
  have hle : 2 ^ 32 ≤ 2 ^ v := Nat.pow_le_pow_right (by norm_num) hv
  have hmask : (0xFFFFFFFF : BitVec v).toNat = 2 ^ 32 - 1 := by
    change (BitVec.ofNat v 0xFFFFFFFF).toNat = _
    rw [BitVec.toNat_ofNat, Nat.mod_eq_of_lt (by omega)]
    rfl
  have hlt : x.toNat % 2 ^ 32 < 2 ^ 32 := Nat.mod_lt _ (by norm_num)
  apply BitVec.eq_of_toNat_eq
  rw [BitVec.toNat_and, hmask, Nat.and_two_pow_sub_one_eq_mod, BitVec.toNat_setWidth, BitVec.toNat_setWidth,
    Nat.mod_eq_of_lt (hlt.trans_le hle)]

theorem setWidth_low (hv : 32 ≤ v) (y : BitVec 32) : (y.setWidth v).setWidth 32 = y := by
  rw [BitVec.setWidth_setWidth_of_le _ hv, BitVec.setWidth_eq]

theorem setWidth_shiftRight_low (hv : 32 ≤ v) (y : BitVec 32) (k : ℕ) :
    ((y.setWidth v) >>> k).setWidth 32 = y >>> k := by
  have hle : 2 ^ 32 ≤ 2 ^ v := Nat.pow_le_pow_right (by norm_num) hv
  have hlt : y.toNat >>> k < 2 ^ 32 := (Nat.shiftRight_le y.toNat k).trans_lt y.isLt
  apply BitVec.eq_of_toNat_eq
  rw [BitVec.toNat_setWidth, BitVec.toNat_ushiftRight, BitVec.toNat_setWidth,
    Nat.mod_eq_of_lt (y.isLt.trans_le hle), BitVec.toNat_ushiftRight, Nat.mod_eq_of_lt hlt]

theorem rotateLeft_eq_or {w s : ℕ} (x : BitVec w) (h : s < w) :
    x.rotateLeft s = x <<< s ||| x >>> (w - s) := by
  rw [BitVec.rotateLeft_eq_rotateLeftAux_of_lt h]
  rfl

theorem ROLc_low (hv : 32 ≤ v) (x : BitVec v) {s : ℕ} (h : s < 32) :
    (ROLc x s).setWidth 32 = (x.setWidth 32).rotateLeft s := by
  have hs : s &&& 31 = s := by
    rw [show (31 : ℕ) = 2 ^ 5 - 1 by norm_num, Nat.and_two_pow_sub_one_eq_mod]
    omega
  unfold ROLc
  rw [hs, and_mask hv, and_mask hv, rotateLeft_eq_or _ h, setWidth_low hv, BitVec.setWidth_or,
    BitVec.setWidth_shiftLeft_of_le hv, setWidth_shiftRight_low hv]

/-- The group of rounds that a macro is for. -/
def PsMacro.index : PsMacro → ℕ
  | .FF => 0
  | .GG => 1
  | .HH => 2
  | .II => 3

/-- A choice by the bits of `x`. -/
theorem xor_and_xor {w : ℕ} (x y z : BitVec w) : z ^^^ (x &&& (y ^^^ z)) = x &&& y ||| ~~~x &&& z := by
  ext i hi
  simp only [BitVec.getElem_xor, BitVec.getElem_and, BitVec.getElem_or, BitVec.getElem_not]
  cases x[i] <;> cases y[i] <;> cases z[i] <;> rfl

theorem PsMacro.fn_low (hv : 32 ≤ v) (m : PsMacro) (x y z : BitVec v) :
    (m.fn x y z).setWidth 32 = md5Fn m.index (x.setWidth 32) (y.setWidth 32) (z.setWidth 32) := by
  have hnot : (~~~z).setWidth 32 = ~~~(z.setWidth 32) := BitVec.setWidth_not hv
  cases m with
  | FF =>
      rw [PsMacro.fn, BitVec.setWidth_xor, BitVec.setWidth_and, BitVec.setWidth_xor]
      exact xor_and_xor _ _ _
  | GG =>
      rw [PsMacro.fn, BitVec.setWidth_xor, BitVec.setWidth_and, BitVec.setWidth_xor,
        BitVec.xor_comm (y.setWidth 32) (x.setWidth 32), xor_and_xor]
      exact congrArg₂ _ (BitVec.and_comm _ _) (BitVec.and_comm _ _)
  | HH =>
      rw [PsMacro.fn, BitVec.setWidth_xor, BitVec.setWidth_xor]
      rfl
  | II =>
      rw [PsMacro.fn, BitVec.setWidth_xor, BitVec.setWidth_or, hnot]
      rfl

theorem psAssign_low (hv : 32 ≤ v) (m : PsMacro) (a b c d M : BitVec v) {s : ℕ} (hs : s < 32) (t : ℕ) :
    (psAssign m a b c d M s t).setWidth 32 =
      (a.setWidth 32 + md5Fn m.index (b.setWidth 32) (c.setWidth 32) (d.setWidth 32) + M.setWidth 32 +
        BitVec.ofNat 32 t).rotateLeft s + b.setWidth 32 := by
  unfold psAssign
  rw [BitVec.setWidth_add _ _ hv, ROLc_low hv _ hs, BitVec.setWidth_add _ _ hv, BitVec.setWidth_add _ _ hv,
    BitVec.setWidth_add _ _ hv, m.fn_low hv, BitVec.setWidth_ofNat_of_le hv]

theorem ofNat_byte (b : UInt8) : BitVec.ofNat 32 (b.toNat &&& 255) = b.toBitVec.setWidth 32 := by
  have hlt : b.toNat < 2 ^ 8 := b.toNat_lt
  apply BitVec.eq_of_toNat_eq
  rw [show (255 : ℕ) = 2 ^ 8 - 1 by norm_num, Nat.and_two_pow_sub_one_eq_mod, Nat.mod_eq_of_lt hlt,
    BitVec.toNat_ofNat, BitVec.toNat_setWidth]
  rfl

theorem LOAD32L_low (hv : 32 ≤ v) (y : Bytes) (i : ℕ) : (LOAD32L v y (4 * i)).setWidth 32 = md5Word y i := by
  unfold LOAD32L md5Word
  rw [BitVec.setWidth_or, BitVec.setWidth_or, BitVec.setWidth_or, BitVec.setWidth_shiftLeft_of_le hv,
   BitVec.setWidth_shiftLeft_of_le hv, BitVec.setWidth_shiftLeft_of_le hv, BitVec.setWidth_ofNat_of_le hv,
   BitVec.setWidth_ofNat_of_le hv, BitVec.setWidth_ofNat_of_le hv, BitVec.setWidth_ofNat_of_le hv]
  rw [ofNat_byte, ofNat_byte, ofNat_byte, ofNat_byte]
  rfl

/-! ## The lines are the rounds -/

/-- What line `t` should be. -/
def roundLine {φ : Type} (fns : List φ) (f : φ) (t : ℕ) : Md5Line φ :=
  { f := fns.getD (t / 16) f
    w := 0 - Fin.ofNat 4 t
    x := 1 - Fin.ofNat 4 t
    y := 2 - Fin.ofNat 4 t
    z := 3 - Fin.ofNat 4 t
    k := md5Index t
    s := md5Shift t
    t := md5Const t }

theorem psLines_eq : psLines = (List.range 64).map (roundLine [.FF, .GG, .HH, .II] .II) := by decide

theorem jrdLines_eq : jrdLines = (List.range 64).map (roundLine [.F1, .F2, .F3, .F4] .F4) := by decide

theorem md5Shift_lt : ∀ t < 64, md5Shift t < 32 := by decide

/-- The variables in the order of their parts before line `t`. -/
def roles (t : ℕ) (r : Md5Var → BitVec v) : Md5State :=
  ⟨(r (0 - Fin.ofNat 4 t)).setWidth 32, (r (1 - Fin.ofNat 4 t)).setWidth 32,
    (r (2 - Fin.ofNat 4 t)).setWidth 32, (r (3 - Fin.ofNat 4 t)).setWidth 32⟩

/-- A line that puts the new `b` of the round in the place of the old `a` is the round. -/
theorem roles_update {X : ℕ → BitVec 32} {t : ℕ} {r : Md5Var → BitVec v} {new : BitVec v}
    (hnew : new.setWidth 32 = (md5Round X (roles t r) t).b) :
    roles (t + 1) (Function.update r (0 - Fin.ofNat 4 t) new) = md5Round X (roles t r) t := by
  have hsucc : Fin.ofNat 4 (t + 1) = Fin.ofNat 4 t + 1 := by
    ext
    simp [Fin.val_add]
  have hturn : ∀ i : Fin 4, 0 - (i + 1) = 3 - i ∧ 1 - (i + 1) = 0 - i ∧ 2 - (i + 1) = 1 - i ∧
      3 - (i + 1) = 2 - i := by decide
  have hother : ∀ i : Fin 4, 3 - i ≠ 0 - i ∧ 1 - i ≠ 0 - i ∧ 2 - i ≠ 0 - i := by decide
  obtain ⟨ha, hb, hc, hd⟩ := hturn (Fin.ofNat 4 t)
  obtain ⟨h3, h1, h2⟩ := hother (Fin.ofNat 4 t)
  unfold roles at hnew ⊢
  rw [hsucc, ha, hb, hc, hd, Function.update_self, Function.update_of_ne h3, Function.update_of_ne h1,
    Function.update_of_ne h2, hnew]
  rfl

/-- Lines each of which is the round of its place are the rounds. -/
theorem roles_foldl {φ : Type} (line : (Md5Var → BitVec v) → Md5Line φ → Md5Var → BitVec v) (fns : List φ)
    (f : φ) (X : ℕ → BitVec 32)
    (hline : ∀ t < 64, ∀ r, roles (t + 1) (line r (roundLine fns f t)) = md5Round X (roles t r) t)
    (r : Md5Var → BitVec v) (n : ℕ) (hn : n ≤ 64) :
    roles n (((List.range n).map (roundLine fns f)).foldl line r)
      = (List.range n).foldl (md5Round X) (roles 0 r) := by
  induction n with
  | zero => rfl
  | succ n ih =>
      rw [List.range_succ, List.map_append, List.foldl_append, List.foldl_append, ← ih (by omega)]
      exact hline n hn _

theorem roles_md5Vars (hv : 32 ≤ v) (s : Md5State) : roles 0 (md5Vars v s) = s := by
  ext1
  all_goals exact setWidth_low hv _

theorem psLine_round (hv : 32 ≤ v) (W : ℕ → BitVec v) {t : ℕ} (ht : t < 64) (r : Md5Var → BitVec v) :
    roles (t + 1) (psLine W r (roundLine [.FF, .GG, .HH, .II] .II t))
      = md5Round (fun i => (W i).setWidth 32) (roles t r) t := by
  have hindex : ∀ t < 64, (([.FF, .GG, .HH, .II] : List PsMacro).getD (t / 16) .II).index = t / 16 := by
    decide
  refine roles_update ?_
  refine (psAssign_low hv _ _ _ _ _ _ (md5Shift_lt t ht) _).trans ?_
  rw [BitVec.add_comm]
  change _ + (_ + md5Fn (([.FF, .GG, .HH, .II] : List PsMacro).getD (t / 16) .II).index _ _ _ + _ +
    _).rotateLeft _ = _
  rw [hindex t ht]
  rfl

theorem psAdd_eq (hv : 32 ≤ v) (s : Md5State) (a b c d : BitVec v) :
    psAdd s a b c d = s.add ⟨a.setWidth 32, b.setWidth 32, c.setWidth 32, d.setWidth 32⟩ := by
  unfold psAdd Md5State.add
  rw [BitVec.setWidth_add _ _ hv, BitVec.setWidth_add _ _ hv, BitVec.setWidth_add _ _ hv,
    BitVec.setWidth_add _ _ hv, setWidth_low hv, setWidth_low hv, setWidth_low hv, setWidth_low hv]

/-- What `_md5_compress` does to the state. -/
theorem md5_compress_eq (hv : 32 ≤ v) (state : Md5State) (buf : Bytes) :
    md5_compress v state buf = md5Compress state buf := by
  have hrounds := roles_foldl (psLine fun i => LOAD32L v buf (4 * i)) [.FF, .GG, .HH, .II] .II _
    (fun t ht r => psLine_round hv _ ht r) (md5Vars v state) 64 le_rfl
  have hword : (fun i => (LOAD32L v buf (4 * i)).setWidth 32) = md5Word buf :=
    funext fun i => LOAD32L_low hv buf i
  rw [← psLines_eq, roles_md5Vars hv, hword] at hrounds
  exact (psAdd_eq hv _ _ _ _ _).trans (congrArg state.add hrounds)

/-! ## The body for small code -/

theorem tables_eq : ∀ t < 64, (psLoop t).index = t / 16 ∧ Worder.getD t 0 = md5Index t ∧
    Rorder.getD t 0 = md5Shift t ∧ Korder.getD t 0 = md5Const t := by decide

/-- The lower bits of the variables. -/
def PsRegs.low (r : PsRegs v) : Md5State :=
  ⟨r.a.setWidth 32, r.b.setWidth 32, r.c.setWidth 32, r.d.setWidth 32⟩

theorem psTurn_round (hv : 32 ≤ v) (W : ℕ → BitVec v) {t : ℕ} (ht : t < 64) (r : PsRegs v) :
    (psTurn W r t).low = md5Round (fun i => (W i).setWidth 32) r.low t := by
  obtain ⟨hloop, hw, hr, hk⟩ := tables_eq t ht
  unfold psTurn md5Round PsRegs.low
  rw [hw, hr, hk, psAssign_low hv _ _ _ _ _ _ (md5Shift_lt t ht), hloop, setWidth_low hv, BitVec.add_comm]

theorem psTurn_foldl (hv : 32 ≤ v) (W : ℕ → BitVec v) (r : PsRegs v) (n : ℕ) (hn : n ≤ 64) :
    ((List.range n).foldl (psTurn W) r).low
      = (List.range n).foldl (md5Round fun i => (W i).setWidth 32) r.low := by
  induction n with
  | zero => rfl
  | succ n ih =>
      rw [List.range_succ, List.foldl_append, List.foldl_append, ← ih (by omega)]
      exact psTurn_round hv W hn _

/-- **Small code** does the same to every state, whatever the width of `unsigned long`. -/
theorem md5_compress_small_eq (v : ℕ) (hv : 32 ≤ v) (state : Md5State) (buf : Bytes) :
    md5_compress_small v state buf = md5_compress v state buf := by
  have hrounds := psTurn_foldl hv (fun i => LOAD32L v buf (4 * i))
    ⟨state.a.setWidth v, state.b.setWidth v, state.c.setWidth v, state.d.setWidth v⟩ 64 le_rfl
  have hword : (fun i => (LOAD32L v buf (4 * i)).setWidth 32) = md5Word buf :=
    funext fun i => LOAD32L_low hv buf i
  have hlow : (⟨state.a.setWidth v, state.b.setWidth v, state.c.setWidth v, state.d.setWidth v⟩ : PsRegs v).low
      = state := by
    ext1
    all_goals exact setWidth_low hv _
  rw [hword, hlow] at hrounds
  rw [md5_compress_eq hv]
  exact (psAdd_eq hv _ _ _ _ _).trans (congrArg state.add hrounds)

/-- A block with sixteen different words. -/
theorem md5_compress_small_eq_counting :
    md5_compress_small 64 md5Init ((List.range 64).map UInt8.ofNat) =
      md5_compress 64 md5Init ((List.range 64).map UInt8.ofNat) :=
  md5_compress_small_eq 64 (by norm_num) md5Init ((List.range 64).map UInt8.ofNat)

/-! ## `MD5Transform` -/

/-- The group of rounds that a function is for. -/
def JrdFn.index : JrdFn → ℕ
  | .F1 => 0
  | .F2 => 1
  | .F3 => 2
  | .F4 => 3

theorem JrdFn.fn_eq (f : JrdFn) (x y z : BitVec 32) : f.fn x y z = md5Fn f.index x y z := by
  cases f with
  | F1 => exact xor_and_xor x y z
  | F2 =>
      refine (xor_and_xor z x y).trans ?_
      exact congrArg₂ _ (BitVec.and_comm _ _) (BitVec.and_comm _ _)
  | F3 => rfl
  | F4 => rfl

theorem jrdLine_round (words : ℕ → BitVec 32) {t : ℕ} (ht : t < 64) (r : Md5Var → BitVec 32) :
    roles (t + 1) (jrdLine words r (roundLine [.F1, .F2, .F3, .F4] .F4 t)) = md5Round words (roles t r) t := by
  have hindex : ∀ t < 64, (([.F1, .F2, .F3, .F4] : List JrdFn).getD (t / 16) .F4).index = t / 16 := by
    decide
  refine roles_update ?_
  rw [BitVec.setWidth_eq]
  unfold MD5STEP roles md5Round roundLine
  dsimp only
  rw [JrdFn.fn_eq, hindex t ht, ← rotateLeft_eq_or _ (md5Shift_lt t ht), BitVec.add_comm]
  simp only [BitVec.setWidth_eq, BitVec.add_assoc]

/-- What `MD5Transform` does to the state. -/
theorem MD5Transform_eq (buf : Md5State) (words : ℕ → BitVec 32) :
    MD5Transform buf words = md5Rounds words buf := by
  have hrounds := roles_foldl (jrdLine words) [.F1, .F2, .F3, .F4] .F4 words
    (fun t ht r => jrdLine_round words ht r) (md5Vars 32 buf) 64 le_rfl
  rw [← jrdLines_eq, roles_md5Vars le_rfl] at hrounds
  unfold MD5Transform md5Rounds
  rw [← hrounds]
  unfold roles Md5State.add
  simp only [BitVec.setWidth_eq]
  rfl

/-! ## Buffers -/

/-- A buffer of 64 bytes that begins with `p`. -/
def Begins (buf p : Bytes) : Prop := buf.length = 64 ∧ buf.take p.length = p

theorem Begins.length_le {buf p : Bytes} (h : Begins buf p) : p.length ≤ 64 := by
  rw [← h.1, ← h.2, List.length_take]
  exact Nat.min_le_right _ _

theorem Begins.eq {buf p : Bytes} (h : Begins buf p) (hp : p.length = 64) : buf = p := by
  rw [← h.2, hp, ← h.1, List.take_length]

/-- A copy right behind. -/
theorem Begins.write {buf p b : Bytes} (h : Begins buf p) {i : ℕ} (hi : p.length = i)
    (hb : i + b.length ≤ 64) : Begins (writeAt buf i b) (p ++ b) := by
  obtain ⟨hsize, htake⟩ := h
  refine ⟨(writeAt_length (by omega)).trans hsize, ?_⟩
  have hwrite := take_writeAt (by omega : i ≤ buf.length) b
  rw [List.length_append, hi, hwrite, ← hi, htake]

theorem Begins.zeros {buf p : Bytes} (h : Begins buf p) {k i : ℕ} (hi : p.length = i) (hk : i + k ≤ 64) :
    Begins (zeroFrom k i buf) (p ++ List.replicate k 0) := by
  induction k generalizing buf p i with
  | zero => rwa [List.replicate_zero, List.append_nil]
  | succ k ih =>
      have hone := h.write (b := [0]) hi (by rw [List.length_singleton]; omega)
      have hrest := ih hone (by rw [List.length_append, List.length_singleton, hi]) (by omega)
      rwa [List.append_assoc, List.singleton_append, ← List.replicate_succ] at hrest

/-- Adding to a number of 64 bits in two words. -/
theorem carry {lo hi k : ℕ} (hlo : lo < 2 ^ 32) (hhi : hi < 2 ^ 32) (hk : k < 2 ^ 32) :
    (if (lo + k) % 2 ^ 32 < lo then (hi + 1) % 2 ^ 32 else hi) * 2 ^ 32 + (lo + k) % 2 ^ 32
      = (hi * 2 ^ 32 + lo + k) % 2 ^ 64 := by
  split_ifs with hless
  · omega
  · omega

theorem carry_high {lo : ℕ} (hlo : lo < 2 ^ 32) (hi k : ℕ) :
    (hi + k) % 2 ^ 32 * 2 ^ 32 + lo = (hi * 2 ^ 32 + lo + k * 2 ^ 32) % 2 ^ 64 := by
  omega

theorem STORE32L_eq (x : ℕ) : STORE32L x = leBytes 4 x := by
  have hbyte : ∀ m, UInt8.ofNat (m &&& 255) = UInt8.ofNat m := by
    intro m
    apply UInt8.toNat_inj.mp
    rw [UInt8.toNat_ofNat', UInt8.toNat_ofNat', show (255 : ℕ) = 2 ^ 8 - 1 by norm_num,
      Nat.and_two_pow_sub_one_eq_mod, Nat.mod_mod]
  unfold STORE32L
  rw [hbyte, hbyte, hbyte, hbyte, Nat.shiftRight_eq_div_pow, Nat.shiftRight_eq_div_pow,
    Nat.shiftRight_eq_div_pow]
  simp only [leBytes, Nat.div_div_eq_div_mul, Nat.reducePow, Nat.reduceMul]

/-- The count of the bits in two words. -/
theorem leBytes_count {lo hi len : ℕ} (hlo : lo < 2 ^ 32) (h : hi * 2 ^ 32 + lo = 8 * len % 2 ^ 64) :
    leBytes 4 lo ++ leBytes 4 hi = leBytes 8 (8 * len) := by
  have hmod := leBytes_mod 8 (8 * len)
  rw [show 256 ^ 8 = 2 ^ 64 by norm_num, ← h, show 8 = 4 + 4 by norm_num, leBytes_append] at hmod
  have hlow : leBytes 4 (hi * 2 ^ 32 + lo) = leBytes 4 lo := by
    rw [← leBytes_mod 4 (hi * 2 ^ 32 + lo), ← leBytes_mod 4 lo]
    congr 1
    omega
  have hhigh : (hi * 2 ^ 32 + lo) / 256 ^ 4 = hi := by omega
  rw [hlow, hhigh] at hmod
  exact hmod

/-- The end of a message, when so many bytes wait: the padding fits in their block. -/
theorem absorb_pad_one {p : Md5State × Bytes} {len : ℕ} (hp : p.2.length = len % 64) (hc : len % 64 < 56) :
    (absorb 64 md5Compress p (md5Pad len)).1
      = md5Compress p.1
          (p.2 ++ [0x80] ++ List.replicate (56 - (len % 64 + 1)) 0 ++ leBytes 8 (8 * len)) := by
  have hzeros : (119 - len % 64) % 64 = 56 - (len % 64 + 1) := by omega
  have hfull : absorb 64 md5Compress p (md5Pad len) = (md5Compress p.1 (p.2 ++ md5Pad len), []) := by
    refine absorb_full (by omega) ?_
    unfold md5Pad
    rw [List.length_cons, List.length_append, List.length_replicate, leBytes_length]
    omega
  rw [hfull]
  unfold md5Pad
  rw [hzeros]
  simp only [List.append_assoc, List.cons_append, List.nil_append]

/-- The end of a message, when so many bytes wait: the padding does not fit in their block. -/
theorem absorb_pad_two {p : Md5State × Bytes} {len : ℕ} (hp : p.2.length = len % 64) (hc : 56 ≤ len % 64) :
    (absorb 64 md5Compress p (md5Pad len)).1
      = md5Compress (md5Compress p.1 (p.2 ++ [0x80] ++ List.replicate (64 - (len % 64 + 1)) 0))
          (List.replicate 56 0 ++ leBytes 8 (8 * len)) := by
  have hlt : len % 64 < 64 := Nat.mod_lt _ (by norm_num)
  have hpad : md5Pad len = ([0x80] ++ List.replicate (64 - (len % 64 + 1)) 0) ++
      (List.replicate 56 0 ++ leBytes 8 (8 * len)) := by
    unfold md5Pad
    rw [show (119 - len % 64) % 64 = 64 - (len % 64 + 1) + 56 by omega, List.replicate_add]
    simp only [List.append_assoc, List.cons_append, List.nil_append]
  have hfirst : absorb 64 md5Compress p ([0x80] ++ List.replicate (64 - (len % 64 + 1)) 0)
      = (md5Compress p.1 (p.2 ++ ([0x80] ++ List.replicate (64 - (len % 64 + 1)) 0)), []) := by
    refine absorb_full (by omega) ?_
    rw [List.length_append, List.length_singleton, List.length_replicate]
    omega
  rw [hpad, absorb_append, hfirst, absorb_full (by norm_num), List.append_assoc]
  · rfl
  · rw [List.length_append, List.length_replicate, leBytes_length]
    rfl

/-! ## The digest by `md5c.c` -/

/-- The context after a message. -/
structure PsMd5.Has (md : PsMd5) (msg : Bytes) : Prop where
  taken : absorb 64 md5Compress (md5Init, []) msg = (md.state, md.buf.take md.curlen)
  lo_lt : md.lengthLo < 2 ^ 32
  hi_lt : md.lengthHi < 2 ^ 32
  count : md.lengthHi * 2 ^ 32 + md.lengthLo = 8 * (msg.length - md.curlen) % 2 ^ 64

theorem PsMd5.waiting_length (md : PsMd5) : (md.buf.take md.curlen).length = md.curlen := by
  have hsize := md.buf_size
  have hlt := md.curlen_lt
  exact List.length_take_of_le (by omega)

theorem PsMd5.Has.curlen_eq {md : PsMd5} {msg : Bytes} (h : md.Has msg) : md.curlen = msg.length % 64 := by
  have hstart : (md5Init, ([] : Bytes)).2.length < 64 := by norm_num
  have hrest : (absorb 64 md5Compress (md5Init, []) msg).2.length = (0 + msg.length) % 64 :=
    absorb_rest_length hstart msg
  rw [h.taken, md.waiting_length, Nat.zero_add] at hrest
  exact hrest

theorem psMd5Init_has (md : PsMd5) : (psMd5Init md).Has [] where
  taken := rfl
  lo_lt := by norm_num [psMd5Init]
  hi_lt := by norm_num [psMd5Init]
  count := by norm_num [psMd5Init]

theorem PsMd5.begins (md : PsMd5) : Begins md.buf (md.buf.take md.curlen) :=
  ⟨md.buf_size, by rw [md.waiting_length]⟩

theorem PsMd5.Has.copy {md : PsMd5} {msg : Bytes} (h : md.Has msg) {p : Bytes}
    (hp : md.curlen + p.length < 64) : (md.copy p hp).Has (msg ++ p) where
  taken := by
    have hwrite := take_writeAt (by rw [md.buf_size]; omega : md.curlen ≤ md.buf.length) p
    rw [absorb_append, h.taken, absorb_short (by rw [md.waiting_length]; exact hp), ← hwrite]
    rfl
  lo_lt := h.lo_lt
  hi_lt := h.hi_lt
  count := by
    rw [List.length_append]
    change _ = 8 * (msg.length + p.length - (md.curlen + p.length)) % 2 ^ 64
    rw [Nat.add_sub_add_right]
    exact h.count

theorem PsMd5.Has.fill (hv : 32 ≤ v) {md : PsMd5} {msg : Bytes} (h : md.Has msg) {p : Bytes}
    (hp : md.curlen + p.length = 64) : (md.fill v p hp).Has (msg ++ p) where
  taken := by
    have hwrite : writeAt md.buf md.curlen p = md.buf.take md.curlen ++ p :=
      (md.begins.write md.waiting_length hp.le).eq (by rw [List.length_append, md.waiting_length, hp])
    rw [absorb_append, h.taken, absorb_full (by rw [md.waiting_length]; exact md.curlen_lt)
      (by rw [md.waiting_length]; exact hp), ← hwrite, ← md5_compress_eq hv]
    rfl
  lo_lt := Nat.mod_lt _ (by norm_num)
  hi_lt := by
    have hhi := h.hi_lt
    unfold PsMd5.fill
    dsimp only
    split_ifs
    · exact Nat.mod_lt _ (by norm_num)
    · exact hhi
  count := by
    have hcount := h.count
    have hcur := h.curlen_eq
    refine (carry h.lo_lt h.hi_lt (by norm_num)).trans ?_
    rw [List.length_append]
    change _ = 8 * (msg.length + p.length - 0) % 2 ^ 64
    omega

/-- **A piece of the message.** -/
theorem PsMd5.Has.update (hv : 32 ≤ v) {md : PsMd5} {msg : Bytes} (h : md.Has msg) (buf : Bytes) :
    (psMd5Update v md buf).Has (msg ++ buf) := by
  induction md, buf using psMd5Update.induct v generalizing msg with
  | case1 md =>
      rw [psMd5Update.eq_def, dif_pos rfl, List.append_nil]
      exact h
  | case2 md buf hbuf n hn hlt hfull =>
      rename_i ih
      have hrest := ih (h.fill hv (by rw [hn]; exact hfull))
      rw [List.append_assoc, List.take_append_drop] at hrest
      rw [psMd5Update.eq_def, dif_neg hbuf]
      dsimp only
      rw [dif_pos hfull]
      exact hrest
  | case3 md buf hbuf n hn hlt hfull =>
      rename_i ih
      have hroom : md.curlen + (buf.take n).length < 64 := by omega
      have hrest := ih (h.copy hroom)
      rw [List.append_assoc, List.take_append_drop] at hrest
      rw [psMd5Update.eq_def, dif_neg hbuf]
      dsimp only
      rw [dif_neg hfull]
      exact hrest

theorem md5_toBytes (s : Md5State) :
    STORE32L s.a.toNat ++ STORE32L s.b.toNat ++ STORE32L s.c.toNat ++ STORE32L s.d.toNat = s.toBytes := by
  rw [STORE32L_eq, STORE32L_eq, STORE32L_eq, STORE32L_eq]
  rfl

theorem PsMd5.Has.bits {md : PsMd5} {msg : Bytes} (h : md.Has msg) :
    STORE32L md.bits.1 ++ STORE32L md.bits.2 = leBytes 8 (8 * msg.length) := by
  have hcur := h.curlen_eq
  have hlt := md.curlen_lt
  have hhi : md.curlen >>> 29 = 0 := by
    rw [Nat.shiftRight_eq_div_pow]
    exact Nat.div_eq_of_lt (by omega)
  have hcarry := carry h.lo_lt h.hi_lt (k := md.curlen <<< 3) (by rw [Nat.shiftLeft_eq]; omega)
  have hnext : (if (md.lengthLo + md.curlen <<< 3) % 2 ^ 32 < md.lengthLo then (md.lengthHi + 1) % 2 ^ 32
      else md.lengthHi) < 2 ^ 32 := by
    split_ifs
    · exact Nat.mod_lt _ (by norm_num)
    · exact h.hi_lt
  unfold PsMd5.bits
  dsimp only
  rw [hhi, Nat.add_zero, Nat.mod_eq_of_lt hnext, STORE32L_eq, STORE32L_eq]
  refine leBytes_count (Nat.mod_lt _ (by norm_num)) (hcarry.trans ?_)
  have hcount := h.count
  rw [Nat.shiftLeft_eq]
  omega

/-- In both cases there is room for the length, and what comes behind the message is begun. -/
theorem PsMd5.Has.mark (hv : 32 ≤ v) {md : PsMd5} {msg : Bytes} (h : md.Has msg) :
    ∃ p : Bytes, Begins (md.mark v).2.1 p ∧ p.length = (md.mark v).2.2 ∧ (md.mark v).2.2 ≤ 56 ∧
      (absorb 64 md5Compress (md.state, md.buf.take md.curlen) (md5Pad msg.length)).1
        = md5Compress (md.mark v).1
            (p ++ List.replicate (56 - (md.mark v).2.2) 0 ++ leBytes 8 (8 * msg.length)) := by
  have hcur := h.curlen_eq
  have hlt := md.curlen_lt
  have hwait : (md.buf.take md.curlen).length = msg.length % 64 := md.waiting_length.trans hcur
  have hone := md.begins.write (b := [0x80]) md.waiting_length (by rw [List.length_singleton]; omega)
  have hlen : (md.buf.take md.curlen ++ [0x80]).length = md.curlen + 1 := by
    rw [List.length_append, md.waiting_length, List.length_singleton]
  unfold PsMd5.mark
  dsimp only
  by_cases hroom : md.curlen + 1 > 56
  · have hblock := hone.zeros (k := 64 - (md.curlen + 1)) hlen (by omega)
    have hfull := hblock.eq (by rw [List.length_append, hlen, List.length_replicate]; omega)
    rw [if_pos hroom]
    refine ⟨[], ⟨hblock.1, rfl⟩, rfl, by norm_num, ?_⟩
    dsimp only
    rw [absorb_pad_two hwait (by omega), hfull, md5_compress_eq hv, hcur]
    rfl
  · rw [if_neg hroom]
    refine ⟨_, hone, hlen, Nat.le_of_not_lt hroom, ?_⟩
    dsimp only
    rw [absorb_pad_one hwait (by omega), hcur]

/-- **The end of the message.** -/
theorem PsMd5.Has.final (hv : 32 ≤ v) {md : PsMd5} {msg : Bytes} (h : md.Has msg) :
    psMd5Final v md = md5 msg := by
  obtain ⟨p, hbegins, hp, hroom, habsorb⟩ := h.mark hv
  have hzeros := hbegins.zeros (k := 56 - (md.mark v).2.2) hp (by omega)
  have hlen : (p ++ List.replicate (56 - (md.mark v).2.2) 0).length = 56 := by
    rw [List.length_append, List.length_replicate]
    omega
  have hlo := hzeros.write (b := STORE32L md.bits.1) hlen (by norm_num [STORE32L])
  have hlast := (hlo.write (b := STORE32L md.bits.2) (i := 60) (by rw [List.length_append, hlen]; rfl)
    (by norm_num [STORE32L])).eq (by rw [List.length_append, List.length_append, hlen]; rfl)
  rw [List.append_assoc, h.bits] at hlast
  unfold psMd5Final
  dsimp only
  rw [md5_toBytes, md5_compress_eq hv, hlast, md5_eq_absorb, h.taken, habsorb]

/-- A property of the context after a message is kept by each piece. -/
theorem foldl_pieces {σ : Type} (update : σ → Bytes → σ) (Has : σ → Bytes → Prop)
    (hstep : ∀ ctx msg p, Has ctx msg → Has (update ctx p) (msg ++ p)) {ctx : σ} {msg : Bytes} (h : Has ctx msg)
    (pieces : List Bytes) : Has (pieces.foldl update ctx) (msg ++ pieces.flatten) := by
  induction pieces generalizing ctx msg with
  | nil =>
      rw [List.flatten_nil, List.append_nil]
      exact h
  | cons p pieces ih =>
      rw [List.flatten_cons, ← List.append_assoc]
      exact ih (hstep ctx msg p h)

/-- **`md5c.c` gives the digest** of the message, in whatever pieces it comes and whatever the width of
`unsigned long`. -/
theorem psMd5_digest (v : ℕ) (hv : 32 ≤ v) (md : PsMd5) (pieces : List Bytes) :
    psMd5Final v (pieces.foldl (psMd5Update v) (psMd5Init md)) = md5 pieces.flatten :=
  (foldl_pieces (psMd5Update v) PsMd5.Has (fun _ _ p h => h.update hv p) (psMd5Init_has md) pieces).final hv

/-- A message in two pieces, with an `unsigned long` of 64 bits. -/
theorem psMd5_digest_abc :
    psMd5Final 64 (([bytes "a", bytes "bc"] : List Bytes).foldl (psMd5Update 64)
        (psMd5Init ⟨0, 0, md5Init, 0, List.replicate 64 0, List.length_replicate, by norm_num⟩))
      = [0x90, 0x01, 0x50, 0x98, 0x3c, 0xd2, 0x4f, 0xb0, 0xd6, 0x96, 0x3f, 0x7d, 0x28, 0xe1, 0x7f, 0x72] :=
  (psMd5_digest 64 (by norm_num) ⟨0, 0, md5Init, 0, List.replicate 64 0, List.length_replicate, by norm_num⟩
    [bytes "a", bytes "bc"]).trans (by decide +kernel)

/-! ## The digest by `jrd_md5.c` -/

theorem MD5Context.transform_buf (ctx : MD5Context) : ctx.transform.buf = md5Compress ctx.buf ctx.inb :=
  MD5Transform_eq ctx.buf (md5Word ctx.inb)

/-- The blocks of a piece are taken in, and the rest is in the buffer. -/
theorem MD5Blocks_spec (ctx : MD5Context) (data : Bytes) :
    absorb 64 md5Compress (ctx.buf, []) data
        = ((MD5Blocks ctx data).buf, (MD5Blocks ctx data).inb.take (data.length % 64)) ∧
      (MD5Blocks ctx data).bits0 = ctx.bits0 ∧ (MD5Blocks ctx data).bits1 = ctx.bits1 := by
  induction ctx, data using MD5Blocks.induct with
  | case1 ctx data h ih =>
      have htake : (data.take 64).length = 64 := List.length_take_of_le h
      have hfirst : absorb 64 md5Compress (ctx.buf, []) (data.take 64)
          = (md5Compress ctx.buf (data.take 64), []) := absorb_full (by norm_num) (by rw [htake]; rfl)
      have hcopy : (ctx.copy 0 (data.take 64) (by omega)).transform.buf
          = md5Compress ctx.buf (data.take 64) := by
        rw [MD5Context.transform_buf]
        change md5Compress ctx.buf (writeAt ctx.inb 0 (data.take 64)) = _
        rw [writeAt_zero, htake, ← ctx.inb_size, List.drop_length, List.append_nil]
      have hlen : (data.drop 64).length % 64 = data.length % 64 := by
        rw [List.length_drop]
        omega
      obtain ⟨habsorb, hbits0, hbits1⟩ := ih
      rw [hcopy, hlen] at habsorb
      rw [MD5Context.transform_bits0, MD5Context.copy_bits0] at hbits0
      rw [MD5Context.transform_bits1, MD5Context.copy_bits1] at hbits1
      rw [MD5Blocks.eq_def, dif_pos h]
      refine ⟨?_, hbits0, hbits1⟩
      conv_lhs => rw [← List.take_append_drop 64 data]
      rw [absorb_append, hfirst, habsorb]
  | case2 ctx data h =>
      rw [MD5Blocks.eq_def, dif_neg h, absorb_short (by rw [List.length_nil]; omega), List.nil_append,
        Nat.mod_eq_of_lt (by omega)]
      refine ⟨?_, rfl, rfl⟩
      change _ = (ctx.buf, (writeAt ctx.inb 0 data).take data.length)
      rw [writeAt_zero, List.take_left]

/-- The context after a message. -/
structure MD5Context.Has (ctx : MD5Context) (msg : Bytes) : Prop where
  taken : absorb 64 md5Compress (md5Init, []) msg = (ctx.buf, ctx.inb.take (msg.length % 64))
  lo_lt : ctx.bits0 < 2 ^ 32
  hi_lt : ctx.bits1 < 2 ^ 32
  count : ctx.bits1 * 2 ^ 32 + ctx.bits0 = 8 * msg.length % 2 ^ 64

theorem MD5Init_has (ctx : MD5Context) : (MD5Init ctx).Has [] where
  taken := rfl
  lo_lt := by norm_num [MD5Init]
  hi_lt := by norm_num [MD5Init]
  count := by norm_num [MD5Init]

theorem MD5Context.Has.waiting {ctx : MD5Context} {msg : Bytes} (h : ctx.Has msg) :
    ctx.bits0 >>> 3 % 64 = msg.length % 64 := by
  have hcount := h.count
  have hlo := h.lo_lt
  rw [Nat.shiftRight_eq_div_pow]
  omega

/-- The context with the bits of a piece counted. -/
theorem MD5Context.Has.counted {ctx : MD5Context} {msg : Bytes} (h : ctx.Has msg) (data : Bytes) :
    (ctx.counted data.length).bits0 < 2 ^ 32 ∧ (ctx.counted data.length).bits1 < 2 ^ 32 ∧
      (ctx.counted data.length).bits1 * 2 ^ 32 + (ctx.counted data.length).bits0
        = 8 * (msg ++ data).length % 2 ^ 64 := by
  have hcarry := carry h.lo_lt h.hi_lt (k := data.length <<< 3 % 2 ^ 32) (Nat.mod_lt _ (by norm_num))
  have hlow : (ctx.bits0 + data.length <<< 3 % 2 ^ 32) % 2 ^ 32 < 2 ^ 32 := Nat.mod_lt _ (by norm_num)
  have hparts : data.length <<< 3 % 2 ^ 32 + data.length >>> 29 * 2 ^ 32 = 8 * data.length := by
    rw [Nat.shiftLeft_eq, Nat.shiftRight_eq_div_pow]
    omega
  refine ⟨hlow, Nat.mod_lt _ (by norm_num), ?_⟩
  unfold MD5Context.counted
  dsimp only
  rw [carry_high hlow, hcarry, Nat.mod_add_mod, Nat.add_assoc, hparts, h.count, Nat.mod_add_mod,
    List.length_append, Nat.mul_add]

theorem MD5Context.begins (ctx : MD5Context) (len : ℕ) :
    (ctx.inb.take (len % 64)).length = len % 64 ∧ Begins ctx.inb (ctx.inb.take (len % 64)) := by
  have hlt : len % 64 < 64 := Nat.mod_lt _ (by norm_num)
  have hwait : (ctx.inb.take (len % 64)).length = len % 64 :=
    List.length_take_of_le (by rw [ctx.inb_size]; exact hlt.le)
  exact ⟨hwait, ctx.inb_size, by rw [hwait]⟩

/-- **A piece of the message.** -/
theorem MD5Context.Has.update {ctx : MD5Context} {msg : Bytes} (h : ctx.Has msg) (data : Bytes) :
    (MD5Update ctx data).Has (msg ++ data) := by
  obtain ⟨hlo, hhi, hcount⟩ := h.counted data
  obtain ⟨hwait, hbegins⟩ := ctx.begins msg.length
  have htotal : (msg ++ data).length = msg.length + data.length := List.length_append
  have hbuf : (ctx.counted data.length).buf = ctx.buf ∧ (ctx.counted data.length).inb = ctx.inb := ⟨rfl, rfl⟩
  unfold MD5Update
  dsimp only
  by_cases ht : ctx.bits0 >>> 3 % 64 ≠ 0
  · rw [if_pos ht]
    by_cases hshort : data.length < 64 - ctx.bits0 >>> 3 % 64
    · -- the block is not full yet
      have hplace : (msg ++ data).length % 64 = msg.length % 64 + data.length := by
        rw [h.waiting] at hshort
        omega
      rw [dif_pos hshort]
      refine ⟨?_, hlo, hhi, hcount⟩
      rw [absorb_append, h.taken, absorb_short (by rw [hwait]; rw [h.waiting] at hshort; omega), hplace]
      have hwrite := take_writeAt (by rw [ctx.inb_size]; omega : msg.length % 64 ≤ ctx.inb.length) data
      rw [← hwrite, ← h.waiting]
      rfl
    · have hfill : (data.take (64 - ctx.bits0 >>> 3 % 64)).length = 64 - msg.length % 64 := by
        rw [List.length_take, h.waiting]
        rw [h.waiting] at hshort
        omega
      have hroom : ctx.bits0 >>> 3 % 64 + (data.take (64 - ctx.bits0 >>> 3 % 64)).length ≤ 64 := by
        rw [hfill, h.waiting]
        omega
      have hfirst : absorb 64 md5Compress (ctx.buf, ctx.inb.take (msg.length % 64))
          (data.take (64 - ctx.bits0 >>> 3 % 64))
          = (((ctx.counted data.length).copy _ _ hroom).transform.buf, []) := by
        have hblock := (hbegins.write (b := data.take (64 - ctx.bits0 >>> 3 % 64)) hwait
          (by rw [hfill]; omega)).eq (by rw [List.length_append, hwait, hfill]; omega)
        rw [absorb_full (by rw [hwait]; omega) (by rw [hwait, hfill]; omega), ← hblock,
          MD5Context.transform_buf]
        change _ = (md5Compress ctx.buf (writeAt ctx.inb (ctx.bits0 >>> 3 % 64) _), [])
        rw [h.waiting]
      obtain ⟨habsorb, hbits0, hbits1⟩ := MD5Blocks_spec ((ctx.counted data.length).copy _ _ hroom).transform
        (data.drop (64 - ctx.bits0 >>> 3 % 64))
      rw [MD5Context.transform_bits0, MD5Context.copy_bits0] at hbits0
      rw [MD5Context.transform_bits1, MD5Context.copy_bits1] at hbits1
      have hplace : (msg ++ data).length % 64 = (data.drop (64 - ctx.bits0 >>> 3 % 64)).length % 64 := by
        rw [htotal, List.length_drop, h.waiting]
        rw [h.waiting] at hshort
        omega
      rw [dif_neg hshort]
      refine ⟨?_, hbits0 ▸ hlo, hbits1 ▸ hhi, by rw [hbits0, hbits1]; exact hcount⟩
      rw [absorb_append, h.taken, hplace, ← habsorb, ← hfirst, ← absorb_append, List.take_append_drop]
  · -- the buffer is empty
    rw [if_neg ht]
    have hempty : msg.length % 64 = 0 := by
      rw [← h.waiting]
      exact not_not.mp ht
    obtain ⟨habsorb, hbits0, hbits1⟩ := MD5Blocks_spec (ctx.counted data.length) data
    refine ⟨?_, hbits0 ▸ hlo, hbits1 ▸ hhi, by rw [hbits0, hbits1]; exact hcount⟩
    have hplace : (msg ++ data).length % 64 = data.length % 64 := by omega
    rw [absorb_append, h.taken, hempty, List.take_zero, ← hbuf.1, habsorb, hplace]

/-- The last block has the length in place of its last two words. -/
theorem MD5Transform_last {buf : Md5State} {inb p : Bytes} (hinb : Begins inb p) (hp : p.length = 56)
    (lo hi : ℕ) :
    MD5Transform buf (fun i => if i = 14 then BitVec.ofNat 32 lo else if i = 15 then BitVec.ofNat 32 hi
        else md5Word inb i)
      = md5Compress buf (p ++ (leBytes 4 lo ++ leBytes 4 hi)) := by
  rw [MD5Transform_eq]
  refine md5Rounds_congr (fun i hi' => ?_) buf
  split_ifs with h14 h15
  · rw [h14]
    exact (md5Word_leBytes lo _).symm.trans (md5Word_append_right _ (i := 14) hp 0).symm
  · have hlo : (p ++ leBytes 4 lo).length = 4 * 15 := by
      rw [List.length_append, hp, leBytes_length]
    have hhi : md5Word (leBytes 4 hi) 0 = BitVec.ofNat 32 hi := by
      rw [← md5Word_leBytes hi [], List.append_nil]
    rw [h15, ← List.append_assoc, ← hhi]
    exact (md5Word_append_right _ hlo 0).symm
  · have hsplit : inb = p ++ inb.drop 56 := by
      conv_lhs => rw [← List.take_append_drop 56 inb]
      rw [← hp, hinb.2]
    rw [hsplit, md5Word_append_left _ (by omega), md5Word_append_left _ (by omega)]

/-- **The end of the message.** -/
theorem MD5Context.Has.final {ctx : MD5Context} {msg : Bytes} (h : ctx.Has msg) : MD5Final ctx = md5 msg := by
  obtain ⟨hwait, hbegins⟩ := ctx.begins msg.length
  have hlt : msg.length % 64 < 64 := Nat.mod_lt _ (by norm_num)
  have hbits := leBytes_count h.lo_lt h.count
  have hone := hbegins.write (b := [0x80]) hwait (by rw [List.length_singleton]; omega)
  have hlen : (ctx.inb.take (msg.length % 64) ++ [0x80]).length = msg.length % 64 + 1 := by
    rw [List.length_append, hwait, List.length_singleton]
  unfold MD5Final
  dsimp only
  rw [h.waiting, md5_eq_absorb, h.taken]
  by_cases hroom : 64 - 1 - msg.length % 64 < 8
  · have hblock := hone.write (b := List.replicate (64 - 1 - msg.length % 64) 0) hlen
      (by rw [List.length_replicate]; omega)
    have hfull := hblock.eq (by rw [List.length_append, hlen, List.length_replicate]; omega)
    have hempty : Begins (writeAt (writeAt ctx.inb (msg.length % 64) [0x80]) (msg.length % 64 + 1)
        (List.replicate (64 - 1 - msg.length % 64) 0)) [] := ⟨hblock.1, rfl⟩
    have hzeros := hempty.write (b := List.replicate 56 0) (i := 0) rfl
      (by rw [List.length_replicate]; norm_num)
    rw [if_pos hroom]
    dsimp only
    rw [MD5Transform_last hzeros (by rw [List.nil_append, List.length_replicate]), MD5Transform_eq,
      absorb_pad_two hwait (by omega), hfull, hbits,
      show 64 - 1 - msg.length % 64 = 64 - (msg.length % 64 + 1) by omega]
    rfl
  · have hzeros := hone.write (b := List.replicate (64 - 1 - msg.length % 64 - 8) 0) hlen
      (by rw [List.length_replicate]; omega)
    rw [if_neg hroom]
    dsimp only
    rw [MD5Transform_last hzeros (by rw [List.length_append, hlen, List.length_replicate]; omega), hbits,
      absorb_pad_one hwait (by omega),
      show 64 - 1 - msg.length % 64 - 8 = 56 - (msg.length % 64 + 1) by omega]

/-- **`jrd_md5.c` gives the digest** of the message, in whatever pieces it comes. -/
theorem MD5_digest (ctx : MD5Context) (pieces : List Bytes) :
    MD5Final (pieces.foldl MD5Update (MD5Init ctx)) = md5 pieces.flatten :=
  (foldl_pieces MD5Update MD5Context.Has (fun _ _ p h => h.update p) (MD5Init_has ctx) pieces).final

/-! ## Digests as text -/

/-- A byte as `websMD5binary` writes it. -/
def hexPair (b : UInt8) : Bytes :=
  let hex := bytes "0123456789abcdef"
  [hex.getD (b >>> 4).toNat 0, hex.getD (b &&& 0xF).toNat 0]

/-- `websMD5binary`, with memory for the context. -/
def websMD5binary (v : ℕ) (md5ctx : PsMd5) (buf : Bytes) : Bytes :=
  (psMd5Final v (psMd5Update v (psMd5Init md5ctx) buf)).flatMap hexPair

/-- `websMD5`: `NULL` for the empty string. -/
def websMD5 (v : ℕ) (md5ctx : PsMd5) (string : Bytes) : Option Bytes :=
  if string ≠ [] then some (websMD5binary v md5ctx string) else none

/-- `%02x`. -/
def format02x (b : UInt8) : Bytes :=
  let digits := (Nat.toDigits 16 b.toNat).map fun c => UInt8.ofNat c.toNat
  List.replicate (2 - digits.length) 0x30 ++ digits

/-- `compute_md5`, with memory for the context: the string `md5_str`. -/
def compute_md5 (md5 : MD5Context) (source_stri : Bytes) : Bytes :=
  (MD5Final (MD5Update (MD5Init md5) source_stri)).flatMap format02x

theorem format02x_eq (b : UInt8) : format02x b = hexPair b := by
  have hall : ∀ n < 256, format02x (UInt8.ofNat n) = hexPair (UInt8.ofNat n) := by decide +kernel
  have hb := hall b.toNat b.toNat_lt
  rwa [UInt8.ofNat_toNat] at hb

/-- **The two texts** are the same, but for the empty string, of which `websMD5` makes none. -/
theorem websMD5_eq_compute_md5 (v : ℕ) (hv : 32 ≤ v) (md5ctx : PsMd5) (ctx : MD5Context) (string : Bytes) :
    websMD5 v md5ctx string = if string = [] then none else some (compute_md5 ctx string) := by
  have hps := ((psMd5Init_has md5ctx).update hv string).final hv
  have hjrd := ((MD5Init_has ctx).update string).final
  rw [List.nil_append] at hps hjrd
  have htext : (md5 string).flatMap format02x = (md5 string).flatMap hexPair :=
    List.flatMap_congr fun b _ => format02x_eq b
  unfold websMD5 websMD5binary compute_md5
  rw [hps, hjrd, ite_not, htext]

/-- The text for a short string, with an `unsigned long` of 32 bits. -/
theorem websMD5_eq_compute_md5_abc :
    websMD5 32 ⟨0, 0, md5Init, 0, List.replicate 64 0, List.length_replicate, by norm_num⟩ (bytes "abc")
      = some (compute_md5 ⟨md5Init, 0, 0, List.replicate 64 0, List.length_replicate⟩ (bytes "abc")) := by
  have htext := websMD5_eq_compute_md5 32 le_rfl
    ⟨0, 0, md5Init, 0, List.replicate 64 0, List.length_replicate, by norm_num⟩
    ⟨md5Init, 0, 0, List.replicate 64 0, List.length_replicate⟩ (bytes "abc")
  rwa [if_neg (by decide)] at htext

end TestCore.Webs
