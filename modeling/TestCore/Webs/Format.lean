/-
Formatted output: `dsnprintf`, `put_char`, `put_string` and `put_ulong` of `misc.c`, and
`websWrite`.

`dsnprintf` reads the format character by character and puts characters to a buffer that grows
by 64 up to a limit, after which they are dropped. Which of the arguments a directive takes is
for the caller to get right: a directive without an argument reads whatever is there, and a
format that ends within a directive is read past its end. Both are `none` here.

So what `websWrite` sends for a format without directives is the format, up to 3071 characters
(`websWrite_plain`), and a text that is passed as the format and has a `%` in it is never sent
as it is (`websWrite_percent`). A string that is an argument of `%s` is sent up to the same
length (`websWrite_string`).
-/
import TestCore.Lib.Decimal
import TestCore.Lib.Struct

set_option autoImplicit false

namespace TestCore.Webs

open TestCore.Lib

/-! ## The buffer -/

def STR_INC : ℕ := 64

def WEBS_BUFSIZE : ℕ := 3072

/-- `strbuf_t` with `STR_REALLOC`: the `count` characters that are there, and the sizes. -/
structure Strbuf where
  s : Bytes := []
  size : ℕ := 0
  max : ℕ
  deriving DecidableEq, Repr

/-- `buf->s[buf->count] = c`: a terminator is not counted. -/
def Strbuf.store (buf : Strbuf) (c : UInt8) : Strbuf :=
  if c ≠ 0 then { buf with s := buf.s ++ [c] } else buf

/-- `put_char`. -/
def put_char (buf : Strbuf) (c : UInt8) : Strbuf :=
  if buf.size ≤ buf.s.length + 1 then
    -- The buffer has to grow, and is left as it is if that goes over the limit.
    if buf.max < buf.size + STR_INC ∧ STR_INC < buf.size + STR_INC then buf
    else Strbuf.store { buf with size := buf.size + STR_INC } c
  else buf.store c

/-- Several characters. -/
def put_chars (buf : Strbuf) (l : Bytes) : Strbuf := l.foldl put_char buf

/-- `put_string` with `len` characters at `s`, where a negative `len` is the length of the
string. -/
def put_string (buf : Strbuf) (s : Bytes) (len width prec : ℤ) (minus : Bool) : Strbuf :=
  let len : ℤ :=
    if len < 0 then if 0 ≤ prec then min s.length prec else s.length
    else if 0 ≤ prec ∧ prec < len then prec
    else len
  let pad := List.replicate (width - len).toNat 32
  put_chars buf
    ((if minus then [] else pad) ++ s.take len.toNat ++ if minus then pad else [])

/-! ## Numbers -/

/-- The first loop of `put_ulong`: the number of digits, and the power of the base that the
highest one stands for. Each turn goes to the next power, and none has more than 64. -/
def ulongTop (ulongMax value base : ℕ) : (fuel len x : ℕ) → ℕ × ℕ
  | 0, len, x => (len, x)
  | fuel + 1, len, x =>
      if x < ulongMax / base then
        if x * base > value then (len, x) else ulongTop ulongMax value base fuel (len + 1) (x * base)
      else (len, x)

/-- The character of a digit in a base up to 16. -/
def baseDigit (upper : Bool) (d : ℕ) : UInt8 :=
  if d < 10 then digit d else UInt8.ofNat ((if upper then 65 else 97) - 10 + d)

/-- The last loop of `put_ulong`. -/
def ulongDigits (value base : ℕ) (upper : Bool) : (fuel x : ℕ) → Bytes
  | 0, _ => []
  | fuel + 1, x =>
      if x = 0 then [] else baseDigit upper (value / x % base) :: ulongDigits value base upper fuel (x / base)

/-- `put_ulong`. -/
def put_ulong (ulongMax : ℕ) (buf : Strbuf) (value base : ℕ) (upper : Bool) (pre : Bytes)
    (width prec : ℤ) (minus zero : Bool) : Strbuf :=
  let top := ulongTop ulongMax value base 64 1 1
  let zeros := (prec - top.1).toNat
  let pad := (width - (zeros + top.1) - pre.length).toNat
  put_chars buf
    ((if minus then [] else List.replicate pad (if zero then 48 else 32)) ++ pre
      ++ List.replicate zeros 48 ++ ulongDigits value base upper 65 top.2
      ++ if minus then List.replicate pad 32 else [])

/-! ## Directives -/

/-- An argument of the variable list. -/
inductive VaArg where
  | int (n : ℤ)
  | str (s : Option Bytes)
  | ptr (addr : ℕ)
  deriving DecidableEq, Repr

/-- What stands between `%` and the conversion. -/
structure Spec where
  minus : Bool
  plus : Bool
  space : Bool
  hash : Bool
  zero : Bool
  short : Bool := false
  long : Bool := false
  width : ℤ
  prec : ℤ
  deriving DecidableEq, Repr

/-- The machine: the sizes of its numbers, and whether a `char` has a sign. -/
structure FmtArch where
  arch : Arch
  charSigned : Bool
  deriving DecidableEq, Repr

def FmtArch.ulongMax (m : FmtArch) : ℕ := 2 ^ (8 * m.arch.long) - 1

/-- The number in `w` bits, with a sign. -/
def signedBits (w : ℕ) (n : ℤ) : ℤ := (n + 2 ^ (w - 1)) % 2 ^ w - 2 ^ (w - 1)

/-- `-`, `+`, blank, `#` and `0`. -/
def isFlag (c : UInt8) : Bool := c == 45 || c == 43 || c == 32 || c == 35 || c == 48

/-- A run of digits as a number. -/
def digitRun (s : Bytes) : ℤ := (s.takeWhile isDigit).foldl (fun n c => n * 10 + (c.toNat - 48 : ℤ)) 0

/-- `va_arg(arg, int)`. -/
def vaInt : List VaArg → Option (ℤ × List VaArg)
  | .int n :: args => some (n, args)
  | _ => none

/-- The width: the number, what follows it, and the arguments that are left. -/
def readWidth (fmt : Bytes) (args : List VaArg) : Option (ℤ × Bytes × List VaArg) :=
  match fmt with
  | 42 :: fmt => do
      let (n, args) ← vaInt args
      some (n, fmt, args)
  | fmt => some (digitRun fmt, fmt.dropWhile isDigit, args)

/-- The precision, if there is one. -/
def readPrec (fmt : Bytes) (args : List VaArg) : Option (Option ℤ × Bytes × List VaArg) :=
  match fmt with
  | 46 :: 42 :: fmt => do
      let (n, args) ← vaInt args
      some (some n, fmt, args)
  | 46 :: fmt => some (some (digitRun fmt), fmt.dropWhile isDigit, args)
  | fmt => some (none, fmt, args)

/-- `h` or `l`. -/
def readLength (fmt : Bytes) : Bool × Bool × Bytes :=
  match fmt with
  | 104 :: fmt => (true, false, fmt)
  | 108 :: fmt => (false, true, fmt)
  | fmt => (false, false, fmt)

/-- A directive behind its `%`: what it says, the conversion, and what is left. A format that
ends here has no conversion, and its terminator is passed over. -/
def readDirective (fmt : Bytes) (args : List VaArg) : Option (Spec × UInt8 × Bytes × List VaArg) := do
  let flags := fmt.takeWhile isFlag
  let (width, fmt, args) ← readWidth (fmt.dropWhile isFlag) args
  let (prec, fmt, args) ← readPrec fmt args
  let (short, long, fmt) := readLength fmt
  match fmt with
  | [] => none
  | c :: fmt =>
      some (
        { minus := flags.contains 45 || width < 0
          plus := flags.contains 43
          space := flags.contains 32
          hash := flags.contains 35
          -- A precision takes back the zeros.
          zero := flags.contains 48 && prec.isNone
          short := short
          long := long
          width := width.natAbs
          prec := prec.getD (-1) }, c, fmt, args)

/-- The value of a signed conversion. -/
def Spec.signed (m : FmtArch) (f : Spec) (n : ℤ) : ℤ :=
  if f.short then signedBits 16 n
  else if f.long then signedBits (8 * m.arch.long) n
  else signedBits 32 n

/-- The value of an unsigned conversion. -/
def Spec.unsigned (m : FmtArch) (f : Spec) (n : ℤ) : ℕ :=
  (n % 2 ^ (if f.short then 16 else if f.long then 8 * m.arch.long else 32)).toNat

/-- `%d`. -/
def put_signed (m : FmtArch) (buf : Strbuf) (f : Spec) (n : ℤ) : Strbuf :=
  let value := f.signed m n
  let pre := if value < 0 then [45] else if f.plus then [43] else if f.space then [32] else []
  put_ulong m.ulongMax buf value.natAbs 10 false pre f.width f.prec f.minus f.zero

/-- `%o`, `%u`, `%x` and `%X`. -/
def put_unsigned (m : FmtArch) (buf : Strbuf) (f : Spec) (c : UInt8) (n : ℤ) : Strbuf :=
  let value := f.unsigned m n
  let alt := f.hash && value ≠ 0
  if c = 111 then
    put_ulong m.ulongMax buf value 8 false (if alt then [48] else []) f.width f.prec f.minus f.zero
  else if c = 117 then put_ulong m.ulongMax buf value 10 false [] f.width f.prec f.minus f.zero
  else
    put_ulong m.ulongMax buf value 16 (c = 88) (if alt then [48, c] else []) f.width f.prec f.minus
      f.zero

/-- `%s`. With `#` the first character is the length of what follows it, and more than there is
cannot be read. -/
def put_str (m : FmtArch) (buf : Strbuf) (f : Spec) : Option Bytes → Option Strbuf
  | none => some (put_string buf (bytes "(null)") (-1) f.width f.prec f.minus)
  | some s =>
      if f.hash then
        let len : ℤ := if m.charSigned then signedBits 8 (s.headD 0).toNat else (s.headD 0).toNat
        if s.length < (if 0 ≤ f.prec ∧ f.prec < len then f.prec else len) then none
        else some (put_string buf s.tail len f.width f.prec f.minus)
      else some (put_string buf s (-1) f.width f.prec f.minus)

/-- A conversion: the buffer after it, and the arguments that are left. -/
def convert (m : FmtArch) (buf : Strbuf) (f : Spec) (c : UInt8) (args : List VaArg) :
    Option (Strbuf × List VaArg) :=
  if c = 100 ∨ c = 105 then (vaInt args).map fun a => (put_signed m buf f a.1, a.2)
  else if c = 111 ∨ c = 117 ∨ c = 120 ∨ c = 88 then
    (vaInt args).map fun a => (put_unsigned m buf f c a.1, a.2)
  else if c = 99 then (vaInt args).map fun a => (put_char buf (UInt8.ofNat (a.1 % 256).toNat), a.2)
  else if c = 115 ∨ c = 83 then
    match args with
    | .str s :: args => (put_str m buf f s).map fun buf => (buf, args)
    | _ => none
  else if c = 112 then
    match args with
    | .ptr addr :: args =>
        some (put_ulong m.ulongMax buf addr 16 false (bytes "0x") f.width f.prec f.minus f.zero, args)
    | _ => none
  else if c = 110 then
    -- The count is stored through the pointer, and nothing is put.
    match args with
    | .ptr _ :: args => some (buf, args)
    | _ => none
  else some (put_char buf c, args)

/-! ## The formatter -/

/-- What follows a `%`: another one, or a directive. -/
def percent (m : FmtArch) (buf : Strbuf) (fmt : Bytes) (args : List VaArg) :
    Option (Strbuf × Bytes × List VaArg) :=
  match fmt with
  | 37 :: fmt => some (put_char buf 37, fmt, args)
  | fmt => do
      let (f, c, fmt, args) ← readDirective fmt args
      let (buf, args) ← convert m buf f c args
      some (buf, fmt, args)

/-- The loop of `dsnprintf`. Each turn reads a character of the format at least. -/
def dsnprintf.loop (m : FmtArch) : (fuel : ℕ) → Strbuf → (fmt : Bytes) → List VaArg → Option Strbuf
  | _, buf, [], _ => some buf
  | 0, _, _ :: _, _ => none
  | fuel + 1, buf, c :: fmt, args =>
      if c ≠ 37 then dsnprintf.loop m fuel (put_char buf c) fmt args
      else (percent m buf fmt args).bind fun r => dsnprintf.loop m fuel r.1 r.2.1 r.2.2

/-- `fmtValloc`: the string that is made. -/
def fmtValloc (m : FmtArch) (n : ℕ) (fmt : Bytes) (args : List VaArg) : Option Bytes :=
  (dsnprintf.loop m fmt.length { max := n } fmt args).map Strbuf.s

/-- `websWrite`: what is sent. -/
def websWrite (m : FmtArch) (fmt : Bytes) (args : List VaArg) : Option Bytes :=
  fmtValloc m WEBS_BUFSIZE fmt args

/-! ## What gets into the buffer -/

/-- The sizes of a buffer: multiples of the increment, with room for a terminator. -/
structure Strbuf.WF (buf : Strbuf) : Prop where
  inc_size : STR_INC ∣ buf.size
  inc_max : STR_INC ∣ buf.max
  size_le : buf.size ≤ buf.max
  max_pos : 0 < buf.max
  room : buf.s.length < buf.size ∨ buf.size = 0 ∧ buf.s = []

theorem Strbuf.wf_start {n : ℕ} (hn : STR_INC ∣ n) (hpos : 0 < n) : Strbuf.WF { max := n } :=
  ⟨dvd_zero _, hn, Nat.zero_le _, hpos, Or.inr ⟨rfl, rfl⟩⟩

/-- A character is appended, or there is no room and it is dropped. -/
theorem put_char_wf {buf : Strbuf} (h : buf.WF) {c : UInt8} (hc : c ≠ 0) :
    (put_char buf c).WF ∧ (put_char buf c).max = buf.max ∧
      (put_char buf c).s = (buf.s ++ [c]).take (buf.max - 1) := by
  obtain ⟨k, hk⟩ := h.inc_size
  obtain ⟨n, hn⟩ := h.inc_max
  have hle := h.size_le
  have hpos := h.max_pos
  have hinc : STR_INC = 64 := rfl
  rw [hinc] at hk hn
  have hstore : ∀ b : Strbuf, b.store c = { b with s := b.s ++ [c] } := fun b => if_pos hc
  have hlen : (buf.s ++ [c]).length = buf.s.length + 1 := by simp
  unfold put_char
  by_cases hfull : buf.size ≤ buf.s.length + 1
  · rw [if_pos hfull]
    by_cases hlimit : buf.max < buf.size + STR_INC ∧ STR_INC < buf.size + STR_INC
    · -- The size is the limit already.
      rw [if_pos hlimit]
      obtain hroom | ⟨hzero, -⟩ := h.room
      · have hs : buf.s.length = buf.max - 1 := by omega
        refine ⟨h, rfl, ?_⟩
        rw [← hs, List.take_left]
      · omega
    · rw [if_neg hlimit, hstore]
      have hgrown : buf.size + STR_INC ≤ buf.max := by
        by_contra hcon
        have hsize : buf.size = 0 := by
          by_contra hne
          exact hlimit ⟨by omega, by omega⟩
        omega
      have hs : buf.s.length + 1 < buf.size + STR_INC := by
        obtain hroom | ⟨hzero, hnil⟩ := h.room
        · omega
        · rw [hnil, List.length_nil]
          omega
      refine ⟨⟨(Dvd.intro k hk.symm).add (dvd_refl _), h.inc_max, hgrown, hpos, Or.inl ?_⟩, rfl, ?_⟩
      · show (buf.s ++ [c]).length < buf.size + STR_INC
        omega
      · show buf.s ++ [c] = (buf.s ++ [c]).take (buf.max - 1)
        rw [List.take_of_length_le (by omega)]
  · rw [if_neg hfull, hstore]
    refine ⟨⟨h.inc_size, h.inc_max, hle, hpos, Or.inl ?_⟩, rfl, ?_⟩
    · show (buf.s ++ [c]).length < buf.size
      omega
    · show buf.s ++ [c] = (buf.s ++ [c]).take (buf.max - 1)
      rw [List.take_of_length_le (by omega)]

/-- **The buffer has the first characters that were put.** -/
theorem put_chars_wf {buf : Strbuf} (h : buf.WF) (hs : buf.s.length ≤ buf.max - 1) {l : Bytes}
    (hl : NulFree l) :
    (put_chars buf l).WF ∧ (put_chars buf l).max = buf.max ∧
      (put_chars buf l).s = (buf.s ++ l).take (buf.max - 1) := by
  induction l generalizing buf with
  | nil =>
      refine ⟨h, rfl, ?_⟩
      rw [List.append_nil, List.take_of_length_le hs]
      rfl
  | cons c l ih =>
      obtain ⟨hwf, hmax, hput⟩ := put_char_wf h (hl c List.mem_cons_self)
      have hcons : put_chars buf (c :: l) = put_chars (put_char buf c) l := rfl
      have hs' : (put_char buf c).s.length ≤ (put_char buf c).max - 1 := by
        rw [hput, hmax]
        exact List.length_take_le _ _
      obtain ⟨hwf', hmax', hput'⟩ := ih hwf hs' fun x hx => hl x (List.mem_cons_of_mem c hx)
      refine ⟨hcons ▸ hwf', by rw [hcons, hmax', hmax], ?_⟩
      have happ : buf.s ++ c :: l = (buf.s ++ [c]) ++ l := List.append_cons _ _ _
      rw [hcons, hput', hput, hmax, happ]
      -- What is cut off now would have been cut off later.
      rcases Nat.lt_or_ge (buf.max - 1) (buf.s ++ [c]).length with hlong | hshort
      · have hlen : ((buf.s ++ [c]).take (buf.max - 1)).length = buf.max - 1 :=
          List.length_take_of_le hlong.le
        rw [List.take_append_of_le_length hlen.ge, List.take_take, min_self,
          List.take_append_of_le_length hlong.le]
      · rw [List.take_of_length_le hshort]

theorem put_chars_append (buf : Strbuf) (l l' : Bytes) :
    put_chars buf (l ++ l') = put_chars (put_chars buf l) l' := List.foldl_append

/-- A buffer of `websWrite` after some characters. -/
theorem put_chars_start {l : Bytes} (hl : NulFree l) :
    (put_chars { max := WEBS_BUFSIZE } l).s = l.take 3071 := by
  have hwf : Strbuf.WF { max := WEBS_BUFSIZE } := Strbuf.wf_start (by decide) (by decide)
  exact (put_chars_wf hwf (Nat.zero_le _) hl).2.2

/-! ## Formats without directives, and with one -/

/-- Characters other than `%` are put as they are. -/
theorem loop_plain (m : FmtArch) {pre : Bytes} (hpre : 37 ∉ pre) (fuel : ℕ) (buf : Strbuf) (fmt : Bytes)
    (args : List VaArg) :
    dsnprintf.loop m (pre.length + fuel) buf (pre ++ fmt) args
      = dsnprintf.loop m fuel (put_chars buf pre) fmt args := by
  induction pre generalizing buf with
  | nil =>
      rw [List.length_nil, Nat.zero_add]
      rfl
  | cons c pre ih =>
      have hc : c ≠ 37 := by
        rintro rfl
        exact hpre List.mem_cons_self
      have hlen : (c :: pre).length + fuel = pre.length + fuel + 1 := by
        rw [List.length_cons]
        omega
      rw [hlen, List.cons_append, dsnprintf.loop, if_pos hc, ih fun h => hpre (List.mem_cons_of_mem c h)]
      rfl

/-- **A format without directives** is sent as it is, up to the length of the buffer. -/
theorem websWrite_plain (m : FmtArch) {fmt : Bytes} (hfmt : 37 ∉ fmt) (hnul : NulFree fmt)
    (args : List VaArg) : websWrite m fmt args = some (fmt.take 3071) := by
  have hloop := loop_plain m hfmt 0 { max := WEBS_BUFSIZE } [] args
  rw [List.append_nil, Nat.add_zero] at hloop
  unfold websWrite fmtValloc
  rw [hloop, dsnprintf.loop, Option.map_some, put_chars_start hnul]

/-- **A string** that is the argument of `%s`. -/
theorem websWrite_string (m : FmtArch) {s : Bytes} (hs : NulFree s) :
    websWrite m (bytes "%s") [.str (some s)] = some (s.take 3071) := by
  have hloop : dsnprintf.loop m (bytes "%s").length { max := WEBS_BUFSIZE } (bytes "%s") [.str (some s)]
      = some (put_chars { max := WEBS_BUFSIZE } s) := by
    have hfmt : bytes "%s" = [37, 115] := by decide
    rw [hfmt]
    simp [dsnprintf.loop, percent, readDirective, readWidth, readPrec, readLength, convert, put_str, put_string,
      isFlag, digitRun, isDigit]
  unfold websWrite fmtValloc
  rw [hloop, Option.map_some, put_chars_start hs]

/-! ## A text that is passed as the format

No argument comes with it. A directive that wants one is undefined, and any other puts one
character for two or more. -/

theorem put_char_length_le (buf : Strbuf) (c : UInt8) :
    (put_char buf c).s.length ≤ buf.s.length + 1 := by
  have hstore : ∀ b : Strbuf, (b.store c).s.length ≤ b.s.length + 1 := by
    intro b
    unfold Strbuf.store
    split_ifs
    · simp
    · simp
  unfold put_char
  split_ifs
  · exact Nat.le_succ _
  · exact hstore _
  · exact hstore _

theorem readWidth_nil {fmt rest : Bytes} {n : ℤ} {args : List VaArg}
    (h : readWidth fmt [] = some (n, rest, args)) : args = [] ∧ rest.length ≤ fmt.length := by
  unfold readWidth at h
  split at h
  · exact absurd h nofun
  · simp only [Option.some.injEq, Prod.mk.injEq] at h
    obtain ⟨-, rfl, rfl⟩ := h
    exact ⟨rfl, (List.dropWhile_sublist isDigit).length_le⟩

theorem readPrec_nil {fmt rest : Bytes} {n : Option ℤ} {args : List VaArg}
    (h : readPrec fmt [] = some (n, rest, args)) : args = [] ∧ rest.length ≤ fmt.length := by
  unfold readPrec at h
  split at h
  · exact absurd h nofun
  · simp only [Option.some.injEq, Prod.mk.injEq] at h
    obtain ⟨-, rfl, rfl⟩ := h
    exact ⟨rfl, ((List.dropWhile_sublist isDigit).length_le).trans (Nat.le_succ _)⟩
  · simp only [Option.some.injEq, Prod.mk.injEq] at h
    obtain ⟨-, rfl, rfl⟩ := h
    exact ⟨rfl, le_rfl⟩

theorem readLength_length (fmt : Bytes) : (readLength fmt).2.2.length ≤ fmt.length := by
  unfold readLength
  split
  · exact Nat.le_succ _
  · exact Nat.le_succ _
  · exact le_rfl

theorem readDirective_nil {fmt rest : Bytes} {f : Spec} {c : UInt8} {args : List VaArg}
    (h : readDirective fmt [] = some (f, c, rest, args)) : args = [] ∧ rest.length < fmt.length := by
  unfold readDirective at h
  simp only [Option.bind_eq_bind, Option.bind_eq_some_iff] at h
  obtain ⟨⟨w, fmt₁, args₁⟩, hwidth, ⟨p, fmt₂, args₂⟩, hprec, h⟩ := h
  obtain ⟨rfl, hlen₁⟩ := readWidth_nil hwidth
  obtain ⟨rfl, hlen₂⟩ := readPrec_nil hprec
  dsimp only at hlen₂
  have hlen₃ := readLength_length fmt₂
  have hlen₀ := (List.dropWhile_sublist isFlag (l := fmt)).length_le
  rcases hfmt : (readLength fmt₂).2.2 with _ | ⟨d, fmt₃⟩
  · simp [hfmt] at h
  · simp only [hfmt, Option.some.injEq, Prod.mk.injEq] at h
    obtain ⟨-, -, rfl, rfl⟩ := h
    rw [hfmt, List.length_cons] at hlen₃
    exact ⟨rfl, by omega⟩

theorem convert_nil {m : FmtArch} {buf buf' : Strbuf} {f : Spec} {c : UInt8} {args : List VaArg}
    (h : convert m buf f c [] = some (buf', args)) : args = [] ∧ buf' = put_char buf c := by
  unfold convert vaInt at h
  split_ifs at h
  case neg =>
    simp only [Option.some.injEq, Prod.mk.injEq] at h
    obtain ⟨rfl, rfl⟩ := h
    exact ⟨rfl, rfl⟩
  all_goals exact absurd h nofun

theorem percent_nil {m : FmtArch} {buf buf' : Strbuf} {fmt rest : Bytes} {args : List VaArg}
    (h : percent m buf fmt [] = some (buf', rest, args)) :
    args = [] ∧ rest.length < fmt.length ∧ buf'.s.length ≤ buf.s.length + 1 := by
  unfold percent at h
  split at h
  · simp only [Option.some.injEq, Prod.mk.injEq] at h
    obtain ⟨rfl, rfl, rfl⟩ := h
    exact ⟨rfl, Nat.lt_succ_self _, put_char_length_le buf 37⟩
  · simp only [Option.bind_eq_bind, Option.bind_eq_some_iff, Option.some.injEq, Prod.mk.injEq] at h
    obtain ⟨⟨f, c, fmt₁, args₁⟩, hread, ⟨buf₁, args₂⟩, hconv, rfl, rfl, rfl⟩ := h
    obtain ⟨rfl, hlen⟩ := readDirective_nil hread
    obtain ⟨rfl, rfl⟩ := convert_nil hconv
    exact ⟨rfl, hlen, put_char_length_le buf c⟩

/-- What is put is not longer than the format, and shorter if there is a `%` in it. -/
theorem loop_nil {m : FmtArch} {fuel : ℕ} {buf buf' : Strbuf} {fmt : Bytes}
    (h : dsnprintf.loop m fuel buf fmt [] = some buf') :
    buf'.s.length ≤ buf.s.length + fmt.length ∧
      (37 ∈ fmt → buf'.s.length < buf.s.length + fmt.length) := by
  induction fuel generalizing buf fmt with
  | zero =>
      rcases fmt with _ | ⟨c, fmt⟩
      · obtain rfl := Option.some.inj h
        exact ⟨Nat.le_add_right _ _, fun hmem => absurd hmem List.not_mem_nil⟩
      · exact absurd h nofun
  | succ fuel ih =>
      rcases fmt with _ | ⟨c, fmt⟩
      · obtain rfl := Option.some.inj h
        exact ⟨Nat.le_add_right _ _, fun hmem => absurd hmem List.not_mem_nil⟩
      rw [dsnprintf.loop] at h
      rw [List.length_cons]
      by_cases hc : c ≠ 37
      · rw [if_pos hc] at h
        obtain ⟨hle, hlt⟩ := ih h
        have hput := put_char_length_le buf c
        refine ⟨by omega, fun hmem => ?_⟩
        have hrest := hlt ((List.mem_cons.mp hmem).resolve_left fun heq => hc heq.symm)
        omega
      · -- A directive puts one character, and has two.
        rw [if_neg hc, Option.bind_eq_some_iff] at h
        obtain ⟨⟨buf₁, rest, args⟩, hperc, hloop⟩ := h
        obtain ⟨rfl, hlen, hput⟩ := percent_nil hperc
        obtain ⟨hle, -⟩ := ih hloop
        dsimp only at hle
        exact ⟨by omega, fun _ => by omega⟩

/-- **A text with a `%`** is not sent as it is. -/
theorem websWrite_percent {m : FmtArch} {fmt out : Bytes} (hfmt : 37 ∈ fmt)
    (h : websWrite m fmt [] = some out) : out.length < fmt.length := by
  unfold websWrite fmtValloc at h
  obtain ⟨buf, hloop, rfl⟩ := Option.map_eq_some_iff.mp h
  have hlt := (loop_nil hloop).2 hfmt
  rwa [List.length_nil, Nat.zero_add] at hlt

/-- **What a text as the format comes to.** -/
theorem websWrite_eq_iff (m : FmtArch) {text : Bytes} (hnul : NulFree text) :
    websWrite m text [] = some text ↔ 37 ∉ text ∧ text.length ≤ 3071 := by
  constructor
  · intro h
    have hplain : 37 ∉ text := fun hmem => absurd (websWrite_percent hmem h) (lt_irrefl _)
    rw [websWrite_plain m hplain hnul, Option.some.injEq, List.take_eq_self_iff] at h
    exact ⟨hplain, h⟩
  · rintro ⟨hplain, hlen⟩
    rw [websWrite_plain m hplain hnul, List.take_of_length_le hlen]

/-! ## Numbers in decimal -/

/-- The first loop stops at the highest power of the base that is not greater than the value. -/
theorem ulongTop_spec {ulongMax value base : ℕ} (hmax : value / base < ulongMax / base) :
    ∀ {fuel k : ℕ}, value < base ^ (k + 1 + fuel) → (base ^ k ≤ value ∨ k = 0) →
      ∃ j, ulongTop ulongMax value base fuel (k + 1) (base ^ k) = (j + 1, base ^ j) ∧
        value < base ^ (j + 1) ∧ (base ^ j ≤ value ∨ j = 0) := by
  intro fuel
  induction fuel with
  | zero =>
      intro k hval hlow
      exact ⟨k, rfl, hval, hlow⟩
  | succ fuel ih =>
      intro k hval hlow
      unfold ulongTop
      by_cases hroom : base ^ k < ulongMax / base
      · rw [if_pos hroom, ← pow_succ]
        by_cases hover : base ^ (k + 1) > value
        · rw [if_pos hover]
          exact ⟨k, rfl, hover, hlow⟩
        · rw [if_neg hover]
          refine ih ?_ (Or.inl (not_lt.mp hover))
          rwa [show k + 1 + 1 + fuel = k + 1 + (fuel + 1) by omega]
      · -- The next power would be more than the greatest number, and so more than the value.
        rw [if_neg hroom]
        refine ⟨k, rfl, ?_, hlow⟩
        rw [pow_succ]
        have hbase : 0 < base := by
          rcases Nat.eq_zero_or_pos base with rfl | h
          · rw [Nat.div_zero, Nat.div_zero] at hmax
            exact absurd hmax (lt_irrefl 0)
          · exact h
        exact (Nat.div_lt_iff_lt_mul hbase).mp (by omega)

/-- The last loop writes the digits from that power down. -/
theorem ulongDigits_eq {value base : ℕ} (hbase : 2 ≤ base) (upper : Bool) (extra k : ℕ) :
    ulongDigits value base upper (k + 2 + extra) (base ^ k)
      = (List.range (k + 1)).reverse.map fun j => baseDigit upper (value / base ^ j % base) := by
  have hpos : ∀ j, base ^ j ≠ 0 := fun j => pow_ne_zero j (by omega)
  induction k with
  | zero =>
      have hone : (1 : ℕ) / base = 0 := Nat.div_eq_of_lt (by omega)
      have hfuel : 0 + 2 + extra = extra + 1 + 1 := by omega
      rw [hfuel, pow_zero, ulongDigits, if_neg one_ne_zero, hone, ulongDigits, if_pos rfl]
      simp
  | succ k ih =>
      have hfuel : k + 1 + 2 + extra = k + 2 + extra + 1 := by omega
      have hdiv : base ^ (k + 1) / base = base ^ k := by
        rw [pow_succ, Nat.mul_div_cancel _ (by omega)]
      have hrange : List.range (k + 1 + 1) = List.range (k + 1) ++ [k + 1] := List.range_succ
      rw [hfuel, ulongDigits, if_neg (hpos (k + 1)), hdiv, ih, hrange, List.reverse_append,
        List.reverse_singleton, List.singleton_append, List.map_cons]

/-- The digits of a number with `k + 1` of them. -/
theorem decDigits_eq {value k : ℕ} (hval : value < 10 ^ (k + 1)) (hlow : 10 ^ k ≤ value ∨ k = 0) :
    decDigits value = (List.range (k + 1)).reverse.map fun j => value / 10 ^ j % 10 := by
  unfold decDigits
  split_ifs with hzero
  · subst hzero
    obtain hlow | rfl := hlow
    · exact absurd hlow (by simp)
    · simp
  · have hlog : Nat.log 10 value = k := by
      rcases hlow with hlow | rfl
      · exact (Nat.log_eq_iff (Or.inr ⟨by norm_num, hzero⟩)).mpr ⟨hlow, hval⟩
      · exact Nat.log_eq_zero_iff.mpr (Or.inl (by simpa using hval))
    have hlen : (Nat.digits 10 value).length = k + 1 := by
      rw [Nat.length_digits 10 value (by norm_num) hzero, hlog]
    rw [List.map_reverse]
    congr 1
    apply List.ext_getElem
    · rw [hlen, List.length_map, List.length_range]
    · intro i h₁ h₂
      rw [← List.getD_eq_getElem _ 0 h₁, Nat.getD_digits value i (by norm_num), List.getElem_map,
        List.getElem_range]

/-- **A number without width and precision** is written in decimal. -/
theorem put_ulong_dec {ulongMax value : ℕ} (hmax : value / 10 < ulongMax / 10)
    (hval : value < 10 ^ 63) (buf : Strbuf) (pre : Bytes) :
    put_ulong ulongMax buf value 10 false pre 0 (-1) false false = put_chars buf (pre ++ dec value) := by
  have hstart : value < 10 ^ (0 + 1 + 64) := hval.trans (by norm_num)
  obtain ⟨k, htop, hhigh, hlow⟩ := ulongTop_spec hmax hstart (Or.inr rfl)
  have hk : k ≤ 63 := by
    rcases hlow with hlow | rfl
    · by_contra hcon
      have hpow : 10 ^ 63 ≤ 10 ^ k := Nat.pow_le_pow_right (by norm_num) (by omega)
      omega
    · omega
  obtain ⟨extra, hextra⟩ : ∃ extra, 65 = k + 2 + extra := ⟨65 - (k + 2), by omega⟩
  have hdigits : ulongDigits value 10 false 65 (10 ^ k) = dec value := by
    have hdec : ∀ d, d < 10 → baseDigit false d = digit d := fun d hd => if_pos hd
    rw [hextra, ulongDigits_eq (by norm_num) false extra k, dec, digitText, decDigits_eq hhigh hlow,
      List.map_map]
    apply List.map_congr_left
    intro j _
    exact hdec _ (Nat.mod_lt _ (by norm_num))
  rw [pow_zero, Nat.zero_add] at htop
  have hzeros : ((-1 : ℤ) - (k + 1 : ℕ)).toNat = 0 := by omega
  have hpad : ((0 : ℤ) - ((0 : ℕ) + (k + 1 : ℕ)) - pre.length).toNat = 0 := by omega
  unfold put_ulong
  simp only [htop, hzeros, hpad, hdigits]
  simp

/-- `%d` without anything between. -/
theorem put_signed_plain (m : FmtArch) (buf : Strbuf) {n : ℤ} (hlow : -2 ^ 31 < n) (hhigh : n < 2 ^ 31) :
    put_signed m buf ⟨false, false, false, false, false, false, false, 0, -1⟩ n
      = put_chars buf (decInt n) := by
  have hvalue : Spec.signed m ⟨false, false, false, false, false, false, false, 0, -1⟩ n = n := by
    show (n + 2 ^ 31) % 2 ^ 32 - 2 ^ 31 = n
    omega
  have hmax : n.natAbs / 10 < m.ulongMax / 10 := by
    have hlong : 2 ^ 32 - 1 ≤ m.ulongMax := by
      unfold FmtArch.ulongMax Arch.long
      split_ifs
      · norm_num
      · norm_num
    omega
  have hval : n.natAbs < 10 ^ 63 := lt_of_lt_of_le (by omega : n.natAbs < 2 ^ 31) (by norm_num)
  unfold put_signed decInt
  rw [hvalue]
  by_cases hneg : n < 0
  · simp only [if_pos hneg, put_ulong_dec hmax hval]
    rfl
  · simp only [if_neg hneg, put_ulong_dec hmax hval]
    simp

theorem decInt_nulFree (n : ℤ) : NulFree (decInt n) := by
  have hdec : NulFree (dec n.natAbs) := by
    intro c hc hzero
    have hrange := mem_dec hc
    rw [hzero] at hrange
    exact absurd hrange.1 (by decide)
  unfold decInt
  split_ifs
  · exact hdec.cons (by decide)
  · exact hdec

/-- **A number in a text**, as the argument of `%d`. -/
theorem websWrite_number (m : FmtArch) {pre post : Bytes} (hpre : 37 ∉ pre) (hpost : 37 ∉ post)
    (hnul : NulFree pre) (hnul' : NulFree post) {n : ℤ} (hlow : -2 ^ 31 < n) (hhigh : n < 2 ^ 31) :
    websWrite m (pre ++ 37 :: 100 :: post) [.int n] = some ((pre ++ decInt n ++ post).take 3071) := by
  have hpercent : ∀ buf : Strbuf, percent m buf (100 :: post) [.int n]
      = some (put_chars buf (decInt n), post, []) := by
    intro buf
    rw [← put_signed_plain m buf hlow hhigh]
    simp [percent, readDirective, readWidth, readPrec, readLength, convert, vaInt, isFlag, digitRun,
      isDigit]
  have hrest := loop_plain m hpost 1
    (put_chars (put_chars { max := WEBS_BUFSIZE } pre) (decInt n)) [] []
  have hlen : (pre ++ 37 :: 100 :: post).length = pre.length + (post.length + 1 + 1) := by simp
  rw [List.append_nil] at hrest
  unfold websWrite fmtValloc
  rw [hlen, loop_plain m hpre, dsnprintf.loop, if_neg (not_not.mpr rfl), hpercent, Option.bind_some,
    hrest, dsnprintf.loop, Option.map_some, ← put_chars_append, ← put_chars_append,
    ← List.append_assoc, put_chars_start ((hnul.append (decInt_nulFree n)).append hnul')]

end TestCore.Webs
