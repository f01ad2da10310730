/-
The option `ipv4llgroup` of the configuration: `parse_option` of `if-options.c` for a line like
`legacy 10.22.4.0 10.22.7.255 11`, with the functions it reads the line with.

A line names a group, the two ends of its range and a prefix length. The last thing that is tested
is the range, and it is tested on the words as they lie in memory, in network order, while
`ipv4llg_pickaddr` works with the numbers that `ntohl` makes of them. On a host that stores the
lowest byte first these are two orders; and no host refuses a range of size 0.

Addresses are in host order here, and `s_addr` is the word that the host sees in memory. `malloc`
and `calloc` do not fail.
-/
import TestCore.Ipv4llg.Defend
import TestCore.Lib.Strtol
import TestCore.Lib.Wire

set_option autoImplicit false

namespace TestCore.Ipv4llg

open TestCore.Lib

/-- What a line does not say. -/
structure OptionEnv where
  bigEndian : Bool
  /-- The local `v4ll_cidr` before anything is stored there. -/
  v4ll_cidr : Bytes
  v4ll_cidr_length : v4ll_cidr.length = 4

/-! ## Words in memory -/

/-- The number with the bytes in the other order. -/
def swap32 (a : UInt32) : UInt32 :=
  UInt32.ofNat (octet a 0 * 2 ^ 24 + octet a 1 * 2 ^ 16 + octet a 2 * 2 ^ 8 + octet a 3)

/-- `s_addr`: an address in network order, as the host reads it. -/
def OptionEnv.s_addr (env : OptionEnv) (a : UInt32) : UInt32 := if env.bigEndian then a else swap32 a

/-- A `uint32_t` in four bytes of memory. -/
def OptionEnv.uint32 (env : OptionEnv) (b : Bytes) : ℕ := readWord (if env.bigEndian then b.reverse else b)

/-! ## Numbers -/

/-- `strtou(s, NULL, 0, 0, hi, &e)`, if `e` is 0 then. -/
def strtou (hi : ℕ) (s : Bytes) : Option ℕ :=
  match scanNumber true s with
  | none => none
  | some (neg, n, rest) =>
      -- `strtoumax` negates after it has read, and then the bound is looked at.
      let im := if neg then (2 ^ 64 - n) % 2 ^ 64 else n
      if 2 ^ 64 ≤ n ∨ rest ≠ [] ∨ hi < im then none else some im

/-- `strtoi(s, NULL, 10, lo, hi, &e)`, if `e` is 0 then. -/
def strtoi (lo hi : ℤ) (s : Bytes) : Option ℤ :=
  match scanNumber false s with
  | none => none
  | some (neg, n, rest) =>
      let im : ℤ := if neg then -n else n
      if clampInt 63 im ≠ im ∨ rest ≠ [] ∨ im < lo ∨ hi < im then none else some im

/-! ## Strings -/

/-- The value of two hexadecimal digits. -/
def hexPair (c0 c1 : UInt8) : Option UInt8 :=
  match digitVal c0, digitVal c1 with
  | some high, some low => some (UInt8.ofNat (high * 16 + low))
  | _, _ => none

/-- The loop of `hwaddr_aton`; `none` where it returns 0. `len = 0` is `first`. -/
def hwaddr_aton.loop : (first : Bool) → (p : Bytes) → Option Bytes
  | _, [] => some []
  | _, [c0] => if c0 = 10 then some [] else none
  | first, c0 :: c1 :: p =>
      if c0 = 10 then hwaddr_aton.loop first (c1 :: p)
      else
        match hexPair c0 c1 with
        | none => none
        | some b =>
            match p with
            | [] => if first then none else some [b]
            | sep :: rest =>
                if sep = 10 ∨ (sep = 58 ∧ rest ≠ []) then (hwaddr_aton.loop false rest).map (b :: ·)
                else none

/-- `hwaddr_aton`: the bytes, whose number is what it returns. -/
def hwaddr_aton (addr : Bytes) : Bytes := (hwaddr_aton.loop true addr).getD []

/-- What an escape stands for. -/
inductive Escape where
  /-- The string ends behind the backslash. -/
  | nothing
  | char (c : UInt8)
  /-- A hexadecimal or octal code, if all of its digits are there. -/
  | code (c : Option UInt8)
  deriving DecidableEq, Repr

/-- The digits of a base at the beginning, at most `n`. -/
def codeDigits (base : ℕ) : (n : ℕ) → Bytes → List ℕ
  | n + 1, c :: str =>
      match digitVal c with
      | some d => if d < base then d :: codeDigits base n str else []
      | none => []
  | _, _ => []

/-- What follows a backslash, and what is left. -/
def parseEscape : (str : Bytes) → Escape × Bytes
  | [] => (.nothing, [])
  | cmd :: str =>
      if cmd = 98 then (.char 8, str)
      else if cmd = 110 then (.char 10, str)
      else if cmd = 114 then (.char 13, str)
      else if cmd = 116 then (.char 9, str)
      else if cmd = 120 then
        let ds := codeDigits 16 2 str
        (.code (if ds.length = 2 then some (UInt8.ofNat (Nat.ofDigits 16 ds.reverse)) else none),
          str.drop ds.length)
      else if cmd = 48 then
        let ds := codeDigits 8 3 str
        (.code (if ds.length = 3 then some (UInt8.ofNat (min 255 (Nat.ofDigits 8 ds.reverse))) else none),
          str.drop ds.length)
      else (.char cmd, str)

/-- The loop of `parse_string_hwaddr` over the escapes: the length, unless the buffer is full, and
what is written. Every turn takes a character at least. -/
def parse_string.loop (slen : ℕ) (sbuf : Bool) :
    (fuel : ℕ) → (str : Bytes) → (l : ℕ) → (out : Bytes) → Option ℕ × Bytes
  | fuel + 1, c :: str, l, out =>
      if slen < l + 1 ∧ sbuf then (none, out)
      else if c = 92 then
        match parseEscape str with
        | (.nothing, str) => parse_string.loop slen sbuf fuel str (l + 1) out
        | (.char c, str) => parse_string.loop slen sbuf fuel str (l + 1) (out ++ [c])
        | (.code (some c), str) =>
            -- Without a buffer a code is not counted.
            if sbuf then parse_string.loop slen sbuf fuel str (l + 1) (out ++ [c])
            else parse_string.loop slen sbuf fuel str l out
        | (.code none, str) => parse_string.loop slen sbuf fuel str l out
      else parse_string.loop slen sbuf fuel str (l + 1) (out ++ [c])
  | _, _, l, out => (some l, out)

/-- `parse_string`: what it returns, and what it writes if `sbuf` is not `NULL`. -/
def parse_string (slen : ℕ) (sbuf : Bool) (str : Bytes) : ℤ × Bytes :=
  match str with
  | 34 :: rest =>
      -- The last character of what is in memory up to the terminator, which may be the first quote.
      let punt_last := str.getLast? = some 34
      match parse_string.loop slen sbuf rest.length rest 0 [] with
      | (none, out) => (-1, out)
      | (some l, out) => if punt_last then ((l : ℤ) - 1, out.dropLast ++ [0]) else (l, out)
  | str =>
      let hw := hwaddr_aton str
      if 1 < hw.length then
        if slen < hw.length then (-1, []) else (hw.length, hw)
      else
        match parse_string.loop slen sbuf str.length str 0 [] with
        | (none, out) => (-1, out)
        | (some l, out) => (l, out)

/-- `parse_uint32`: a number, or else the bytes of a string of at most four. -/
def parse_uint32 (env : OptionEnv) (arg : Bytes) : Option ℕ :=
  match strtou (2 ^ 32 - 1) arg with
  | some n => some n
  | none =>
      let (s, b) := parse_string 4 true arg
      if s < 1 then none
      else
        let iaid := writeAt env.v4ll_cidr 0 b
        let iaid := if s < 4 then iaid.set 3 0 else iaid
        let iaid := if s < 3 then iaid.set 2 0 else iaid
        let iaid := if s < 2 then iaid.set 1 0 else iaid
        some (env.uint32 iaid)

/-! ## The pieces of a line -/

/-- `strwhite`: how far the first blank is. -/
def strwhite (s : Bytes) : Option ℕ :=
  let i := (s.takeWhile fun c => c ≠ 32 ∧ c ≠ 9).length
  if i = s.length then none else some i

/-- `strskipwhite`: how many blanks there are before something else. -/
def strskipwhite (s : Bytes) : Option ℕ :=
  let i := (s.takeWhile fun c => c = 32 ∨ c = 9).length
  if i = s.length then none else some i

/-- The end of a quoted text, from its first character on. -/
def quoteEnd : Bytes → Option ℕ
  | [] => none
  | 34 :: _ => some 1
  | 92 :: [] => none
  | 92 :: _ :: s => (quoteEnd s).map (· + 2)
  | _ :: s => (quoteEnd s).map (· + 1)

/-- `strend`: how far the end of the first word is. -/
def strend (s : Bytes) : Option ℕ :=
  match strskipwhite s with
  | none => none
  | some i =>
      match s.drop i with
      | 34 :: rest => (quoteEnd rest).map (i + 1 + ·)
      | word =>
          let n := (word.takeWhile (· ≠ 32)).length
          if n = word.length then none else some (i + n)

/-- `parse_addr(addr, NULL, arg)`, in host order. -/
def parse_addr (arg : Bytes) : Option UInt32 :=
  if arg = [] then some 0
  else if 47 ∈ arg then
    match strtoi 0 32 ((arg.dropWhile (· ≠ 47)).drop 1) with
    | none => none
    | some _ => inet_aton (arg.takeWhile (· ≠ 47))
  else inet_aton arg

/-- `inet_cidrtoaddr`: the bytes of the mask, as a number in host order. The argument is an
`int`. -/
def inet_cidrtoaddr (cidr : ℕ) : Option UInt32 :=
  if cidr < 1 ∨ 32 < cidr then none
  else
    let ocets := (cidr + 7) / 8
    let bytes := List.replicate (ocets - 1) 255 ++ [256 - 2 ^ ((32 - cidr) % 8)] ++ List.replicate (4 - ocets) 0
    some (UInt32.ofNat (Nat.ofDigits 256 bytes.reverse))

/-! ## The option -/

/-- Why a line is refused. -/
inductive GroupError where
  | argRequired
  | identifier
  | idLen
  | requiesRange
  | requiresRange
  | address (arg : Bytes)
  | number (arg : Bytes)
  | network (arg : Bytes)
  | insane (arg : Bytes)
  deriving DecidableEq, Repr

/-- What is logged. -/
def GroupError.text : GroupError → Bytes
  | .argRequired => bytes "option 1121 requires an argument"
  | .identifier => bytes "ipv4llgroup requires a group identifier"
  | .idLen => bytes "v4llgroup_id_len"
  | .requiesRange => bytes "ipv4llgroup requies a range address"
  | .requiresRange => bytes "ipv4llgroup requires a range address"
  | .address arg => arg ++ bytes ": not a valid address"
  | .number arg => arg ++ bytes ": not a number"
  | .network arg => arg ++ bytes ": invalid network"
  | .insane arg => arg ++ bytes ": range insane"

/-- One of the two addresses, and what is behind it. A `/` in an address that is refused stays a
zero byte. -/
def parse_option.range (error : GroupError) (arg : Bytes) : Except GroupError (UInt32 × Bytes) :=
  match strend arg with
  | none => .error error
  | some fp =>
      match parse_addr (arg.take fp) with
      | none => .error (.address ((arg.take fp).takeWhile (· ≠ 47)))
      | some addr => .ok (addr, arg.drop (fp + 1))

/-- `case O_IPV4LL_GROUP` up to the test of the range: the group, and the last word of the line. -/
def parse_option.group (env : OptionEnv) (arg : Option Bytes) :
    Except GroupError (Ipv4llGroup × Bytes) := do
  let some arg := arg | .error .argRequired
  let some fp := strwhite arg | .error .identifier
  let s := (parse_string 0 false (arg.take fp)).1
  if s = -1 then .error .idLen
  else
    -- The buffer has a terminator, and the second call may write less than the first one counts.
    let id := if s = 0 then [] else cstr (parse_string s.toNat true (arg.take fp)).2
    let (range_begin, arg) ← parse_option.range .requiesRange (arg.drop (fp + 1))
    let (range_end, arg) ← parse_option.range .requiresRange arg
    let some v4ll_cidr := parse_uint32 env arg | .error (.number arg)
    let some network := inet_cidrtoaddr v4ll_cidr | .error (.network arg)
    .ok (⟨id, range_begin, range_end, network, 0⟩, arg)

/-- `case O_IPV4LL_GROUP`: the group that is added, and its `no_routes`. -/
def parse_option (env : OptionEnv) (arg : Option Bytes) : Except GroupError (Ipv4llGroup × Bool) :=
  match parse_option.group env arg with
  | .error e => .error e
  | .ok (group, arg) =>
      if env.s_addr group.range_end < env.s_addr group.range_begin then .error (.insane arg)
      else .ok (group, group.id = bytes "legacy")

/-! ## The range -/

/-- What `ipv4llg_pickaddr` divides by. -/
def groupSize (group : Ipv4llGroup) : UInt32 := group.range_end - group.range_begin

/-- What the configuration may rely on: a group is accepted only with a range that has an address,
a line is never refused as insane for such a range, and no accepted group makes `ipv4llg_pickaddr`
divide by zero or by anything but the number of its addresses. -/
structure RangeSane (env : OptionEnv) (arg : Option Bytes) : Prop where
  accepted : ∀ group no_routes, parse_option env arg = .ok (group, no_routes) →
    group.range_begin < group.range_end
  refused : ∀ group last, parse_option.group env arg = .ok (group, last) →
    group.range_begin < group.range_end → ∀ text, parse_option env arg ≠ .error (.insane text)
  size : ∀ group no_routes, parse_option env arg = .ok (group, no_routes) →
    (∀ r, pickOnce group r ≠ none) ∧
      (groupSize group).toNat = (Finset.Ico group.range_begin.toNat group.range_end.toNat).card

theorem swap32_toNat (a : UInt32) : (swap32 a).toNat
    = octet a 0 * 2 ^ 24 + octet a 1 * 2 ^ 16 + octet a 2 * 2 ^ 8 + octet a 3 := by
  have h0 := octet_lt a 0
  have h1 := octet_lt a 1
  have h2 := octet_lt a 2
  have h3 := octet_lt a 3
  unfold swap32
  rw [UInt32.toNat_ofNat', Nat.mod_eq_of_lt (by omega)]

theorem octets_toNat (a : UInt32) :
    octet a 3 * 2 ^ 24 + octet a 2 * 2 ^ 16 + octet a 1 * 2 ^ 8 + octet a 0 = a.toNat := by
  have ha := a.toNat_lt
  unfold octet
  omega

theorem swap32_injective : Function.Injective swap32 := by
  intro a b hab
  have heq := congrArg UInt32.toNat hab
  rw [swap32_toNat, swap32_toNat] at heq
  have hlt : ∀ i, octet a i < 256 ∧ octet b i < 256 := fun i => ⟨octet_lt a i, octet_lt b i⟩
  obtain ⟨ha0, hb0⟩ := hlt 0
  obtain ⟨ha1, hb1⟩ := hlt 1
  obtain ⟨ha2, hb2⟩ := hlt 2
  obtain ⟨ha3, hb3⟩ := hlt 3
  have h0 : octet a 0 = octet b 0 := by omega
  have h1 : octet a 1 = octet b 1 := by omega
  have h2 : octet a 2 = octet b 2 := by omega
  have h3 : octet a 3 = octet b 3 := by omega
  have hsum := octets_toNat a
  rw [h0, h1, h2, h3, octets_toNat b] at hsum
  exact UInt32.toNat_inj.mp hsum.symm

theorem s_addr_injective (env : OptionEnv) : Function.Injective env.s_addr := by
  intro a b hab
  unfold OptionEnv.s_addr at hab
  split_ifs at hab
  · exact hab
  · exact swap32_injective hab

/-- A line is accepted if its parts are, and the words of the range are in order. -/
theorem parse_option_of_group {env : OptionEnv} {arg : Option Bytes} {group : Ipv4llGroup} {last : Bytes}
    (h : parse_option.group env arg = .ok (group, last)) :
    parse_option env arg =
      if env.s_addr group.range_end < env.s_addr group.range_begin then .error (.insane last)
      else .ok (group, group.id = bytes "legacy") := by
  unfold parse_option
  rw [h]

/-- The group of an accepted line. -/
theorem group_of_parse_option {env : OptionEnv} {arg : Option Bytes} {group : Ipv4llGroup}
    {no_routes : Bool} (h : parse_option env arg = .ok (group, no_routes)) :
    ∃ last, parse_option.group env arg = .ok (group, last) ∧
      ¬ env.s_addr group.range_end < env.s_addr group.range_begin := by
  rcases hgroup : parse_option.group env arg with e | ⟨group', last⟩
  · unfold parse_option at h
    rw [hgroup] at h
    cases h
  · rw [parse_option_of_group hgroup] at h
    split_ifs at h with horder
    obtain ⟨rfl, -⟩ := Prod.mk.inj (Except.ok.inj h)
    exact ⟨last, rfl, horder⟩

/-- Words that differ compare as the addresses do, whatever the host, if reading them backwards
makes no difference. -/
theorem s_addr_order {env : OptionEnv} {a b : UInt32} (hne : a ≠ b) :
    (¬ env.s_addr b < env.s_addr a ↔ a < b) ↔
      (env.bigEndian = false → (a < b ↔ swap32 a < swap32 b)) := by
  have hflip : ∀ x y : UInt32, x ≠ y → (¬ y < x ↔ x < y) := by
    intro x y hxy
    rw [UInt32.not_lt, UInt32.lt_iff_le_and_ne]
    exact ⟨fun h => ⟨h, hxy⟩, fun h => h.1⟩
  rw [hflip _ _ (fun h => hne (s_addr_injective env h))]
  unfold OptionEnv.s_addr
  rcases env.bigEndian with _ | _
  · simp only [Bool.false_eq_true, if_false, forall_const]
    exact iff_comm
  · simp

/-- **Group ranges.** They are tested right exactly for lines whose two addresses differ, and whose
order, on a host that stores the lowest byte first, is also that of the addresses read backwards. -/
theorem range_sane_iff (env : OptionEnv) (arg : Option Bytes) :
    RangeSane env arg ↔
      ∀ group last, parse_option.group env arg = .ok (group, last) →
        group.range_begin ≠ group.range_end ∧
          (env.bigEndian = false →
            (group.range_begin < group.range_end ↔ swap32 group.range_begin < swap32 group.range_end)) := by
  constructor
  · intro hsane group last hgroup
    have hparse := parse_option_of_group hgroup
    have hne : group.range_begin ≠ group.range_end := by
      intro heq
      have hself : ¬ env.s_addr group.range_end < env.s_addr group.range_begin := by
        rw [heq]
        exact UInt32.lt_irrefl _
      rw [if_neg hself] at hparse
      have hlt := hsane.accepted group _ hparse
      rw [heq] at hlt
      exact UInt32.lt_irrefl _ hlt
    refine ⟨hne, (s_addr_order hne).mp ⟨?_, ?_⟩⟩
    · intro horder
      rw [if_neg horder] at hparse
      exact hsane.accepted group _ hparse
    · intro hlt horder
      rw [if_pos horder] at hparse
      exact hsane.refused group last hgroup hlt last hparse
  · intro hcond
    have haccepted : ∀ group no_routes, parse_option env arg = .ok (group, no_routes) →
        group.range_begin < group.range_end := by
      intro group no_routes hparse
      obtain ⟨last, hgroup, horder⟩ := group_of_parse_option hparse
      obtain ⟨hne, hback⟩ := hcond group last hgroup
      exact ((s_addr_order hne).mpr hback).mp horder
    refine ⟨haccepted, ?_, ?_⟩
    · intro group last hgroup hlt text hparse
      obtain ⟨hne, hback⟩ := hcond group last hgroup
      have horder := ((s_addr_order hne).mpr hback).mpr hlt
      rw [parse_option_of_group hgroup, if_neg horder] at hparse
      cases hparse
    · intro group no_routes hparse
      have hlt := haccepted group no_routes hparse
      have hnat := UInt32.lt_iff_toNat_lt.mp hlt
      have hsize : (groupSize group).toNat = group.range_end.toNat - group.range_begin.toNat :=
        UInt32.toNat_sub_of_le _ _ (UInt32.le_of_lt hlt)
      refine ⟨fun r => ?_, ?_⟩
      · have hne : group.range_end - group.range_begin ≠ 0 := by
          intro hzero
          have h0 : (groupSize group).toNat = 0 := congrArg UInt32.toNat hzero
          omega
        unfold pickOnce
        dsimp only
        rw [if_neg hne]
        split_ifs
        · exact Option.some_ne_none _
        · exact Option.some_ne_none _
      · rw [hsize, Nat.card_Ico]

/-- A host with the lowest byte first. -/
def littleHost : OptionEnv where
  bigEndian := false
  v4ll_cidr := [0, 0, 0, 0]
  v4ll_cidr_length := rfl

/-- From 10.22.4.255 to 10.22.7.0: the range is refused, since 255 is more than 0. -/
theorem sane_range_refused :
    ¬ ∀ (env : OptionEnv) (arg : Option Bytes), RangeSane env arg := by
  intro hall
  have hsane := hall littleHost (some (bytes "legacy 10.22.4.255 10.22.7.0 11"))
  have hgroup : parse_option.group littleHost (some (bytes "legacy 10.22.4.255 10.22.7.0 11"))
      = .ok (⟨bytes "legacy", 0x0A1604FF, 0x0A160700, 0xFFE00000, 0⟩, bytes "11") := by
    decide +kernel
  have hparse := parse_option_of_group hgroup
  rw [if_pos (by decide)] at hparse
  exact hsane.refused _ _ hgroup (by decide) _ hparse

end TestCore.Ipv4llg
