/-
Two tests whether a number is a netmask: `IsSubnetMask` (`dhcp_server_setting.c`), which is given
its text, and `mask2len` (`netmask_to_len.c`).

The one negates the mask and asks whether a power of two comes out, the other counts the ones at
the low end of its complement and asks whether anything is left above them. Both answer yes for
ones followed by zeros, and then `mask2len` is the number of ones (`netmask_tests_agree`).
-/
import TestCore.Lib.DottedQuad
import TestCore.Lib.Subnet

set_option autoImplicit false

namespace TestCore.Dhcp

open TestCore.Lib

/-- The bits of a `long`. -/
def longBits (long64 : Bool) : ℕ := if long64 then 64 else 32

theorem longBits_ge (long64 : Bool) : 32 ≤ longBits long64 := by
  cases long64 <;> decide

/-! ## `IsSubnetMask` -/

/-- `%u`: what does not fit an `unsigned long` becomes its largest value, and an `unsigned int` gets
the low bits. -/
def scanUnsigned (w : ℕ) : Bool × ℕ → UInt32
  | (neg, n) => UInt32.ofNat (if 2 ^ w ≤ n then 2 ^ w - 1 else if neg then 2 ^ w - n else n)

def CheckIPAddressFormat (strIPAddress : Bytes) : ℤ := if (inet_pton strIPAddress).isSome then 1 else 0

/-- `b += n[i] << (i * 8)`, for each of the numbers. The first one is `n[3]`. -/
def maskBits (n : Quad UInt32) : UInt32 :=
  let part (x i : UInt32) := x <<< (i * 8)
  0 + part n.fourth 0 + part n.third 1 + part n.second 2 + part n.first 3

/-- `IsSubnetMask`, with what the variables hold that nothing is assigned to. -/
def IsSubnetMask (long64 : Bool) (n : Quad UInt32) (subnet : Bytes) : ℤ :=
  if CheckIPAddressFormat subnet ≠ 0 then
    let b := ~~~maskBits (sscanfDotted (scanUnsigned (longBits long64)) subnet n) + 1
    if b &&& (b - 1) = 0 then 1 else -1
  else -1

/-! ## `mask2len` -/

/-- `while( ~mask & (1ULL<<bit)) bit++;` -/
def mask2len.loop (mask : UInt32) (bit : ℕ) : ℕ :=
  if (~~~mask).toNat.testBit bit then mask2len.loop mask (bit + 1) else bit
termination_by 32 - bit
decreasing_by
  -- The probe has 64 bits, the mask has 32.
  rename_i hbit
  have hlt : bit < 32 := by
    by_contra hge
    have hle : 2 ^ 32 ≤ 2 ^ bit := Nat.pow_le_pow_right (by norm_num) (by omega)
    rw [Nat.testBit_lt_two_pow (lt_of_lt_of_le (~~~mask).toNat_lt hle)] at hbit
    cases hbit
  omega

/-- `mask2len`, if the shift by `bit` is defined. -/
def mask2len (mask : UInt32) : Option ℤ :=
  let bit := mask2len.loop mask 0
  if 32 ≤ bit then none
  else if (~~~mask).toNat >>> bit ≠ 0 then some (-1)
  else some (32 - bit)

/-! ## What they accept -/

theorem scanUnsigned_octet (long64 : Bool) (a : UInt32) (i : ℕ) :
    scanUnsigned (longBits long64) (false, octet a i) = UInt32.ofNat (octet a i) := by
  have hlt := octet_le a i
  have hpow : 2 ^ 32 ≤ 2 ^ longBits long64 :=
    Nat.pow_le_pow_right (by norm_num) (longBits_ge long64)
  simp only [scanUnsigned]
  rw [if_neg (by omega), if_neg Bool.false_ne_true]

/-- The four numbers make the mask again. -/
theorem maskBits_octets (a : UInt32) :
    maskBits ⟨.ofNat (octet a 3), .ofNat (octet a 2), .ofNat (octet a 1), .ofNat (octet a 0)⟩ = a := by
  have ha := a.toNat_lt
  have hshift : ∀ (i : ℕ) (j : UInt32), (j * 8).toNat < 32 →
      (UInt32.ofNat (octet a i) <<< (j * 8)).toNat = octet a i * 2 ^ (j * 8).toNat % 2 ^ 32 := by
    intro i j hn
    have hle := octet_le a i
    rw [UInt32.toNat_shiftLeft, UInt32.toNat_ofNat', Nat.mod_eq_of_lt (by omega : octet a i < 2 ^ 32),
      Nat.mod_eq_of_lt hn, Nat.shiftLeft_eq]
  apply UInt32.toNat_inj.mp
  simp only [maskBits, UInt32.toNat_add]
  rw [hshift 0 0 (by decide), hshift 1 1 (by decide), hshift 2 2 (by decide), hshift 3 3 (by decide)]
  simp only [UInt32.reduceMul, UInt32.reduceToNat]
  unfold octet
  omega

/-- A number is a netmask if its negative is a power of two. -/
theorem neg_power_iff {mask : UInt32} (h : mask ≠ 0) :
    (~~~mask + 1) &&& (~~~mask + 1 - 1) = 0 ↔ ∃ k ≤ 32, mask = netmask k := by
  have hlt := mask.toNat_lt
  have hpos : 0 < mask.toNat := by
    rw [Nat.pos_iff_ne_zero]
    intro hzero
    exact h (UInt32.toNat_inj.mp hzero)
  have hneg : (~~~mask + 1).toNat = 2 ^ 32 - mask.toNat := by
    have hnot : (~~~mask).toNat = 4294967295 - mask.toNat := mask.toNat_not
    rw [UInt32.toNat_add, hnot, UInt32.toNat_one]
    omega
  have hpred : (~~~mask + 1 - 1).toNat = 2 ^ 32 - mask.toNat - 1 := by
    rw [UInt32.toNat_sub, hneg, UInt32.toNat_one]
    omega
  rw [← UInt32.toNat_inj, UInt32.toNat_and, hneg, hpred, UInt32.toNat_zero,
    Nat.and_sub_one_eq_zero_iff_isPowerOfTwo (by omega)]
  constructor
  · rintro ⟨j, hj⟩
    have hj32 : j < 32 := by
      rw [← Nat.pow_lt_pow_iff_right (by norm_num : 1 < 2), ← hj]
      omega
    refine ⟨32 - j, by omega, ?_⟩
    rw [← UInt32.toNat_inj, netmask_toNat, Nat.sub_sub_self hj32.le, ← hj]
    omega
  · rintro ⟨k, hk, rfl⟩
    refine ⟨32 - k, ?_⟩
    have hle : 2 ^ (32 - k) ≤ 2 ^ 32 := Nat.pow_le_pow_right (by norm_num) (by omega)
    have hnat := netmask_toNat k
    omega

theorem isSubnetMask_ntoa (long64 : Bool) (n : Quad UInt32) {mask : UInt32} (h : mask ≠ 0) :
    IsSubnetMask long64 n (inet_ntoa mask) = 1 ↔ ∃ k ≤ 32, mask = netmask k := by
  have hcheck : CheckIPAddressFormat (inet_ntoa mask) = 1 := by
    unfold CheckIPAddressFormat
    rw [inet_pton_ntoa]
    rfl
  have hbits : maskBits (sscanfDotted (scanUnsigned (longBits long64)) (inet_ntoa mask) n) = mask := by
    rw [sscanfDotted_ntoa]
    simp only [scanUnsigned_octet]
    exact maskBits_octets mask
  unfold IsSubnetMask
  rw [if_pos (by rw [hcheck]; norm_num), hbits, ← neg_power_iff h]
  dsimp only
  by_cases hb : (~~~mask + 1) &&& (~~~mask + 1 - 1) = 0
  · rw [if_pos hb]
    exact iff_of_true rfl hb
  · rw [if_neg hb]
    exact iff_of_false (by norm_num) hb

/-- The loop stops at the first zero of the complement. -/
theorem loop_spec (mask : UInt32) (bit : ℕ) :
    bit ≤ mask2len.loop mask bit ∧ (~~~mask).toNat.testBit (mask2len.loop mask bit) = false ∧
      ∀ i, bit ≤ i → i < mask2len.loop mask bit → (~~~mask).toNat.testBit i = true := by
  fun_induction mask2len.loop mask bit with
  | case1 bit hbit ih =>
      obtain ⟨hle, hstop, hones⟩ := ih
      refine ⟨by omega, hstop, ?_⟩
      intro i hi hlt
      rcases Nat.eq_or_lt_of_le hi with rfl | hi
      · exact hbit
      · exact hones i hi hlt
  | case2 bit hbit =>
      refine ⟨le_rfl, by simpa using hbit, ?_⟩
      intro i hi hlt
      omega

/-- The complement of the mask is nothing but those ones if the rest above them is zero. -/
theorem loop_rest_iff (mask : UInt32) :
    (~~~mask).toNat >>> mask2len.loop mask 0 = 0 ↔
      (~~~mask).toNat = 2 ^ mask2len.loop mask 0 - 1 := by
  obtain ⟨-, -, hones⟩ := loop_spec mask 0
  constructor
  · intro hrest
    apply Nat.eq_of_testBit_eq
    intro i
    rw [Nat.testBit_two_pow_sub_one]
    by_cases hi : i < mask2len.loop mask 0
    · rw [hones i (Nat.zero_le i) hi, decide_eq_true hi]
    · have hzero := congrArg (Nat.testBit · (i - mask2len.loop mask 0)) hrest
      rw [Nat.testBit_shiftRight, Nat.zero_testBit, Nat.add_sub_cancel' (by omega)] at hzero
      rw [hzero, decide_eq_false hi]
  · intro h
    have hpos : 0 < 2 ^ mask2len.loop mask 0 := Nat.two_pow_pos _
    rw [h, Nat.shiftRight_eq_div_pow, Nat.div_eq_of_lt (by omega)]

/-- A mask other than zero has a one, where the loop stops at the latest. -/
theorem loop_lt {mask : UInt32} (h : mask ≠ 0) : mask2len.loop mask 0 < 32 := by
  obtain ⟨-, -, hones⟩ := loop_spec mask 0
  by_contra hge
  refine h (UInt32.toNat_inj.mp ?_)
  have hall : (~~~mask).toNat = 2 ^ 32 - 1 := by
    apply Nat.eq_of_testBit_eq
    intro i
    rw [Nat.testBit_two_pow_sub_one]
    by_cases hi : i < 32
    · rw [hones i (Nat.zero_le i) (by omega), decide_eq_true hi]
    · rw [decide_eq_false hi]
      exact Nat.testBit_lt_two_pow (lt_of_lt_of_le (~~~mask).toNat_lt
        (Nat.pow_le_pow_right (by norm_num) (by omega)))
  have hnot : (~~~mask).toNat = 4294967295 - mask.toNat := mask.toNat_not
  have hlt := mask.toNat_lt
  rw [UInt32.toNat_zero]
  omega

/-- The complement of a mask is a row of ones if it is a netmask. -/
theorem compl_eq_iff {mask : UInt32} {bit : ℕ} (hbit : bit ≤ 32) :
    (~~~mask).toNat = 2 ^ bit - 1 ↔ mask = netmask (32 - bit) := by
  have hnot : (~~~mask).toNat = 4294967295 - mask.toNat := mask.toNat_not
  have hlt := mask.toNat_lt
  have hpos : 0 < 2 ^ bit := Nat.two_pow_pos _
  have hle : 2 ^ bit ≤ 2 ^ 32 := Nat.pow_le_pow_right (by norm_num) hbit
  rw [← UInt32.toNat_inj, netmask_toNat, Nat.sub_sub_self hbit]
  omega

theorem mask2len_netmask {k : ℕ} (hk : k ≤ 32) (h : netmask k ≠ 0) : mask2len (netmask k) = some k := by
  have hbit := loop_lt h
  have hlen : k = 32 - mask2len.loop (netmask k) 0 := by
    -- What the loop counts are the zeros of the mask.
    obtain ⟨-, hstop, hones⟩ := loop_spec (netmask k) 0
    have hcompl := netmask_compl_toNat hk
    rw [hcompl, Nat.testBit_two_pow_sub_one, decide_eq_false_iff_not] at hstop
    have hge : 32 - k ≤ mask2len.loop (netmask k) 0 := by omega
    rcases Nat.eq_or_lt_of_le hge with heq | hlt
    · omega
    · have hone := hones (32 - k) (Nat.zero_le _) hlt
      rw [hcompl, Nat.testBit_two_pow_sub_one, decide_eq_true_eq] at hone
      omega
  have hrest := (loop_rest_iff (netmask k)).mpr
    ((compl_eq_iff hbit.le).mpr (by rw [← hlen]))
  unfold mask2len
  dsimp only
  rw [if_neg (by omega), if_neg (by simpa using hrest)]
  congr 1
  omega

theorem mask2len_ne_iff {mask : UInt32} (h : mask ≠ 0) :
    mask2len mask ≠ some (-1) ↔ ∃ k ≤ 32, mask = netmask k := by
  constructor
  · intro hne
    have hbit := loop_lt h
    refine ⟨32 - mask2len.loop mask 0, by omega, (compl_eq_iff hbit.le).mp ?_⟩
    rw [← loop_rest_iff]
    by_contra hrest
    refine hne ?_
    unfold mask2len
    dsimp only
    rw [if_neg (by omega), if_pos hrest]
  · rintro ⟨k, hk, rfl⟩
    rw [mask2len_netmask hk h]
    intro hlen
    have hval := Option.some.inj hlen
    omega

/-- **The two tests agree**, on every mask other than 0.0.0.0: they accept a number of ones and then
zeros, and this number is the length. -/
theorem netmask_tests_agree (long64 : Bool) (n : Quad UInt32) {mask : UInt32} (h : mask ≠ 0) :
    (IsSubnetMask long64 n (inet_ntoa mask) = 1 ↔ mask2len mask ≠ some (-1)) ∧
      (IsSubnetMask long64 n (inet_ntoa mask) = 1 ↔ ∃ k ≤ 32, mask = netmask k) ∧
      ∀ k ≤ 32, mask = netmask k → mask2len mask = some k := by
  refine ⟨?_, isSubnetMask_ntoa long64 n h, ?_⟩
  · rw [isSubnetMask_ntoa long64 n h, mask2len_ne_iff h]
  · rintro k hk rfl
    exact mask2len_netmask hk h

theorem netmask_tests_agree_24 :
    (4294967040 : UInt32) ≠ 0 ∧
      IsSubnetMask true ⟨0, 0, 0, 0⟩ (inet_ntoa 4294967040) = 1 ∧ mask2len 4294967040 = some 24 :=
  have h := netmask_tests_agree true ⟨0, 0, 0, 0⟩ (show (4294967040 : UInt32) ≠ 0 by decide)
  ⟨by decide, h.2.1.mpr ⟨24, by decide, by decide⟩, h.2.2 24 (by decide) (by decide)⟩

end TestCore.Dhcp
