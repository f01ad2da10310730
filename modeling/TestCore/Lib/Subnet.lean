/-
Subnets of IPv4 addresses.

A netmask of length `k` is `k` ones and then zeros. With it, an address is cut at a multiple of
`2 ^ (32 - k)`: below it lies the network, and up to the next one the addresses of the subnet, the
last of which is the broadcast address.
-/
import TestCore.Lib.Inet

set_option autoImplicit false

namespace TestCore.Lib

/-- `k` ones and `32 - k` zeros. -/
def netmask (k : ℕ) : UInt32 := UInt32.ofNat (2 ^ 32 - 2 ^ (32 - k))

theorem netmask_toNat (k : ℕ) : (netmask k).toNat = 2 ^ 32 - 2 ^ (32 - k) := by
  have hpos : 0 < 2 ^ (32 - k) := Nat.two_pow_pos _
  unfold netmask
  rw [UInt32.toNat_ofNat', Nat.mod_eq_of_lt (by omega)]

/-- The bits of a netmask. -/
theorem testBit_netmask {k : ℕ} (hk : k ≤ 32) {i : ℕ} (hi : i < 32) :
    (netmask k).toNat.testBit i = decide (32 - k ≤ i) := by
  have hpos : 0 < 2 ^ (32 - k) := Nat.two_pow_pos _
  have hle : 2 ^ (32 - k) ≤ 2 ^ 32 := Nat.pow_le_pow_right (by norm_num) (by omega)
  have hsub : (netmask k).toNat = 2 ^ 32 - (2 ^ (32 - k) - 1 + 1) := by
    rw [netmask_toNat, Nat.sub_add_cancel hpos]
  rw [hsub, Nat.testBit_two_pow_sub_succ (by omega), Nat.testBit_two_pow_sub_one, decide_eq_true hi,
    Bool.true_and, ← decide_not, decide_eq_decide]
  exact Nat.not_lt

theorem netmask_compl_toNat {k : ℕ} (hk : k ≤ 32) : (~~~netmask k).toNat = 2 ^ (32 - k) - 1 := by
  have hpos : 0 < 2 ^ (32 - k) := Nat.two_pow_pos _
  have hle : 2 ^ (32 - k) ≤ 2 ^ 32 := Nat.pow_le_pow_right (by norm_num) (by omega)
  rw [UInt32.toNat_not, netmask_toNat]
  show 2 ^ 32 - 1 - _ = _
  omega

/-- The network of an address. -/
def network (k : ℕ) (a : UInt32) : UInt32 := a &&& netmask k

/-- The last address of its subnet. -/
def broadcast (k : ℕ) (a : UInt32) : UInt32 := a ||| ~~~netmask k

theorem network_toNat {k : ℕ} (hk : k ≤ 32) (a : UInt32) :
    (network k a).toNat = a.toNat / 2 ^ (32 - k) * 2 ^ (32 - k) := by
  have ha := a.toNat_lt
  unfold network
  rw [UInt32.toNat_and]
  apply Nat.eq_of_testBit_eq
  intro i
  rw [Nat.testBit_and, Nat.mul_comm, Nat.testBit_two_pow_mul, Nat.testBit_div_two_pow]
  by_cases hi : i < 32
  · rw [testBit_netmask hk hi]
    by_cases hle : 32 - k ≤ i
    · simp [hle]
    · simp [hle]
  · have hbit : a.toNat.testBit i = false :=
      Nat.testBit_lt_two_pow (lt_of_lt_of_le ha (Nat.pow_le_pow_right (by norm_num) (by omega)))
    rw [hbit, Bool.false_and]
    by_cases hle : 32 - k ≤ i
    · rw [Nat.sub_add_cancel hle, hbit, Bool.and_false]
    · simp [hle]

theorem broadcast_toNat {k : ℕ} (hk : k ≤ 32) (a : UInt32) :
    (broadcast k a).toNat = a.toNat / 2 ^ (32 - k) * 2 ^ (32 - k) + (2 ^ (32 - k) - 1) := by
  have hpos : 0 < 2 ^ (32 - k) := Nat.two_pow_pos _
  unfold broadcast
  rw [UInt32.toNat_or, netmask_compl_toNat hk, ← Nat.shiftLeft_eq,
    Nat.shiftLeft_add_eq_or_of_lt (by omega)]
  apply Nat.eq_of_testBit_eq
  intro i
  rw [Nat.testBit_or, Nat.testBit_or, Nat.testBit_shiftLeft, Nat.testBit_two_pow_sub_one,
    Nat.testBit_div_two_pow]
  by_cases hle : 32 - k ≤ i
  · simp [hle]
  · simp [Nat.lt_of_not_le hle]

/-! ## Bytes

What is done bit by bit is done byte by byte. -/

theorem octet_and (a b : UInt32) (i : ℕ) : octet (a &&& b) i = octet a i &&& octet b i := by
  unfold octet
  rw [UInt32.toNat_and, show 256 ^ i = 2 ^ (8 * i) from (pow_mul 2 8 i).symm,
    show (256 : ℕ) = 2 ^ 8 from rfl, Nat.and_div_two_pow, Nat.and_mod_two_pow]

theorem octet_or (a b : UInt32) (i : ℕ) : octet (a ||| b) i = octet a i ||| octet b i := by
  unfold octet
  rw [UInt32.toNat_or, show 256 ^ i = 2 ^ (8 * i) from (pow_mul 2 8 i).symm,
    show (256 : ℕ) = 2 ^ 8 from rfl, Nat.or_div_two_pow, Nat.or_mod_two_pow]

theorem octet_compl (a : UInt32) {i : ℕ} (hi : i < 4) : octet (~~~a) i = 255 - octet a i := by
  have ha := a.toNat_lt
  have hnot : (~~~a).toNat = 4294967295 - a.toNat := a.toNat_not
  unfold octet
  rw [hnot]
  interval_cases i <;> omega

/-- The bytes of a number that is put together from bytes. -/
theorem octets_of_toNat {a : UInt32} {b3 b2 b1 b0 : ℕ} (h2 : b2 < 256) (h1 : b1 < 256)
    (h0 : b0 < 256) (h : a.toNat = b3 * 2 ^ 24 + b2 * 2 ^ 16 + b1 * 2 ^ 8 + b0) :
    octet a 0 = b0 ∧ octet a 1 = b1 ∧ octet a 2 = b2 ∧ octet a 3 = b3 := by
  have ha := a.toNat_lt
  unfold octet
  rw [h] at ha ⊢
  simp only [Nat.reducePow] at ha ⊢
  refine ⟨?_, ?_, ?_, ?_⟩ <;> omega

/-- An address is its bytes. -/
theorem ext_octet {a b : UInt32} (h : ∀ i < 4, octet a i = octet b i) : a = b := by
  have ha := a.toNat_lt
  have hb := b.toNat_lt
  have h0 := h 0 (by decide)
  have h1 := h 1 (by decide)
  have h2 := h 2 (by decide)
  have h3 := h 3 (by decide)
  unfold octet at h0 h1 h2 h3
  exact UInt32.toNat_inj.mp (by omega)

/-- Addresses compare as their highest bytes do that differ. -/
theorem lt_iff_octet {a b : UInt32} {i : ℕ} (hi : i < 4) (hne : octet a i ≠ octet b i)
    (habove : ∀ j < 4, i < j → octet a j = octet b j) : a < b ↔ octet a i < octet b i := by
  have ha := a.toNat_lt
  have hb := b.toNat_lt
  rw [UInt32.lt_iff_toNat_lt]
  interval_cases i
  · have h1 := habove 1 (by decide) (by decide)
    have h2 := habove 2 (by decide) (by decide)
    have h3 := habove 3 (by decide) (by decide)
    unfold octet at hne h1 h2 h3 ⊢
    omega
  · have h2 := habove 2 (by decide) (by decide)
    have h3 := habove 3 (by decide) (by decide)
    unfold octet at hne h2 h3 ⊢
    omega
  · have h3 := habove 3 (by decide) (by decide)
    unfold octet at hne h3 ⊢
    omega
  · unfold octet at hne ⊢
    omega

end TestCore.Lib
