/-
Which addresses a group can pick: one round of the loop of `ipv4llg_pickaddr`, over everything
that `random` may return.

The offset is below the size of the range, and it is put to the begin of the range with an `or`. An
`or` is a sum as long as the two have no bit in common. So the range is covered if the begin has
zeros wherever an offset may have a bit, and if it has a one there, two offsets make one address and
some address is left over (`or_covers_iff`).
-/
import TestCore.Ipv4llg.Defend

set_option autoImplicit false

namespace TestCore.Ipv4llg

open TestCore.Lib

/-! ## Offsets -/

theorem or_eq_add_of_dvd {b j k : ℕ} (h : 2 ^ k ∣ b) (hj : j < 2 ^ k) : b ||| j = b + j := by
  obtain ⟨a, rfl⟩ := h
  exact (Nat.two_pow_add_eq_or_of_lt hj a).symm

/-- A number that no power of two divides has a one below it. -/
theorem exists_testBit_of_not_dvd {b k : ℕ} (h : ¬ 2 ^ k ∣ b) : ∃ i < k, b.testBit i = true := by
  by_contra hno
  push Not at hno
  apply h
  apply Nat.dvd_of_mod_eq_zero
  apply Nat.zero_of_testBit_eq_false
  intro i
  rw [Nat.testBit_mod_two_pow]
  by_cases hi : i < k
  · simp [hno i hi]
  · simp [hi]

/-- An `or` with a bit that is there already changes nothing. -/
theorem or_two_pow_of_testBit {b i : ℕ} (h : b.testBit i = true) : b ||| 2 ^ i = b := by
  apply Nat.eq_of_testBit_eq
  intro j
  rw [Nat.testBit_or, Nat.testBit_two_pow]
  by_cases hj : i = j
  · rw [← hj, h, Bool.true_or]
  · simp [hj]

/-- **Offsets below `n`.** Put to `b` with an `or`, they make the numbers from `b` to `b + n`
exactly if `b` is a multiple of the first power of two that is `n` or more. -/
theorem or_covers_iff {b n : ℕ} :
    (∀ a, (∃ k < n, b ||| k = a) ↔ b ≤ a ∧ a < b + n) ↔ 2 ^ Nat.clog 2 n ∣ b := by
  have hpow : n ≤ 2 ^ Nat.clog 2 n := Nat.le_pow_clog Nat.one_lt_two n
  constructor
  · intro hcovers
    by_contra hno
    obtain ⟨i, hi, hbit⟩ := exists_testBit_of_not_dvd hno
    have hlt : 2 ^ i < n := (Nat.lt_clog_iff_pow_lt Nat.one_lt_two).mp hi
    have hpos : 0 < 2 ^ i := Nat.two_pow_pos i
    -- The offset `2 ^ i` is not needed, since 0 makes the same number.
    have hsub : Finset.Ico b (b + n) ⊆ ((Finset.range n).erase (2 ^ i)).image fun k => b ||| k := by
      intro a ha
      rw [Finset.mem_Ico] at ha
      obtain ⟨k, hk, rfl⟩ := (hcovers a).mpr ha
      rw [Finset.mem_image]
      by_cases hki : k = 2 ^ i
      · refine ⟨0, ?_, ?_⟩
        · rw [Finset.mem_erase, Finset.mem_range]
          omega
        · rw [hki, or_two_pow_of_testBit hbit, Nat.or_zero]
      · exact ⟨k, Finset.mem_erase.mpr ⟨hki, Finset.mem_range.mpr hk⟩, rfl⟩
    have hcard := (Finset.card_le_card hsub).trans Finset.card_image_le
    rw [Nat.card_Ico, Finset.card_erase_of_mem (Finset.mem_range.mpr hlt), Finset.card_range] at hcard
    omega
  · intro hdvd a
    constructor
    · rintro ⟨k, hk, rfl⟩
      rw [or_eq_add_of_dvd hdvd (by omega)]
      omega
    · rintro ⟨hlow, hhigh⟩
      refine ⟨a - b, by omega, ?_⟩
      rw [or_eq_add_of_dvd hdvd (by omega)]
      omega

/-! ## The range of a group -/

/-- Some value of `random`, from 0 to 2^31 - 1, makes this address. -/
def CanForm (group : Ipv4llGroup) (addr : UInt32) : Prop :=
  ∃ r < 2 ^ 31, ∃ group', pickOnce group r = some (addr, group')

/-- The addresses that can be formed are those from the begin of the range up to its end. -/
def CoversRange (group : Ipv4llGroup) : Prop :=
  ∀ addr, CanForm group addr ↔ group.range_begin ≤ addr ∧ addr < group.range_end

section Range

variable {group : Ipv4llGroup}

/-- The size of the range, as the loop works it out. -/
theorem size_toNat (hrange : group.range_begin < group.range_end) :
    (group.range_end - group.range_begin).toNat
      = group.range_end.toNat - group.range_begin.toNat := by
  apply UInt32.toNat_sub_of_le
  exact UInt32.le_of_lt hrange

/-- Every offset below the size comes up. -/
theorem canForm_iff (hpref : group.last_address = 0) (hrange : group.range_begin < group.range_end)
    (hsize : group.range_end.toNat - group.range_begin.toNat ≤ 2 ^ 31) (addr : UInt32) :
    CanForm group addr ↔
      ∃ k < group.range_end.toNat - group.range_begin.toNat, group.range_begin.toNat ||| k = addr.toNat := by
  have hlt := UInt32.lt_iff_toNat_lt.mp hrange
  have hend := group.range_end.toNat_lt
  have hnat := size_toNat hrange
  have hne : group.range_end - group.range_begin ≠ 0 := by
    intro hzero
    rw [hzero] at hnat
    have h0 : (0 : UInt32).toNat = 0 := rfl
    omega
  have hpick : ∀ r, pickOnce group r
      = some (group.range_begin ||| UInt32.ofNat
          (r % (group.range_end.toNat - group.range_begin.toNat)), group) := by
    intro r
    unfold pickOnce
    dsimp only
    rw [if_neg hne, if_neg (not_not.mpr hpref), hnat]
  have hval : ∀ k < group.range_end.toNat - group.range_begin.toNat,
      (group.range_begin ||| UInt32.ofNat k).toNat = group.range_begin.toNat ||| k := by
    intro k hk
    rw [UInt32.toNat_or, UInt32.toNat_ofNat', Nat.mod_eq_of_lt (by omega)]
  unfold CanForm
  constructor
  · rintro ⟨r, -, group', hr⟩
    rw [hpick] at hr
    have hk : r % (group.range_end.toNat - group.range_begin.toNat)
        < group.range_end.toNat - group.range_begin.toNat := Nat.mod_lt _ (by omega)
    refine ⟨_, hk, ?_⟩
    rw [← hval _ hk, (Prod.mk.inj (Option.some.inj hr)).1]
  · rintro ⟨k, hk, haddr⟩
    refine ⟨k, by omega, group, ?_⟩
    rw [hpick, Nat.mod_eq_of_lt hk]
    have heq : group.range_begin ||| UInt32.ofNat k = addr := by
      rw [← UInt32.toNat_inj, hval k hk, haddr]
    rw [heq]

end Range

/-- **Picked addresses.** A group covers its range exactly if the begin of the range is a multiple
of the first power of two that is not below the size. -/
theorem covers_range_iff (group : Ipv4llGroup) (hpref : group.last_address = 0)
    (hrange : group.range_begin < group.range_end)
    (hsize : group.range_end.toNat - group.range_begin.toNat ≤ 2 ^ 31) :
    CoversRange group ↔
      2 ^ Nat.clog 2 (group.range_end.toNat - group.range_begin.toNat) ∣ group.range_begin.toNat := by
  have hlt := UInt32.lt_iff_toNat_lt.mp hrange
  have hend := group.range_end.toNat_lt
  rw [← or_covers_iff]
  unfold CoversRange
  constructor
  · intro hcovers a
    constructor
    · rintro ⟨k, hk, rfl⟩
      -- What the `or` makes is below 2^32, and so it is an address.
      have hor : group.range_begin.toNat ||| k < 2 ^ 32 := Nat.or_lt_two_pow (by omega) (by omega)
      have haddr : (UInt32.ofNat (group.range_begin.toNat ||| k)).toNat = group.range_begin.toNat ||| k := by
        rw [UInt32.toNat_ofNat', Nat.mod_eq_of_lt hor]
      obtain ⟨hlow, hhigh⟩ := (hcovers _).mp
        ((canForm_iff hpref hrange hsize _).mpr ⟨k, hk, haddr.symm⟩)
      rw [UInt32.le_iff_toNat_le, haddr] at hlow
      rw [UInt32.lt_iff_toNat_lt, haddr] at hhigh
      omega
    · rintro ⟨hlow, hhigh⟩
      have haddr : (UInt32.ofNat a).toNat = a := by
        rw [UInt32.toNat_ofNat', Nat.mod_eq_of_lt (by omega)]
      have hform := (hcovers (UInt32.ofNat a)).mpr (by
        rw [UInt32.le_iff_toNat_le, UInt32.lt_iff_toNat_lt, haddr]
        omega)
      rw [canForm_iff hpref hrange hsize, haddr] at hform
      exact hform
  · intro hcovers addr
    rw [canForm_iff hpref hrange hsize, hcovers, UInt32.le_iff_toNat_le, UInt32.lt_iff_toNat_lt]
    omega

/-- The group `legacy` of the test configuration: 10.22.4.0 to 10.22.7.255. -/
def legacyGroup : Ipv4llGroup where
  id := bytes "legacy"
  range_begin := 0x0A160400
  range_end := 0x0A1607FF
  network := 0xFFE00000

theorem covers_range_legacy : CoversRange legacyGroup := by
  have hclog : Nat.clog 2 (legacyGroup.range_end.toNat - legacyGroup.range_begin.toNat) = 10 := by
    decide
  refine (covers_range_iff legacyGroup rfl (by decide) (by decide)).mpr ?_
  rw [hclog]
  decide

/-- The group `dynamic` of the test configuration: 198.18.0.1 to 198.18.3.255. -/
def dynamicGroup : Ipv4llGroup where
  id := bytes "dynamic"
  range_begin := 0xC6120001
  range_end := 0xC61203FF
  network := 0xFFFFF800

/-- It never forms an even address. -/
theorem dynamic_range_not_covered :
    ¬ ∀ group : Ipv4llGroup, group.last_address = 0 → group.range_begin < group.range_end →
      group.range_end.toNat - group.range_begin.toNat ≤ 2 ^ 31 → CoversRange group := by
  intro hall
  have hform := (hall dynamicGroup rfl (by decide) (by decide) 0xC6120002).mpr (by decide)
  obtain ⟨k, -, hk⟩ := (canForm_iff (by rfl) (by decide) (by decide) _).mp hform
  have hbit := congrArg (fun n => n.testBit 0) hk
  simp only [Nat.testBit_or] at hbit
  have hbegin : dynamicGroup.range_begin.toNat.testBit 0 = true := by decide
  rw [hbegin, Bool.true_or] at hbit
  exact absurd hbit (by decide)

end TestCore.Ipv4llg
