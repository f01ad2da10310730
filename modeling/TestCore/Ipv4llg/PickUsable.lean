/-
Whether a picked address can be used (`ipv4llg_pickaddr`).

The loop is to leave out the address that has just failed, and every address that some interface
has. The first of the two is a `continue`, which in a do-while goes to the test at the end: an
address that failed is tried like any other (`pickaddr_cons`). And no try is compared with the
range, neither an `or` that leaves it nor a preferred address from the file. So a pick is usable
as far as the addresses that are tried happen to be (`picks_usable_iff`).
-/
import TestCore.Ipv4llg.PickAddr
import TestCore.Ipv4llg.Restart

set_option autoImplicit false

namespace TestCore.Ipv4llg

open TestCore.Lib

/-! ## What a pick is to be -/

/-- It is not the address that failed, no interface has it, and it is in the range of the group. -/
def Usable (failed : UInt32) (found : UInt32 → Bool) (group : Ipv4llGroup) (addr : UInt32) : Prop :=
  addr ≠ failed ∧ found addr = false ∧ IN_LINKLOCAL_GROUP addr group = true

/-- Every pick is usable, whatever `random` returns, from 0 to 2^31 - 1. -/
def PicksUsable (failed : UInt32) (found : UInt32 → Bool) (group : Ipv4llGroup) : Prop :=
  ∀ random : List ℕ, (∀ r ∈ random, r < 2 ^ 31) → ∀ addr group',
    ipv4llg_pickaddr failed found random group = some (addr, group') → Usable failed found group addr

/-! ## What is tried -/

/-- The begin of the range, with an offset below its size. -/
def Formed (group : Ipv4llGroup) (addr : UInt32) : Prop :=
  ∃ k < (group.range_end - group.range_begin).toNat, k < 2 ^ 31 ∧
    addr = group.range_begin ||| UInt32.ofNat k

/-- The addresses that the loop can come by: the preferred one, if there is one, and those behind
it if it is in use. -/
def Tried (found : UInt32 → Bool) (group : Ipv4llGroup) (addr : UInt32) : Prop :=
  group.range_end ≠ group.range_begin ∧
    if group.last_address = 0 then Formed group addr
    else addr = group.last_address ∨ found group.last_address = true ∧ Formed group addr

section Pick

variable {failed : UInt32} {found : UInt32 → Bool} {group : Ipv4llGroup}

/-- **The test for the failed address changes nothing.** -/
theorem pickaddr_cons (r : ℕ) (rs : List ℕ) :
    ipv4llg_pickaddr failed found (r :: rs) group =
      (pickOnce group r).bind fun p =>
        if found p.1 then ipv4llg_pickaddr failed found rs p.2 else some p := by
  conv_lhs => unfold ipv4llg_pickaddr
  rcases pickOnce group r with _ | ⟨addr, group'⟩
  · rfl
  · dsimp only [Option.bind_some]
    rw [ite_self]

theorem size_ne_zero (hne : group.range_end ≠ group.range_begin) :
    group.range_end - group.range_begin ≠ 0 := by
  intro hzero
  exact hne (sub_eq_zero.mp hzero)

/-- A round without a preferred address. -/
theorem pickOnce_formed (hne : group.range_end ≠ group.range_begin) (hlast : group.last_address = 0)
    (r : ℕ) :
    pickOnce group r = some (group.range_begin |||
      UInt32.ofNat (r % (group.range_end - group.range_begin).toNat), group) := by
  unfold pickOnce
  dsimp only
  rw [if_neg (size_ne_zero hne), if_neg (not_not.mpr hlast)]

/-- A round with one. -/
theorem pickOnce_last (hne : group.range_end ≠ group.range_begin) (hlast : group.last_address ≠ 0)
    (r : ℕ) :
    pickOnce group r = some (group.last_address, { group with last_address := 0 }) := by
  unfold pickOnce
  dsimp only
  rw [if_neg (size_ne_zero hne), if_pos hlast]

theorem pickOnce_empty (heq : group.range_end = group.range_begin) (r : ℕ) :
    pickOnce group r = none := by
  unfold pickOnce
  dsimp only
  rw [heq, sub_self, if_pos rfl]

theorem formed_mod (hne : group.range_end ≠ group.range_begin) {r : ℕ} (hr : r < 2 ^ 31) :
    Formed group (group.range_begin |||
      UInt32.ofNat (r % (group.range_end - group.range_begin).toNat)) := by
  have hpos : 0 < (group.range_end - group.range_begin).toNat := by
    apply Nat.pos_of_ne_zero
    intro hzero
    exact size_ne_zero hne (UInt32.toNat_inj.mp hzero)
  exact ⟨_, Nat.mod_lt r hpos, (Nat.mod_le _ _).trans_lt hr, rfl⟩

/-- A pick is an address that is tried and in no use. -/
theorem tried_of_pickaddr {random : List ℕ} (hrandom : ∀ r ∈ random, r < 2 ^ 31) {addr : UInt32}
    {group' : Ipv4llGroup} (h : ipv4llg_pickaddr failed found random group = some (addr, group')) :
    Tried found group addr ∧ found addr = false := by
  induction random generalizing group with
  | nil => cases h
  | cons r rs ih =>
      have hrest : ∀ r' ∈ rs, r' < 2 ^ 31 := fun r' hr' => hrandom r' (List.mem_cons_of_mem r hr')
      rw [pickaddr_cons] at h
      by_cases hne : group.range_end = group.range_begin
      · rw [pickOnce_empty hne] at h
        cases h
      · by_cases hlast : group.last_address = 0
        · rw [pickOnce_formed hne hlast, Option.bind_some] at h
          split_ifs at h with hfound
          · exact ih hrest h
          · cases h
            refine ⟨⟨hne, ?_⟩, Bool.eq_false_iff.mpr hfound⟩
            rw [if_pos hlast]
            exact formed_mod hne (hrandom r List.mem_cons_self)
        · rw [pickOnce_last hne hlast, Option.bind_some] at h
          split_ifs at h with hfound
          · -- The preferred address is in use, and is not there any more.
            obtain ⟨⟨-, htried⟩, hfree⟩ := ih hrest h
            rw [if_pos rfl] at htried
            refine ⟨⟨hne, ?_⟩, hfree⟩
            rw [if_neg hlast]
            exact Or.inr ⟨hfound, htried⟩
          · cases h
            refine ⟨⟨hne, ?_⟩, Bool.eq_false_iff.mpr hfound⟩
            rw [if_neg hlast]
            exact Or.inl rfl

/-- A free address that can be formed is picked with its offset. -/
theorem pickaddr_formed (hne : group.range_end ≠ group.range_begin) (hlast : group.last_address = 0)
    {addr : UInt32} (hformed : Formed group addr) (hfree : found addr = false) :
    ∃ r < 2 ^ 31, ipv4llg_pickaddr failed found [r] group = some (addr, group) := by
  obtain ⟨k, hk, hlt, rfl⟩ := hformed
  refine ⟨k, hlt, ?_⟩
  rw [pickaddr_cons, pickOnce_formed hne hlast, Nat.mod_eq_of_lt hk, Option.bind_some]
  dsimp only
  rw [hfree]
  rfl

/-- And every free address that is tried is picked in some call. -/
theorem pickaddr_of_tried {addr : UInt32} (htried : Tried found group addr) (hfree : found addr = false) :
    ∃ random : List ℕ, (∀ r ∈ random, r < 2 ^ 31) ∧ ∃ group',
      ipv4llg_pickaddr failed found random group = some (addr, group') := by
  obtain ⟨hne, htried⟩ := htried
  by_cases hlast : group.last_address = 0
  · rw [if_pos hlast] at htried
    obtain ⟨r, hr, hpick⟩ := pickaddr_formed hne hlast htried hfree
    refine ⟨[r], ?_, group, hpick⟩
    intro r' hr'
    rwa [List.mem_singleton.mp hr']
  · rw [if_neg hlast] at htried
    rcases htried with rfl | ⟨hfound, hformed⟩
    · refine ⟨[0], by simp, { group with last_address := 0 }, ?_⟩
      rw [pickaddr_cons, pickOnce_last hne hlast, Option.bind_some]
      dsimp only
      rw [hfree]
      rfl
    · -- The first round is for the preferred address.
      have hsecond : ∃ r < 2 ^ 31, ipv4llg_pickaddr failed found [r] { group with last_address := 0 }
          = some (addr, { group with last_address := 0 }) :=
        @pickaddr_formed failed found { group with last_address := 0 } hne rfl addr hformed hfree
      obtain ⟨r, hr, hpick⟩ := hsecond
      refine ⟨[0, r], ?_, { group with last_address := 0 }, ?_⟩
      · intro r' hr'
        rcases List.mem_pair.mp hr' with rfl | rfl
        · norm_num
        · exact hr
      · rw [pickaddr_cons, pickOnce_last hne hlast, Option.bind_some]
        dsimp only
        rw [if_pos hfound]
        exact hpick

/-- What a pick is depends on what is tried, and on nothing else. -/
theorem picksUsable_iff_tried :
    PicksUsable failed found group ↔
      ∀ addr, Tried found group addr → found addr = false → Usable failed found group addr := by
  constructor
  · intro husable addr htried hfree
    have hpicked : ∃ random : List ℕ, (∀ r ∈ random, r < 2 ^ 31) ∧ ∃ group',
        ipv4llg_pickaddr failed found random group = some (addr, group') :=
      pickaddr_of_tried htried hfree
    obtain ⟨random, hrandom, group', hpick⟩ := hpicked
    exact husable random hrandom addr group' hpick
  · intro htried random hrandom addr group' hpick
    obtain ⟨haddr, hfree⟩ := tried_of_pickaddr hrandom hpick
    exact htried addr haddr hfree

end Pick

/-- **Usable picks.** The picks of a group are usable exactly if the address that failed is not
tried, or still in use, and all others that are tried and free are in the range. -/
theorem picks_usable_iff (failed : UInt32) (found : UInt32 → Bool) (group : Ipv4llGroup) :
    PicksUsable failed found group ↔
      (Tried found group failed → found failed = true) ∧
        ∀ addr, Tried found group addr → found addr = false → addr ≠ failed →
          IN_LINKLOCAL_GROUP addr group = true := by
  rw [picksUsable_iff_tried]
  constructor
  · intro husable
    constructor
    · intro htried
      by_contra hfree
      exact (husable failed htried (Bool.eq_false_iff.mpr hfree)).1 rfl
    · intro addr htried hfree hne
      exact (husable addr htried hfree).2.2
  · rintro ⟨hfailed, hrange⟩ addr htried hfree
    have hne : addr ≠ failed := by
      rintro rfl
      rw [hfailed htried] at hfree
      cases hfree
    exact ⟨hne, hfree, hrange addr htried hfree hne⟩

/-- The address 10.22.4.5 of the group `legacy` has failed, and `random` returns 5. -/
theorem failed_address_picked :
    ¬ ∀ (failed : UInt32) (found : UInt32 → Bool) (group : Ipv4llGroup),
      PicksUsable failed found group := by
  intro hall
  have hpick : ipv4llg_pickaddr 0x0A160405 (fun _ => false) [5] legacyGroup
      = some (0x0A160405, legacyGroup) := by decide
  have husable := hall 0x0A160405 (fun _ => false) legacyGroup [5] (by simp) _ _ hpick
  exact husable.1 rfl

/-! ## A group that covers its range

Without a preferred address, and with a range that begins at a multiple of the power of two above
its size, no try leaves the range. Then only the failed address is left to go wrong. -/

theorem tried_iff_of_covers {group : Ipv4llGroup} (found : UInt32 → Bool) (hcovers : CoversRange group)
    (hlast : group.last_address = 0) (hrange : group.range_begin < group.range_end) (addr : UInt32) :
    Tried found group addr ↔ group.range_begin ≤ addr ∧ addr < group.range_end := by
  have hne : group.range_end ≠ group.range_begin := (UInt32.ne_of_lt hrange).symm
  rw [← hcovers addr]
  unfold Tried
  rw [if_pos hlast]
  constructor
  · rintro ⟨-, k, hk, hlt, rfl⟩
    refine ⟨k, hlt, group, ?_⟩
    rw [pickOnce_formed hne hlast, Nat.mod_eq_of_lt hk]
  · rintro ⟨r, hr, group', hpick⟩
    rw [pickOnce_formed hne hlast] at hpick
    rw [← (Prod.mk.inj (Option.some.inj hpick)).1]
    exact ⟨hne, formed_mod hne hr⟩

/-- Such a group picks usable addresses exactly if the failed address is none of its range, or is
still in use. -/
theorem picksUsable_of_covers {group : Ipv4llGroup} (hcovers : CoversRange group)
    (hlast : group.last_address = 0) (hrange : group.range_begin < group.range_end) (failed : UInt32)
    (found : UInt32 → Bool) :
    PicksUsable failed found group ↔
      (group.range_begin ≤ failed → failed < group.range_end → found failed = true) := by
  have htried := tried_iff_of_covers found hcovers hlast hrange
  rw [picksUsable_iff_tried]
  constructor
  · intro husable hlow hhigh
    by_contra hfree
    exact (husable failed ((htried failed).mpr ⟨hlow, hhigh⟩) (Bool.eq_false_iff.mpr hfree)).1 rfl
  · intro hfailed addr haddr hfree
    obtain ⟨hlow, hhigh⟩ := (htried addr).mp haddr
    refine ⟨?_, hfree, ?_⟩
    · rintro rfl
      rw [hfailed hlow hhigh] at hfree
      cases hfree
    · unfold IN_LINKLOCAL_GROUP
      rw [decide_eq_true_eq]
      exact ⟨hlow, UInt32.le_of_lt hhigh⟩

end TestCore.Ipv4llg
