/-
UTF-8 for 16-bit code units: the standard encoding of a unit in one, two or three bytes, and of a
list of units one behind the other.

A surrogate is encoded like any other unit here. For the units that are characters the encoding is
that of Lean's own strings (`utf8Unit_eq_utf8EncodeChar`).
-/
import TestCore.Lib.CString

set_option autoImplicit false

namespace TestCore.Lib

/-! ## Blocks -/

section Blocks

variable {α β : Type*} {f g : α → List β}

/-- Blocks of the same lengths make the same list only if they are the same. -/
theorem flatMap_eq_iff (hlen : ∀ a, (f a).length = (g a).length) {l : List α} :
    l.flatMap f = l.flatMap g ↔ ∀ a ∈ l, f a = g a := by
  induction l with
  | nil => simp
  | cons a l ih =>
      rw [List.flatMap_cons, List.flatMap_cons, List.forall_mem_cons, ← ih]
      constructor
      · exact fun h => List.append_inj h (hlen a)
      · rintro ⟨hhead, htail⟩
        rw [hhead, htail]

theorem flatMap_length_eq (hlen : ∀ a, (f a).length = (g a).length) (l : List α) :
    (l.flatMap f).length = (l.flatMap g).length := by
  rw [List.length_flatMap, List.length_flatMap]
  congr 1
  exact List.map_congr_left fun a _ => hlen a

end Blocks

/-! ## The encoding -/

/-- The UTF-8 encoding of a unit. -/
def utf8Unit (u : UInt16) : Bytes :=
  let v := u.toNat
  if v ≤ 0x7f then [UInt8.ofNat v]
  else if v ≤ 0x7ff then [UInt8.ofNat (v / 64 + 0xc0), UInt8.ofNat (v % 64 + 0x80)]
  else [UInt8.ofNat (v / 4096 + 0xe0), UInt8.ofNat (v / 64 % 64 + 0x80), UInt8.ofNat (v % 64 + 0x80)]

def utf8 (units : List UInt16) : Bytes := units.flatMap utf8Unit

/-- It is the encoding of Lean's strings. -/
theorem utf8Unit_eq_utf8EncodeChar {c : Char} (h : c.val.toNat < 2 ^ 16) :
    utf8Unit (UInt16.ofNat c.val.toNat) = String.utf8EncodeChar c := by
  have hval : (UInt16.ofNat c.val.toNat).toNat = c.val.toNat := by
    rw [UInt16.toNat_ofNat', Nat.mod_eq_of_lt h]
  unfold utf8Unit String.utf8EncodeChar
  dsimp only
  rw [hval]
  generalize c.val.toNat = v at h
  by_cases h1 : v ≤ 0x7f
  · rw [if_pos h1, if_pos h1]
  · by_cases h2 : v ≤ 0x7ff
    · rw [if_neg h1, if_neg h1, if_pos h2, if_pos h2, Nat.mod_eq_of_lt (by omega : v / 64 < 0x20)]
    · rw [if_neg h1, if_neg h1, if_neg h2, if_neg h2, if_pos (by omega),
        Nat.mod_eq_of_lt (by omega : v / 4096 < 0x10)]

theorem ofNat_ne_zero {n : ℕ} (hpos : 0 < n) (hlt : n < 256) : UInt8.ofNat n ≠ 0 := by
  intro h
  have hnat := congrArg UInt8.toNat h
  rw [UInt8.toNat_ofNat', Nat.mod_eq_of_lt hlt] at hnat
  have h0 : (0 : UInt8).toNat = 0 := rfl
  omega

/-- The bytes that a unit other than zero is cut into are not zero. -/
theorem block_nulFree {u : UInt16} (h : u ≠ 0) (mid : ℕ) (hpos : 0 < mid) (hlt : mid < 256) :
    NulFree (if u.toNat ≤ 0x7f then [UInt8.ofNat u.toNat]
      else if u.toNat ≤ 0x7ff then
        [UInt8.ofNat (u.toNat / 64 + 0xc0), UInt8.ofNat (u.toNat % 64 + 0x80)]
      else
        [UInt8.ofNat (u.toNat / 4096 + 0xe0), UInt8.ofNat mid, UInt8.ofNat (u.toNat % 64 + 0x80)]) := by
  have hu : 0 < u.toNat := by
    apply Nat.pos_of_ne_zero
    intro h0
    exact h (UInt16.toNat_inj.mp h0)
  have hu' := u.toNat_lt
  split_ifs with h1 h2
  · intro c hc
    rw [List.mem_singleton.mp hc]
    exact ofNat_ne_zero hu (by omega)
  · intro c hc
    rcases List.mem_pair.mp hc with rfl | rfl
    · exact ofNat_ne_zero (by omega) (by omega)
    · exact ofNat_ne_zero (by omega) (by omega)
  · intro c hc
    rw [List.mem_cons, List.mem_pair] at hc
    rcases hc with rfl | rfl | rfl
    · exact ofNat_ne_zero (by omega) (by omega)
    · exact ofNat_ne_zero hpos hlt
    · exact ofNat_ne_zero (by omega) (by omega)

theorem utf8Unit_nulFree {u : UInt16} (h : u ≠ 0) : NulFree (utf8Unit u) :=
  block_nulFree h (u.toNat / 64 % 64 + 0x80) (by omega) (by omega)

theorem utf8_nulFree {units : List UInt16} (h : 0 ∉ units) : NulFree (utf8 units) := by
  intro c hc
  obtain ⟨u, hu, hcu⟩ := List.mem_flatMap.mp hc
  exact utf8Unit_nulFree (ne_of_mem_of_not_mem hu h) c hcu

end TestCore.Lib
