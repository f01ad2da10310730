/-
Cyclic redundancy checks of a message, most significant bit first.

The definition takes one bit of the message at a time. It is linear in exclusive or
([`crcBits_xor`]), and both the table of a routine that takes a chunk at a time and the errors that
are found follow from this. The width of the register and the polynomial are parameters.
-/
import Mathlib

set_option autoImplicit false

namespace TestCore.Lib

variable {w : ℕ} (poly : BitVec w)

/-- The register after one more bit of the message: it moves up by one place, and the polynomial is
taken away if the bit that leaves it is not the bit of the message. -/
def crcBit (c : BitVec w) (b : Bool) : BitVec w := (c <<< 1) ^^^ (if c.msb ^^ b then poly else 0#w)

/-- The register after a message. -/
def crcBits (c : BitVec w) (bs : List Bool) : BitVec w := bs.foldl (crcBit poly) c

@[simp] theorem crcBits_nil (c : BitVec w) : crcBits poly c [] = c := rfl

@[simp] theorem crcBits_cons (c : BitVec w) (b : Bool) (bs : List Bool) :
    crcBits poly c (b :: bs) = crcBits poly (crcBit poly c b) bs := rfl

theorem crcBits_append (c : BitVec w) (as bs : List Bool) :
    crcBits poly c (as ++ bs) = crcBits poly (crcBits poly c as) bs := List.foldl_append

/-! ## Linearity -/

theorem crcBit_xor (c d : BitVec w) (a b : Bool) :
    crcBit poly (c ^^^ d) (a ^^ b) = crcBit poly c a ^^^ crcBit poly d b := by
  unfold crcBit
  rw [BitVec.shiftLeft_xor_distrib, BitVec.msb_xor]
  have hxor : (if c.msb ^^ d.msb ^^ (a ^^ b) then poly else 0#w) =
      (if c.msb ^^ a then poly else 0#w) ^^^ (if d.msb ^^ b then poly else 0#w) := by
    cases c.msb <;> cases d.msb <;> cases a <;> cases b <;> simp
  rw [hxor]
  ac_rfl

/-- **A check is linear**: that of the sum of two messages is the sum of their checks. -/
theorem crcBits_xor (c d : BitVec w) {as bs : List Bool} (h : as.length = bs.length) :
    crcBits poly (c ^^^ d) (List.zipWith (· ^^ ·) as bs) = crcBits poly c as ^^^ crcBits poly d bs := by
  induction as generalizing c d bs with
  | nil =>
    rw [List.length_eq_zero_iff.mp h.symm]
    rfl
  | cons a as ih =>
    match bs with
    | b :: bs =>
      rw [List.zipWith_cons_cons, crcBits_cons, crcBits_cons, crcBits_cons, crcBit_xor]
      exact ih _ _ (by simpa using h)

/-! ## Chunks -/

/-- The first bits of a word, the most significant one first. -/
def topBits {n : ℕ} (k : ℕ) (x : BitVec n) : List Bool := (List.range k).map x.getMsbD

@[simp] theorem topBits_length {n : ℕ} (k : ℕ) (x : BitVec n) : (topBits k x).length = k := by
  rw [topBits, List.length_map, List.length_range]

/-- A word is its bits. -/
theorem topBits_inj {n : ℕ} {x y : BitVec n} (h : topBits n x = topBits n y) : x = y := by
  refine BitVec.eq_of_getMsbD_eq fun i hi => ?_
  have hget : (topBits n x)[i]? = (topBits n y)[i]? := by rw [h]
  simpa [topBits, hi] using hget

/-- The bits that leave the register cancel what the message would add. -/
theorem crcBits_topBits (c : BitVec w) (k : ℕ) : crcBits poly c (topBits k c) = c <<< k := by
  induction k with
  | zero => simp [topBits]
  | succ k ih =>
    have hsplit : topBits (k + 1) c = topBits k c ++ [c.getMsbD k] := by
      rw [topBits, List.range_succ, List.map_append]
      rfl
    rw [hsplit, crcBits_append, ih, crcBits_cons, crcBits_nil, crcBit, BitVec.msb_eq_getMsbD_zero,
      BitVec.getMsbD_shiftLeft, Nat.zero_add, Bool.xor_self, if_neg Bool.false_ne_true,
      BitVec.xor_zero, ← BitVec.shiftLeft_add]

theorem topBits_xor {n : ℕ} (k : ℕ) (x y : BitVec n) :
    topBits k (x ^^^ y) = List.zipWith (· ^^ ·) (topBits k x) (topBits k y) := by
  simp [topBits, List.zipWith_map]

/-- **A chunk at a time**: the register moves up by the length of the chunk, and the check of the
chunk and what leaves the register is added. This is the table of a routine, one entry for each
value of `x`. -/
theorem crcBits_chunk {n : ℕ} (h : n ≤ w) (c : BitVec w) (x : BitVec n) :
    crcBits poly c (topBits n x) =
      crcBits poly 0#w (topBits n (x ^^^ (c >>> (w - n)).setWidth n)) ^^^ (c <<< n) := by
  have htop : topBits n ((c >>> (w - n)).setWidth n) = topBits n c := by
    refine List.map_congr_left fun i hi => ?_
    have hi : i < n := List.mem_range.mp hi
    rw [BitVec.getMsbD_setWidth, BitVec.getMsbD_ushiftRight]
    simp only [show n - w = 0 by omega, show i + w - n = i + (w - n) by omega]
    simp [show i + (w - n) < w by omega]
  have hback : topBits n x =
      List.zipWith (· ^^ ·) (topBits n (x ^^^ (c >>> (w - n)).setWidth n)) (topBits n c) := by
    rw [← htop, ← topBits_xor, BitVec.xor_assoc, BitVec.xor_self, BitVec.xor_zero]
  calc crcBits poly c (topBits n x)
      = crcBits poly (0#w ^^^ c) (List.zipWith (· ^^ ·)
          (topBits n (x ^^^ (c >>> (w - n)).setWidth n)) (topBits n c)) := by
        rw [BitVec.zero_xor, ← hback]
    _ = crcBits poly 0#w (topBits n (x ^^^ (c >>> (w - n)).setWidth n)) ^^^
          crcBits poly c (topBits n c) := crcBits_xor poly _ _ (by simp)
    _ = _ := by rw [crcBits_topBits]

/-! ## Errors that are found

A polynomial with the constant term 1 loses nothing: only the register 0 goes to 0. Seen from the
end of a message, a register 0 was clear in all but its highest bit before the last bit, in all but
its two highest before the one before, and so on. Just behind the first wrong bit the register is
the polynomial, with its lowest bit set. -/

/-- The lowest `k` bits are clear. -/
def LowClear (k : ℕ) (c : BitVec w) : Prop := ∀ i < k, c.getLsbD i = false

variable {poly}

theorem LowClear.of_crcBit (hpoly : poly.getLsbD 0 = true) {c : BitVec w} {b : Bool} {k : ℕ}
    (hk : k < w) (h : LowClear (k + 1) (crcBit poly c b)) :
    LowClear k c ∧ (c.msb ^^ b) = false := by
  have hbit : (c.msb ^^ b) = false := by
    have := h 0 (Nat.succ_pos k)
    unfold crcBit at this
    by_contra hset
    rw [if_pos (by simpa using hset), BitVec.getLsbD_xor, hpoly, BitVec.getLsbD_shiftLeft] at this
    simp at this
  refine ⟨fun i hi => ?_, hbit⟩
  have := h (i + 1) (Nat.succ_lt_succ hi)
  unfold crcBit at this
  rw [if_neg (by simp [hbit]), BitVec.xor_zero, BitVec.getLsbD_shiftLeft] at this
  simpa [show i + 1 < w by omega] using this

theorem LowClear.of_crcBits (hpoly : poly.getLsbD 0 = true) {bs : List Bool} {c : BitVec w} {k : ℕ}
    (hk : k + bs.length ≤ w) (h : LowClear (k + bs.length) (crcBits poly c bs)) : LowClear k c := by
  induction bs generalizing c k with
  | nil => exact h
  | cons b bs ih =>
    rw [List.length_cons] at hk h
    rw [← Nat.add_assoc, Nat.add_right_comm] at hk h
    exact (LowClear.of_crcBit hpoly (by omega) (ih hk h)).1

theorem lowClear_zero (k : ℕ) : LowClear k (0#w) := fun _ _ => BitVec.getLsbD_zero

/-- What a burst leaves just behind its first bit is not cancelled by what follows. -/
theorem crcBits_true_ne_zero (hpoly : poly.getLsbD 0 = true) {bs : List Bool} (h : bs.length < w) :
    crcBits poly 0#w (true :: bs) ≠ 0#w := by
  intro hzero
  have hfirst : crcBit poly 0#w true = poly := by simp [crcBit]
  rw [crcBits_cons, hfirst] at hzero
  have hclear : LowClear 1 poly :=
    LowClear.of_crcBits hpoly (by omega) (hzero ▸ lowClear_zero (1 + bs.length))
  exact Bool.noConfusion ((hclear 0 Nat.one_pos).symm.trans hpoly)

theorem crcBit_false_eq_zero (hpoly : poly.getLsbD 0 = true) {c : BitVec w}
    (h : crcBit poly c false = 0#w) : c = 0#w := by
  have hw : 0 < w := by
    by_contra hw
    rw [BitVec.getLsbD_of_ge poly 0 (by omega)] at hpoly
    exact Bool.noConfusion hpoly
  obtain ⟨hlow, htop⟩ := LowClear.of_crcBit hpoly (k := w - 1) (by omega) (h ▸ lowClear_zero _)
  rw [Bool.xor_false, BitVec.msb_eq_getLsbD_last] at htop
  refine BitVec.eq_of_getLsbD_eq fun i hi => ?_
  rw [BitVec.getLsbD_zero]
  by_cases hlast : i < w - 1
  · exact hlow i hlast
  · rw [show i = w - 1 by omega]
    exact htop

/-- Bits that are not set bring no register to 0. -/
theorem crcBits_replicate_false_eq_zero (hpoly : poly.getLsbD 0 = true) {n : ℕ} {c : BitVec w}
    (h : crcBits poly c (List.replicate n false) = 0#w) : c = 0#w := by
  induction n generalizing c with
  | zero => exact h
  | succ n ih => exact crcBit_false_eq_zero hpoly (ih h)

/-- The bits that are set are among `n` consecutive ones. -/
def Within (n : ℕ) (bs : List Bool) : Prop := ∃ s, ∀ i, bs[i]? = some true → s ≤ i ∧ i < s + n

theorem crcBits_ne_zero_of_within (hpoly : poly.getLsbD 0 = true) {bs : List Bool}
    (hset : true ∈ bs) (h : Within w bs) : crcBits poly 0#w bs ≠ 0#w := by
  obtain ⟨s, hwindow⟩ := h
  induction bs generalizing s with
  | nil => exact absurd hset List.not_mem_nil
  | cons b bs ih =>
    cases b with
    | false =>
      have hzero : crcBit poly 0#w false = 0#w := by simp [crcBit]
      rw [crcBits_cons, hzero]
      refine ih (by simpa using hset) (s - 1) fun i hi => ?_
      have := hwindow (i + 1) hi
      omega
    | true =>
      -- The window starts here, and ends before `w` bits.
      have hstart := hwindow 0 rfl
      have hrest : bs.drop (w - 1) = List.replicate (bs.length - (w - 1)) false := by
        refine List.eq_replicate_iff.mpr ⟨List.length_drop, fun b hb => ?_⟩
        obtain ⟨i, hi⟩ := List.mem_iff_getElem?.mp hb
        rw [List.getElem?_drop] at hi
        cases b with
        | false => rfl
        | true =>
          have := hwindow (w - 1 + i + 1) hi
          omega
      rw [← List.take_append_drop (w - 1) bs, hrest, ← List.cons_append, crcBits_append]
      intro hzero
      exact crcBits_true_ne_zero hpoly (by rw [List.length_take]; omega)
        (crcBits_replicate_false_eq_zero hpoly hzero)

/-- A message after a burst of errors: the bits that are wrong are among `n` consecutive ones. -/
structure Burst (n : ℕ) (as bs : List Bool) : Prop where
  length_eq : as.length = bs.length
  ne : as ≠ bs
  window : ∃ s, ∀ i, as[i]? ≠ bs[i]? → s ≤ i ∧ i < s + n

/-- **A burst that is not longer than the register is found**, whatever the register was before. -/
theorem Burst.crcBits_ne (hpoly : poly.getLsbD 0 = true) {as bs : List Bool} (h : Burst w as bs)
    (c : BitVec w) : crcBits poly c as ≠ crcBits poly c bs := by
  intro heq
  have hget : ∀ i : ℕ, (List.zipWith (· ^^ ·) as bs)[i]? = some true → as[i]? ≠ bs[i]? := by
    intro i hi hsame
    rw [List.getElem?_zipWith, hsame] at hi
    cases hb : bs[i]? <;> simp [hb] at hi
  have hset : true ∈ List.zipWith (· ^^ ·) as bs := by
    by_contra hnone
    refine h.ne (List.ext_getElem h.length_eq fun i hi hi' => ?_)
    by_contra hne
    exact hnone (List.mem_iff_getElem.mpr ⟨i, by simp [hi, hi'], by simp [hne]⟩)
  have hwithin : Within w (List.zipWith (· ^^ ·) as bs) :=
    h.window.imp fun s hs i hi => hs i (hget i hi)
  have hzero : crcBits poly (c ^^^ c) (List.zipWith (· ^^ ·) as bs) = 0#w := by
    rw [crcBits_xor poly c c h.length_eq, heq, BitVec.xor_self]
  rw [BitVec.xor_self] at hzero
  exact crcBits_ne_zero_of_within hpoly hset hwithin hzero

end TestCore.Lib
