/-
Functions that take a message in blocks of `n`.

The message comes in pieces of any length, so what is over of a piece waits in a buffer until its block is
full. `absorb` says what is to come of that, a letter at a time: that it does not matter where the message
was cut is then clear (`absorb_append`). A program copies as much as fits at once, and its two cases are
`absorb_short`, a piece that does not fill the block, and `absorb_full`, one that just does. `absorb_blocks`
is the link to the definition of such a function on the whole message.
-/
import Mathlib

set_option autoImplicit false

namespace TestCore.Lib

section Blocks

variable {σ β : Type*} (n : ℕ) (compress : σ → List β → σ)

/-- One more letter behind those that wait. -/
def feed (p : σ × List β) (x : β) : σ × List β :=
  if p.2.length + 1 = n then (compress p.1 (p.2 ++ [x]), []) else (p.1, p.2 ++ [x])

/-- A piece of the message. -/
def absorb (p : σ × List β) (xs : List β) : σ × List β := xs.foldl (feed n compress) p

@[simp] theorem absorb_nil (p : σ × List β) : absorb n compress p [] = p := rfl

theorem absorb_cons (p : σ × List β) (x : β) (xs : List β) :
    absorb n compress p (x :: xs) = absorb n compress (feed n compress p x) xs := rfl

/-- **The pieces of a message** make no difference. -/
theorem absorb_append (p : σ × List β) (xs ys : List β) :
    absorb n compress p (xs ++ ys) = absorb n compress (absorb n compress p xs) ys := List.foldl_append

variable {n compress}

theorem absorb_short {p : σ × List β} {xs : List β} (h : p.2.length + xs.length < n) :
    absorb n compress p xs = (p.1, p.2 ++ xs) := by
  induction xs generalizing p with
  | nil => rw [absorb_nil, List.append_nil]
  | cons x xs ih =>
      rw [List.length_cons] at h
      have hone : feed n compress p x = (p.1, p.2 ++ [x]) := if_neg (by omega)
      rw [absorb_cons, hone, ih, List.append_assoc, List.singleton_append]
      rw [List.length_append, List.length_singleton]
      omega

theorem absorb_full {p : σ × List β} {xs : List β} (hp : p.2.length < n) (h : p.2.length + xs.length = n) :
    absorb n compress p xs = (compress p.1 (p.2 ++ xs), []) := by
  rcases List.eq_nil_or_concat' xs with rfl | ⟨front, x, rfl⟩
  · rw [List.length_nil] at h
    omega
  · rw [List.length_append, List.length_singleton] at h
    have hfront : absorb n compress p front = (p.1, p.2 ++ front) := absorb_short (by omega)
    rw [absorb_append, hfront, absorb_cons, absorb_nil, feed, if_pos, List.append_assoc]
    rw [List.length_append]
    omega

/-- So many letters wait for the rest of their block. -/
theorem absorb_rest_length {p : σ × List β} (hp : p.2.length < n) (xs : List β) :
    (absorb n compress p xs).2.length = (p.2.length + xs.length) % n := by
  induction xs generalizing p with
  | nil => rw [absorb_nil, List.length_nil, Nat.add_zero, Nat.mod_eq_of_lt hp]
  | cons x xs ih =>
      rw [absorb_cons, List.length_cons]
      by_cases hfull : p.2.length + 1 = n
      · have hone : feed n compress p x = (compress p.1 (p.2 ++ [x]), []) := if_pos hfull
        rw [hone, ih (by rw [List.length_nil]; omega), List.length_nil, Nat.zero_add,
          show p.2.length + (xs.length + 1) = xs.length + n by omega, Nat.add_mod_right]
      · have hone : feed n compress p x = (p.1, p.2 ++ [x]) := if_neg hfull
        rw [hone, ih (by rw [List.length_append, List.length_singleton]; omega), List.length_append,
          List.length_singleton]
        congr 1
        omega

/-- The blocks of a message that has nothing over. -/
def blocks (n : ℕ) (xs : List β) : List (List β) :=
  (List.range (xs.length / n)).map fun i => (xs.drop (n * i)).take n

theorem blocks_append {xs ys : List β} (hn : 0 < n) (hxs : xs.length = n) :
    blocks n (xs ++ ys) = xs :: blocks n ys := by
  have hcount : (xs ++ ys).length / n = ys.length / n + 1 := by
    rw [List.length_append, hxs, Nat.add_div_left _ hn]
  unfold blocks
  rw [hcount, List.range_succ_eq_map, List.map_cons, List.map_map]
  congr 1
  · rw [Nat.mul_zero, List.drop_zero, ← hxs, List.take_left]
  · refine List.map_congr_left fun i _ => ?_
    change ((xs ++ ys).drop (n * (i + 1))).take n = _
    rw [Nat.mul_succ, Nat.add_comm, ← List.drop_drop, ← hxs, List.drop_left]

/-- A message of whole blocks is taken in a block after the other. -/
theorem absorb_blocks {s : σ} {xs : List β} (hn : 0 < n) (h : n ∣ xs.length) :
    absorb n compress (s, []) xs = ((blocks n xs).foldl compress s, []) := by
  obtain ⟨k, hk⟩ := h
  induction k generalizing s xs with
  | zero =>
      rw [List.eq_nil_of_length_eq_zero hk, blocks, List.length_nil, Nat.zero_div]
      rfl
  | succ k ih =>
      rw [Nat.mul_succ] at hk
      have htake : (xs.take n).length = n := List.length_take_of_le (by omega)
      have hdrop : (xs.drop n).length = n * k := by
        rw [List.length_drop]
        omega
      have hfirst : absorb n compress (s, []) (xs.take n) = (compress s (xs.take n), []) := by
        rw [absorb_full hn (by rw [List.length_nil, Nat.zero_add, htake]), List.nil_append]
      conv_lhs => rw [← List.take_append_drop n xs]
      conv_rhs => rw [← List.take_append_drop n xs]
      rw [absorb_append, hfirst, ih hdrop, blocks_append hn htake, List.foldl_cons]

end Blocks

end TestCore.Lib
