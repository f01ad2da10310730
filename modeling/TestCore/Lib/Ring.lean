/-
Circular buffers: a list in a row of cells that goes on at the first cell behind the last one.

The list begins at the cell `head` and has `len` elements, so it is the first `len` elements of the
row turned by `head` (`ringContents`). Code that fills and empties such a buffer copies in straight
lines, between one place and the end of the row. The lemmas say what a straight copy out of the
buffer reads, what the list is after one into it, and what it is after a place moved forward or back;
places wrap at most once (`wrap`), so none of the statements speaks of a remainder.
-/
import Mathlib.Data.List.Rotate
import Mathlib.Tactic.Common

set_option autoImplicit false

namespace TestCore.Lib

section Ring

variable {α : Type*}

/-- The elements from the cell `head` on, `len` of them, around the end of the row. -/
def ringContents (cells : List α) (head len : ℕ) : List α := (cells.rotate head).take len

/-- A place that may have stepped behind the last of `n` cells. -/
def wrap (n p : ℕ) : ℕ := if n ≤ p then p - n else p

/-- How far it is from `head` on to `tail`. -/
def ringLen (n head tail : ℕ) : ℕ := if tail < head then n + tail - head else tail - head

/-- A straight copy of `data` into the cells from `p` on. -/
def splice (cells : List α) (p : ℕ) (data : List α) : List α :=
  cells.take p ++ data ++ cells.drop (p + data.length)

/-! ## Places -/

theorem wrap_of_lt {n p : ℕ} (h : p < n) : wrap n p = p := if_neg (by omega)

theorem wrap_lt {n p : ℕ} (h : p < 2 * n) : wrap n p < n := by
  unfold wrap
  split_ifs with hp
  · omega
  · omega

theorem wrap_eq_mod {n p : ℕ} (h : p < 2 * n) : wrap n p = p % n := by
  unfold wrap
  split_ifs with hp
  · rw [Nat.mod_eq_sub_mod hp, Nat.mod_eq_of_lt (by omega)]
  · rw [Nat.mod_eq_of_lt (by omega)]

theorem ringLen_lt {n head tail : ℕ} (hhead : head < n) (htail : tail < n) :
    ringLen n head tail < n := by
  unfold ringLen
  split_ifs with h
  · omega
  · omega

/-- The list ends where it begins only if it is empty. -/
theorem ringLen_eq_zero {n head tail : ℕ} (hhead : head < n) :
    ringLen n head tail = 0 ↔ head = tail := by
  unfold ringLen
  split_ifs with h
  · omega
  · omega

/-- The place behind the list, from its length. -/
theorem wrap_add_ringLen {n head tail : ℕ} (hhead : head < n) (htail : tail < n) :
    wrap n (head + ringLen n head tail) = tail := by
  unfold ringLen wrap
  split_ifs with h h'
  · omega
  · omega
  · omega
  · omega

/-- The list gets longer at its end. -/
theorem ringLen_wrap_tail {n head tail k : ℕ} (hhead : head < n) (htail : tail < n)
    (hk : ringLen n head tail + k < n) :
    ringLen n head (wrap n (tail + k)) = ringLen n head tail + k := by
  unfold ringLen at hk
  unfold ringLen wrap
  split_ifs at hk ⊢ with h h' h''
  all_goals omega

/-- The list gets shorter at its beginning. -/
theorem ringLen_wrap_head {n head tail k : ℕ} (hhead : head < n) (htail : tail < n)
    (hk : k ≤ ringLen n head tail) :
    ringLen n (wrap n (head + k)) tail = ringLen n head tail - k := by
  unfold ringLen at hk
  unfold ringLen wrap
  split_ifs at hk ⊢ with h h' h''
  all_goals omega

/-! ## The list -/

theorem ringContents_length {cells : List α} {head len : ℕ} (h : len ≤ cells.length) :
    (ringContents cells head len).length = len := by
  rw [ringContents, List.length_take, List.length_rotate, Nat.min_eq_left h]

@[simp] theorem ringContents_zero (cells : List α) (head : ℕ) : ringContents cells head 0 = [] :=
  List.take_zero

/-- The element at an offset. -/
theorem getElem?_ringContents {cells : List α} {head len i : ℕ} (hhead : head < cells.length)
    (hi : i < len) (hlen : len ≤ cells.length) :
    (ringContents cells head len)[i]? = cells[wrap cells.length (head + i)]? := by
  rw [ringContents, List.getElem?_take, if_pos hi, List.getElem?_rotate (by omega),
    wrap_eq_mod (by omega), Nat.add_comm]

/-- Two lists of one length that agree at each offset. -/
theorem ringContents_eq {cells : List α} {head len : ℕ} {l : List α} (hhead : head < cells.length)
    (hlen : len ≤ cells.length) (hl : l.length = len)
    (h : ∀ i, i < len → cells[wrap cells.length (head + i)]? = l[i]?) :
    ringContents cells head len = l := by
  apply List.ext_getElem?
  intro i
  by_cases hi : i < len
  · rw [getElem?_ringContents hhead hi hlen, h i hi]
  · rw [List.getElem?_eq_none (by rw [ringContents_length hlen]; omega),
      List.getElem?_eq_none (by omega)]

/-- A list that does not reach the end of the row lies there in one piece. -/
theorem ringContents_straight {cells : List α} {head len : ℕ} (h : head + len ≤ cells.length) :
    ringContents cells head len = (cells.drop head).take len := by
  rw [ringContents, List.rotate_eq_drop_append_take (by omega),
    List.take_append_of_le_length (by rw [List.length_drop]; omega)]

/-- What a straight copy out of the buffer reads. -/
theorem take_ringContents {cells : List α} {head len k : ℕ} (hk : k ≤ len)
    (hline : head + k ≤ cells.length) :
    (ringContents cells head len).take k = (cells.drop head).take k := by
  rw [← ringContents_straight hline, ringContents, ringContents, List.take_take, Nat.min_eq_left hk]

/-- The list without its first elements begins at a later place. -/
theorem drop_ringContents {cells : List α} {head len k : ℕ} (hhead : head < cells.length)
    (hlen : len ≤ cells.length) (hk : k ≤ len) :
    (ringContents cells head len).drop k
      = ringContents cells (wrap cells.length (head + k)) (len - k) := by
  have hmod : wrap cells.length (head + k) = (head + k) % cells.length := by
    rw [wrap_eq_mod]
    omega
  rw [ringContents, ringContents, List.drop_take, hmod, List.rotate_mod, ← List.rotate_rotate]
  by_cases hfull : k < cells.length
  · rw [List.rotate_eq_drop_append_take (l := cells.rotate head) (by rw [List.length_rotate]; omega),
      List.take_append_of_le_length]
    rw [List.length_drop, List.length_rotate]
    omega
  · rw [show len - k = 0 by omega, List.take_zero, List.take_zero]

/-! ## Copies into the row -/

theorem splice_length {cells data : List α} {p : ℕ} (h : p + data.length ≤ cells.length) :
    (splice cells p data).length = cells.length := by
  rw [splice, List.length_append, List.length_append, List.length_take, List.length_drop]
  omega

/-- The cells after a copy. -/
theorem getElem?_splice {cells data : List α} {p : ℕ} (h : p + data.length ≤ cells.length) (i : ℕ) :
    (splice cells p data)[i]? =
      if p ≤ i ∧ i < p + data.length then data[i - p]? else cells[i]? := by
  have htake : (cells.take p).length = p := List.length_take_of_le (by omega)
  rw [splice]
  by_cases hlow : i < p
  · rw [if_neg (by omega), List.append_assoc, List.getElem?_append_left (by rw [htake]; exact hlow),
      List.getElem?_take, if_pos hlow]
  · by_cases hhigh : i < p + data.length
    · rw [if_pos ⟨by omega, hhigh⟩, List.getElem?_append_left (by rw [List.length_append, htake]; omega),
        List.getElem?_append_right (by rw [htake]; omega), htake]
    · rw [if_neg (by omega), List.getElem?_append_right (by rw [List.length_append, htake]; omega),
        List.length_append, htake, List.getElem?_drop]
      congr 1
      omega

@[simp] theorem splice_nil {cells : List α} (p : ℕ) : splice cells p [] = cells := by
  rw [splice, List.append_nil, List.length_nil, Nat.add_zero, List.take_append_drop]

/-- A straight copy behind the list makes it longer. -/
theorem ringContents_splice_tail {cells data : List α} {head tail : ℕ} (hhead : head < cells.length)
    (htail : tail < cells.length) (hline : tail + data.length ≤ cells.length)
    (hroom : ringLen cells.length head tail + data.length ≤ cells.length) :
    ringContents (splice cells tail data) head (ringLen cells.length head tail + data.length)
      = ringContents cells head (ringLen cells.length head tail) ++ data := by
  have hn : (splice cells tail data).length = cells.length := splice_length hline
  have hlen := ringLen_lt hhead htail
  have hplace := wrap_add_ringLen hhead htail
  refine ringContents_eq (by omega) (by omega) ?_ fun i hi => ?_
  · rw [List.length_append, ringContents_length (by omega)]
  · rw [hn, getElem?_splice hline]
    rcases Nat.lt_or_ge i (ringLen cells.length head tail) with hold | hnew
    · have hout : ¬ (tail ≤ wrap cells.length (head + i) ∧
          wrap cells.length (head + i) < tail + data.length) := by
        unfold wrap at hplace ⊢
        split_ifs at hplace ⊢
        all_goals omega
      rw [if_neg hout, List.getElem?_append_left (by rw [ringContents_length (by omega)]; exact hold),
        getElem?_ringContents hhead hold (by omega)]
    · have hin : wrap cells.length (head + i) = tail + (i - ringLen cells.length head tail) ∨
          wrap cells.length (head + i) + cells.length
            = tail + (i - ringLen cells.length head tail) := by
        unfold wrap at hplace ⊢
        split_ifs at hplace ⊢
        all_goals omega
      have hat : wrap cells.length (head + i) = tail + (i - ringLen cells.length head tail) := by
        omega
      have hold : (ringContents cells head (ringLen cells.length head tail)).length
          = ringLen cells.length head tail := ringContents_length (by omega)
      rw [hat, if_pos (by omega), List.getElem?_append_right (by rw [hold]; exact hnew), hold,
        Nat.add_sub_cancel_left]

/-- The cell behind the list is not part of it. -/
theorem ringContents_set_tail {cells : List α} {head tail : ℕ} (a : α) (hhead : head < cells.length)
    (htail : tail < cells.length) :
    ringContents (cells.set tail a) head (ringLen cells.length head tail)
      = ringContents cells head (ringLen cells.length head tail) := by
  have hlen := ringLen_lt hhead htail
  have hplace := wrap_add_ringLen hhead htail
  refine ringContents_eq (by rw [List.length_set]; exact hhead) (by rw [List.length_set]; omega)
    (ringContents_length (by omega)) fun i hi => ?_
  have hne : tail ≠ wrap cells.length (head + i) := by
    unfold wrap at hplace ⊢
    split_ifs at hplace ⊢
    all_goals omega
  rw [List.length_set, List.getElem?_set_ne hne, getElem?_ringContents hhead hi (by omega)]

/-- The cell before the first one, around the beginning of the row. -/
def before (n p : ℕ) : ℕ := if p = 0 then n - 1 else p - 1

theorem before_lt {n p : ℕ} (hp : p < n) : before n p < n := by
  unfold before
  split_ifs with h
  · omega
  · omega

theorem ringLen_before {n head tail : ℕ} (hhead : head < n)
    (hroom : ringLen n head tail + 1 < n) :
    ringLen n (before n head) tail = ringLen n head tail + 1 := by
  unfold ringLen at hroom
  unfold ringLen before
  split_ifs at hroom ⊢
  all_goals omega

/-- An element put into the cell before the first one. -/
theorem ringContents_before {cells : List α} {head len : ℕ} (a : α) (hhead : head < cells.length)
    (hroom : len < cells.length) :
    ringContents (cells.set (before cells.length head) a) (before cells.length head) (len + 1)
      = a :: ringContents cells head len := by
  have hb := before_lt hhead
  refine ringContents_eq (by rw [List.length_set]; exact hb) (by rw [List.length_set]; omega) ?_
    fun i hi => ?_
  · rw [List.length_cons, ringContents_length (by omega)]
  · rw [List.length_set]
    rcases i with _ | i
    · rw [Nat.add_zero, wrap_of_lt hb, List.getElem?_set_self (by omega), List.getElem?_cons_zero]
    · have hat : wrap cells.length (before cells.length head + (i + 1))
          = wrap cells.length (head + i) := by
        unfold before wrap
        split_ifs
        all_goals omega
      have hne : before cells.length head ≠ wrap cells.length (head + i) := by
        unfold before wrap
        split_ifs
        all_goals omega
      rw [hat, List.getElem?_set_ne hne, List.getElem?_cons_succ,
        getElem?_ringContents hhead (by omega) (by omega)]

end Ring

end TestCore.Lib
