/-
Memory from some address on, without an end: a byte for each offset.

For code that may leave its buffer, a buffer is not enough to say what it does. `ofBytes` is a buffer
with whatever lies behind it; `load` and `store` are the accesses.
-/
import TestCore.Lib.CString

set_option autoImplicit false

namespace TestCore.Lib

/-- A byte for each offset. -/
abbrev Memory := ℕ → UInt8

/-- A buffer, and what lies behind it. -/
def ofBytes (b : Bytes) (behind : Memory) : Memory := fun i => b[i]?.getD (behind i)

/-- `n` bytes at `p`. -/
def load (m : Memory) (p n : ℕ) : Bytes := (List.range n).map fun i => m (p + i)

/-- The bytes `b` put at `p`. -/
def store (m : Memory) (p : ℕ) (b : Bytes) : Memory :=
  fun i => if p ≤ i then b[i - p]?.getD (m i) else m i

@[simp] theorem load_length (m : Memory) (p n : ℕ) : (load m p n).length = n := by
  rw [load, List.length_map, List.length_range]

@[simp] theorem load_zero (m : Memory) (p : ℕ) : load m p 0 = [] := rfl

theorem getElem?_load (m : Memory) (p n i : ℕ) :
    (load m p n)[i]? = if i < n then some (m (p + i)) else none := by
  rw [load, List.getElem?_map]
  by_cases hi : i < n
  · rw [List.getElem?_range hi, if_pos hi]
    rfl
  · rw [List.getElem?_eq_none (by simpa using hi), if_neg hi]
    rfl

theorem load_add (m : Memory) (p n k : ℕ) : load m p (n + k) = load m p n ++ load m (p + n) k := by
  rw [load, List.range_add, List.map_append, List.map_map]
  congr 1
  apply List.map_congr_left
  intro i _
  rw [Function.comp_apply, Nat.add_assoc]

theorem load_succ (m : Memory) (p n : ℕ) : load m p (n + 1) = m p :: load m (p + 1) n := by
  rw [Nat.add_comm n 1, load_add]
  rfl

/-- Two memories have the same bytes there. -/
theorem load_congr {m m' : Memory} {p n : ℕ} (h : ∀ i, p ≤ i → i < p + n → m i = m' i) :
    load m p n = load m' p n := by
  apply List.map_congr_left
  intro i hi
  rw [List.mem_range] at hi
  exact h (p + i) (by omega) (by omega)

/-- What a buffer holds. -/
theorem load_ofBytes {b : Bytes} {p n : ℕ} (h : p + n ≤ b.length) (behind : Memory) :
    load (ofBytes b behind) p n = (b.drop p).take n := by
  apply List.ext_getElem?
  intro i
  rw [getElem?_load, List.getElem?_take, List.getElem?_drop]
  by_cases hi : i < n
  · rw [if_pos hi, if_pos hi, ofBytes, List.getElem?_eq_getElem (by omega)]
    rfl
  · rw [if_neg hi, if_neg hi]

/-- The parts of a buffer. -/
theorem load_ofBytes_append (a b c : Bytes) (behind : Memory) :
    load (ofBytes (a ++ (b ++ c)) behind) a.length b.length = b := by
  rw [load_ofBytes (by simp), List.drop_left, List.take_left]

@[simp] theorem store_nil (m : Memory) (p : ℕ) : store m p [] = m := by
  funext i
  rw [store, List.getElem?_nil, Option.getD_none, ite_self]

theorem load_store (m : Memory) (p : ℕ) (b : Bytes) : load (store m p b) p b.length = b := by
  apply List.ext_getElem?
  intro i
  rw [getElem?_load]
  by_cases hi : i < b.length
  · rw [if_pos hi, store, if_pos (Nat.le_add_right p i), Nat.add_sub_cancel_left,
      List.getElem?_eq_getElem hi]
    rfl
  · rw [if_neg hi, List.getElem?_eq_none (by omega)]

theorem store_of_lt (m : Memory) {p i : ℕ} (b : Bytes) (h : i < p) : store m p b i = m i := by
  rw [store, if_neg (by omega)]

theorem store_of_le (m : Memory) {p i : ℕ} {b : Bytes} (h : p + b.length ≤ i) : store m p b i = m i := by
  unfold store
  by_cases hp : p ≤ i
  · rw [if_pos hp, List.getElem?_eq_none (by omega)]
    rfl
  · rw [if_neg hp]

/-- A store leaves what lies before it or behind it. -/
theorem load_store_of_disjoint (m : Memory) {p q n : ℕ} {b : Bytes}
    (h : q + n ≤ p ∨ p + b.length ≤ q) : load (store m p b) q n = load m q n := by
  apply load_congr
  intro i hlow hhigh
  rcases h with h | h
  · exact store_of_lt m b (by omega)
  · exact store_of_le m (by omega)

/-- Two stores, the second right behind the first. -/
theorem store_store_append (m : Memory) (p : ℕ) (a b : Bytes) :
    store (store m p a) (p + a.length) b = store m p (a ++ b) := by
  funext i
  unfold store
  by_cases hp : p ≤ i
  · by_cases hb : p + a.length ≤ i
    · rw [if_pos hb, if_pos hp, if_pos hp, List.getElem?_eq_none (l := a) (by omega),
        List.getElem?_append_right (by omega), Nat.sub_sub]
      rfl
    · rw [if_neg hb, if_pos hp, if_pos hp, List.getElem?_append_left (by omega)]
  · rw [if_neg (by omega), if_neg hp, if_neg hp]

/-! ## Strings -/

/-- The memory holds the string at `p`, with its end. -/
def StringAt (m : Memory) (p : ℕ) (s : Bytes) : Prop := NulFree s ∧ load m p (s.length + 1) = s ++ [0]

theorem StringAt.cstr_load {m : Memory} {p : ℕ} {s : Bytes} (h : StringAt m p s) {n : ℕ}
    (hn : s.length < n) : cstr (load m p n) = s := by
  obtain ⟨k, rfl⟩ := Nat.exists_eq_add_of_lt hn
  rw [show s.length + k + 1 = s.length + 1 + k by omega, load_add, h.2, List.append_assoc,
    cstr_append h.1, List.singleton_append, cstr_zero_cons, List.append_nil]

/-- There is one string at a place. -/
theorem StringAt.unique {m : Memory} {p : ℕ} {s t : Bytes} (hs : StringAt m p s) (ht : StringAt m p t) :
    s = t := by
  rw [← hs.cstr_load (n := s.length + t.length + 1) (by omega),
    ht.cstr_load (n := s.length + t.length + 1) (by omega)]

theorem stringAt_store (m : Memory) (p : ℕ) {s : Bytes} (hs : NulFree s) :
    StringAt (store m p (s ++ [0])) p s := by
  have hload := load_store m p (s ++ [0])
  rw [List.length_append, List.length_singleton] at hload
  exact ⟨hs, hload⟩

theorem StringAt.store {m : Memory} {p q : ℕ} {s b : Bytes} (h : StringAt m p s)
    (hdisjoint : p + s.length < q ∨ q + b.length ≤ p) : StringAt (store m q b) p s := by
  refine ⟨h.1, ?_⟩
  rw [load_store_of_disjoint m (by omega), h.2]

end TestCore.Lib
