/-
The first occurrence of one list in another, as `strstr`, `strchr` and their relatives on
blocks of memory find it.

`findSub pat s` is the offset. The facts are the ones a scanner is verified with: an offset
that is found is an occurrence and the first one (`findSub_eq_some`), nothing is found exactly
if there is none (`findSub_eq_none`), and if no occurrence begins in the text before a known
one, that one is found (`findSub_append`). A pattern without the character `m` does not reach
over an `m` (`not_prefix_over`), which is how a text is known to have no occurrence that begins
in it and ends behind it.
-/
import TestCore.Lib.CString

set_option autoImplicit false

namespace TestCore.Lib

section Search

variable {α : Type*}

/-- A pattern without `m` that begins before an `m` ends before it. -/
theorem prefix_of_prefix_over {pat a s : List α} {m : α} (hm : m ∉ pat) (h : pat <+: a ++ m :: s) :
    pat <+: a := by
  induction pat generalizing a with
  | nil => exact List.nil_prefix
  | cons c pat ih =>
      rcases a with _ | ⟨x, a⟩
      · obtain ⟨rfl, -⟩ := List.cons_prefix_cons.mp h
        exact absurd List.mem_cons_self hm
      · rw [List.cons_append, List.cons_prefix_cons] at h
        obtain ⟨rfl, hrest⟩ := h
        rw [List.cons_prefix_cons]
        exact ⟨rfl, ih (fun hmem => hm (List.mem_cons_of_mem c hmem)) hrest⟩

/-- No occurrence begins in `a` if `a` has none and an `m` follows that the pattern has not. -/
theorem not_prefix_over {pat a s : List α} {m : α} (hm : m ∉ pat) (ha : ¬ pat <:+: a) {j : ℕ}
    (hj : j ≤ a.length) : ¬ pat <+: (a ++ m :: s).drop j := by
  intro h
  rw [List.drop_append_of_le_length hj] at h
  exact ha ((prefix_of_prefix_over hm h).isInfix.trans (List.drop_suffix j a).isInfix)

/-- An occurrence of a pattern without `m` lies before an `m` or behind it. -/
theorem infix_append_mark {pat a s : List α} {m : α} (hm : m ∉ pat) :
    pat <:+: a ++ m :: s ↔ pat <:+: a ∨ pat <:+: s := by
  constructor
  · rintro ⟨u, v, huv⟩
    rw [List.append_assoc] at huv
    have hpre : pat <+: (a ++ m :: s).drop u.length := by
      rw [← huv, List.drop_left]
      exact List.prefix_append _ _
    by_cases hu : u.length ≤ a.length
    · left
      by_contra hno
      exact not_prefix_over hm hno hu hpre
    · right
      rw [List.drop_append, List.drop_of_length_le (by omega), List.nil_append] at hpre
      obtain ⟨n, hn⟩ : ∃ n, u.length - a.length = n + 1 := ⟨u.length - a.length - 1, by omega⟩
      rw [hn, List.drop_succ_cons] at hpre
      exact hpre.isInfix.trans (List.drop_suffix n s).isInfix
  · rintro (h | h)
    · exact h.trans (List.prefix_append _ _).isInfix
    · exact h.trans ((List.suffix_cons m s).trans (List.suffix_append _ _)).isInfix

/-- A pattern does not begin where its first character is not. -/
theorem infix_append_of_not_mem {f : α} {pat u s : List α} (hu : f ∉ u) :
    f :: pat <:+: u ++ s ↔ f :: pat <:+: s := by
  induction u with
  | nil => rfl
  | cons c u ih =>
      rw [List.mem_cons, not_or] at hu
      rw [List.cons_append, List.infix_cons_iff, ih hu.2, List.cons_prefix_cons]
      simp [hu.1]

/-- An occurrence begins where its first character is. -/
theorem start_of_prefix_drop {f : α} {pat u mid s : List α} (hu : f ∉ u) (hmid : f ∉ mid) {i : ℕ}
    (h : f :: pat <+: (u ++ f :: (mid ++ s)).drop i) :
    i = u.length ∨ u.length + mid.length + 1 ≤ i := by
  have hget : (u ++ f :: (mid ++ s))[i]? = some f := by
    obtain ⟨t, ht⟩ := h
    rw [← List.head?_drop, ← ht]
    rfl
  by_contra hno
  push Not at hno
  obtain ⟨hne, hlt⟩ := hno
  by_cases hi : i < u.length
  · rw [List.getElem?_append_left hi] at hget
    exact hu (List.mem_of_getElem? hget)
  · obtain ⟨n, hn⟩ : ∃ n, i - u.length = n + 1 := ⟨i - u.length - 1, by omega⟩
    rw [List.getElem?_append_right (by omega), hn, List.getElem?_cons_succ,
      List.getElem?_append_left (by omega)] at hget
    exact hmid (List.mem_of_getElem? hget)

variable [DecidableEq α]

/-- Where `pat` first occurs in a list. -/
def findSub (pat : List α) : List α → Option ℕ
  | [] => if pat = [] then some 0 else none
  | c :: s => if pat <+: c :: s then some 0 else (findSub pat s).map (· + 1)

/-- **What is found is the first occurrence.** -/
theorem findSub_eq_some {pat s : List α} {i : ℕ} :
    findSub pat s = some i ↔ i ≤ s.length ∧ pat <+: s.drop i ∧ ∀ j < i, ¬ pat <+: s.drop j := by
  induction s generalizing i with
  | nil =>
      unfold findSub
      constructor
      · intro h
        split_ifs at h with hpat
        obtain rfl := Option.some.inj h
        exact ⟨le_rfl, by simp [hpat], fun j hj => absurd hj (Nat.not_lt_zero j)⟩
      · rintro ⟨hi, hpre, -⟩
        obtain rfl : i = 0 := Nat.le_zero.mp hi
        rw [if_pos (List.prefix_nil.mp hpre)]
  | cons c s ih =>
      unfold findSub
      by_cases hhere : pat <+: c :: s
      · rw [if_pos hhere, Option.some.injEq]
        constructor
        · rintro rfl
          exact ⟨Nat.zero_le _, hhere, fun j hj => absurd hj (Nat.not_lt_zero j)⟩
        · rintro ⟨-, -, hfirst⟩
          by_contra hne
          exact hfirst 0 (by omega) hhere
      · rw [if_neg hhere, Option.map_eq_some_iff]
        constructor
        · rintro ⟨k, hk, rfl⟩
          obtain ⟨hle, hpre, hfirst⟩ := ih.mp hk
          refine ⟨Nat.succ_le_succ hle, hpre, ?_⟩
          intro j hj
          rcases j with _ | j
          · exact hhere
          · exact hfirst j (by omega)
        · rintro ⟨hle, hpre, hfirst⟩
          rcases i with _ | i
          · exact absurd hpre hhere
          · refine ⟨i, ih.mpr ⟨Nat.le_of_succ_le_succ hle, hpre, ?_⟩, rfl⟩
            intro j hj
            exact hfirst (j + 1) (by omega)

theorem findSub_eq_none {pat s : List α} :
    findSub pat s = none ↔ ∀ j ≤ s.length, ¬ pat <+: s.drop j := by
  constructor
  · intro hnone
    by_contra hex
    push Not at hex
    -- The least offset of an occurrence would have been found.
    classical
    obtain ⟨hle, hpre⟩ := Nat.find_spec hex
    have hfound : findSub pat s = some (Nat.find hex) := by
      refine findSub_eq_some.mpr ⟨hle, hpre, ?_⟩
      intro j hj hj'
      exact Nat.find_min hex hj ⟨by omega, hj'⟩
    rw [hnone] at hfound
    exact absurd hfound nofun
  · intro hnone
    rcases hfind : findSub pat s with _ | i
    · rfl
    · obtain ⟨hle, hpre, -⟩ := findSub_eq_some.mp hfind
      exact absurd hpre (hnone i hle)

/-- Something is found exactly if there is an occurrence. -/
theorem findSub_eq_none_iff_not_within {pat s : List α} : findSub pat s = none ↔ ¬ pat <:+: s := by
  rw [findSub_eq_none]
  constructor
  · rintro hnone ⟨u, v, huv⟩
    apply hnone u.length (by rw [← huv]; simp)
    rw [← huv, List.append_assoc, List.drop_left]
    exact List.prefix_append _ _
  · intro hno j _ hpre
    exact hno (hpre.isInfix.trans (List.drop_suffix j _).isInfix)

/-- Nothing is found in a block that is shorter than the pattern. -/
theorem findSub_short {pat s : List α} (h : s.length < pat.length) :
    findSub pat s = none := by
  rw [findSub_eq_none]
  intro j _ hpre
  have hle := hpre.length_le
  rw [List.length_drop] at hle
  omega

theorem findSub_at_start {pat s : List α} (h : pat <+: s) : findSub pat s = some 0 := by
  rw [findSub_eq_some]
  exact ⟨Nat.zero_le _, h, fun j hj => absurd hj (Nat.not_lt_zero j)⟩

/-- A known occurrence is found if none begins before it. -/
theorem findSub_append {pat a s : List α} (h : pat <+: s)
    (hfirst : ∀ j < a.length, ¬ pat <+: (a ++ s).drop j) : findSub pat (a ++ s) = some a.length := by
  rw [findSub_eq_some, List.drop_left]
  exact ⟨by simp, h, hfirst⟩

/-- The first `m` of a list. -/
theorem findSub_singleton {m : α} {a s : List α} (ha : m ∉ a) :
    findSub [m] (a ++ m :: s) = some a.length := by
  refine findSub_append (by simp) ?_
  intro j hj h
  rw [List.drop_append_of_le_length hj.le] at h
  obtain ⟨c, t, hdrop⟩ : ∃ c t, a.drop j = c :: t :=
    List.exists_cons_of_ne_nil (by simpa using hj)
  rw [hdrop, List.cons_append, List.cons_prefix_cons] at h
  have hmem : m ∈ a.drop j := by
    rw [hdrop, h.1]
    exact List.mem_cons_self
  exact ha (List.mem_of_mem_drop hmem)

/-- Nothing is found where a character of the pattern does not occur. -/
theorem findSub_eq_none_of_not_mem {pat s : List α} {c : α} (hc : c ∈ pat) (hs : c ∉ s) :
    findSub pat s = none := by
  rw [findSub_eq_none_iff_not_within]
  exact fun hin => hs (hin.subset hc)

theorem findSub_singleton_eq_none {m : α} {s : List α} : findSub [m] s = none ↔ m ∉ s := by
  rw [findSub_eq_none_iff_not_within, List.singleton_infix_iff]

/-- There is no `m` before the first one. -/
theorem findSub_singleton_eq_some {m : α} {s : List α} {n : ℕ} (h : findSub [m] s = some n) :
    n < s.length ∧ m ∉ s.take n := by
  obtain ⟨-, hpre, hfirst⟩ := findSub_eq_some.mp h
  refine ⟨?_, ?_⟩
  · have hle := hpre.length_le
    rw [List.length_drop, List.length_singleton] at hle
    omega
  · intro hmem
    obtain ⟨j, hj, hget⟩ := List.getElem_of_mem hmem
    rw [List.length_take] at hj
    rw [List.getElem_take] at hget
    apply hfirst j (by omega)
    rw [List.drop_eq_getElem_cons (by omega), hget]
    exact ⟨_, rfl⟩

/-- What is found in a text is found if more text follows. -/
theorem findSub_append_right {pat a : List α} {i : ℕ} (hpat : pat ≠ []) (h : findSub pat a = some i)
    (s : List α) : findSub pat (a ++ s) = some i := by
  obtain ⟨hle, hpre, hfirst⟩ := findSub_eq_some.mp h
  have hlen := hpre.length_le
  have hpos := List.length_pos_iff.mpr hpat
  rw [List.length_drop] at hlen
  refine findSub_eq_some.mpr ⟨by rw [List.length_append]; omega, ?_, ?_⟩
  · rw [List.drop_append_of_le_length hle]
    exact hpre.trans (List.prefix_append _ _)
  · intro j hj hbefore
    rw [List.drop_append_of_le_length (by omega)] at hbefore
    refine hfirst j hj (List.prefix_of_prefix_length_le hbefore (List.prefix_append _ _) ?_)
    rw [List.length_drop]
    omega

/-! ## The rest of a text -/

/-- A text from the first `pat` on, as a pointer into it. -/
def findFrom (pat s : List α) : Option (List α) := (findSub pat s).map (s.drop ·)

theorem findFrom_of_some {pat s : List α} {i : ℕ} (h : findSub pat s = some i) :
    findFrom pat s = some (s.drop i) :=
  congrArg (Option.map (s.drop ·)) h

theorem findFrom_eq_none {pat s : List α} : findFrom pat s = none ↔ ¬ pat <:+: s :=
  Option.map_eq_none_iff.trans findSub_eq_none_iff_not_within

theorem findFrom_at_start {pat s : List α} (h : pat <+: s) : findFrom pat s = some s :=
  findFrom_of_some (findSub_at_start h)

theorem findFrom_singleton {m : α} {a s : List α} (ha : m ∉ a) :
    findFrom [m] (a ++ m :: s) = some (m :: s) := by
  rw [findFrom_of_some (findSub_singleton ha), List.drop_left]

/-- A text without `pat` is passed over, with an `m` behind it that `pat` has not. -/
theorem findFrom_append_mark {pat a s : List α} {m : α} (hm : m ∉ pat) (ha : ¬ pat <:+: a) :
    findFrom pat (a ++ m :: s) = findFrom pat s := by
  have hno : ∀ j ≤ a.length, ¬ pat <+: (a ++ m :: s).drop j := fun j hj => not_prefix_over hm ha hj
  have hdrop : ∀ k, (a ++ m :: s).drop (a.length + 1 + k) = s.drop k := by
    intro k
    rw [List.drop_append, List.drop_of_length_le (by omega), List.nil_append,
      show a.length + 1 + k - a.length = k + 1 by omega, List.drop_succ_cons]
  rcases hfind : findSub pat s with _ | i
  · have habsent : ¬ pat <:+: s := findSub_eq_none_iff_not_within.mp hfind
    rw [findFrom_eq_none.mpr habsent, findFrom_eq_none, infix_append_mark hm, not_or]
    exact ⟨ha, habsent⟩
  · obtain ⟨hle, hpre, hfirst⟩ := findSub_eq_some.mp hfind
    have hsome : findSub pat (a ++ m :: s) = some (a.length + 1 + i) := by
      refine findSub_eq_some.mpr ⟨?_, ?_, ?_⟩
      · rw [List.length_append, List.length_cons]
        omega
      · rw [hdrop]
        exact hpre
      · intro j hj hbefore
        by_cases hja : j ≤ a.length
        · exact hno j hja hbefore
        · rw [show j = a.length + 1 + (j - a.length - 1) by omega, hdrop] at hbefore
          exact hfirst _ (by omega) hbefore
    rw [findFrom_of_some hsome, findFrom_of_some hfind, hdrop]

/-- A text without the first character of `pat` is passed over. -/
theorem findFrom_append_of_not_mem {f : α} {pat u s : List α} (hu : f ∉ u) :
    findFrom (f :: pat) (u ++ s) = findFrom (f :: pat) s := by
  induction u with
  | nil => rfl
  | cons c u ih =>
      rw [List.mem_cons, not_or] at hu
      have hhere : ¬ f :: pat <+: c :: (u ++ s) := by
        rw [List.cons_prefix_cons]
        exact fun h => hu.1 h.1
      rw [← ih hu.2, List.cons_append, findFrom, findFrom, findSub, if_neg hhere, Option.map_map]
      rfl

/-- What is found in a text, and more text behind it. -/
theorem findFrom_append {pat a : List α} (hpat : pat ≠ []) (h : pat <:+: a) :
    ∃ v, v <:+ a ∧ ∀ s, findFrom pat (a ++ s) = some (v ++ s) := by
  rcases hfind : findSub pat a with _ | i
  · exact absurd h (findSub_eq_none_iff_not_within.mp hfind)
  · refine ⟨a.drop i, List.drop_suffix i a, ?_⟩
    intro s
    rw [findFrom_of_some (findSub_append_right hpat hfind s),
      List.drop_append_of_le_length (findSub_eq_some.mp hfind).1]

end Search

end TestCore.Lib
