/-
The search for one string in another (`stringFind` of `eth0_connect_device.c`, of which there are four
more copies).

The function goes on to the next place after a match that breaks off, and back in the text with it. So no
match is missed, and the one it stops at is the first (`stringFind_loop`). It returns how far it has got in
`dest`, and that is the length of `dest`; only the copy in `upgrade_flag.c` returns the place.

A string is its characters with a zero behind them, and then whatever is there. That is not looked at: a read
outside the memory has no result, and the loops have the same one wherever the memory ends behind the zeros.
The `int`s of the function are offsets it reads, so they are never more than the length of a string.
-/
import TestCore.Lib.Loop
import TestCore.Lib.Search

set_option autoImplicit false

namespace TestCore.ConnectDevice

open TestCore.Lib

/-! ## The function -/

/-- In which of the two loops a turn is made. -/
inductive stringFind.At where
  | outer (i : ℕ)
  | inner (i j : ℕ)
  deriving DecidableEq, Repr

/-- What is returned at the end of `dest`. -/
def stringFind.found (_i j : ℕ) : ℤ := j

/-- What the copy in `upgrade_flag.c` returns there. -/
def upgrade_flag.found (i _j : ℕ) : ℤ := i

/-- A turn of the outer loop up to the inner one, or a turn of the inner loop, with what is done behind
it if it was the last. Where `dest` is at its end, `found` is returned. -/
def stringFind.turn (found : ℕ → ℕ → ℤ) (string dest : Bytes) :
    stringFind.At → Option (ℤ ⊕ stringFind.At)
  | .outer i => do
      let c ← string[i]?
      if c = 0 then pure (.inl (-1))
      else do
        let d ← dest[0]?
        pure (.inr (if c ≠ d then .outer (i + 1) else .inner i 0))
  | .inner i j => do
      let c ← string[i + j]?
      -- If the condition of the loop does not come to this character, the test behind the loop does.
      let d ← dest[j]?
      if c ≠ 0 ∧ d ≠ 0 ∧ c = d then pure (.inr (.inner i (j + 1)))
      else pure (if d = 0 then .inl (found i j) else .inr (.outer (i + 1)))

/-- `stringFind`, or the copy with another `found`, returns `r`. There is no result if it reads outside the
memory that begins at a string. -/
def stringFind.Returns (found : ℕ → ℕ → ℤ) (string dest : Option Bytes) (r : Option ℤ) : Prop :=
  match string, dest with
  | some string, some dest => EndsWith (checked (stringFind.turn found string dest)) (.outer 0) r
  | _, _ => r = some (-1)

/-! ## One turn -/

/-- A string up to its end, with anything behind it. -/
theorem getElem?_string {s : Bytes} {i : ℕ} (h : i ≤ s.length) (behind : Bytes) :
    (s ++ 0 :: behind)[i]? = some ((s.drop i).headD 0) := by
  rcases Nat.eq_or_lt_of_le h with rfl | h
  · simp
  · rw [List.getElem?_append_left h, List.getElem?_eq_getElem h, List.drop_eq_getElem_cons h,
      List.headD_cons]

/-- A character of a string, and the string behind it. -/
theorem drop_cons_next {s : Bytes} (hs : NulFree s) {i : ℕ} {c : UInt8} {t : Bytes}
    (h : s.drop i = c :: t) : c ≠ 0 ∧ i + 1 ≤ s.length ∧ s.drop (i + 1) = t := by
  have hmem : c ∈ s.drop i := by
    rw [h]
    exact List.mem_cons_self
  have hlen : (s.drop i).length = t.length + 1 := by rw [h, List.length_cons]
  rw [List.length_drop] at hlen
  refine ⟨hs c (List.mem_of_mem_drop hmem), by omega, ?_⟩
  rw [← List.drop_drop, h]
  rfl

section Search

variable (found : ℕ → ℕ → ℤ) {string dest : Bytes} (mem mem' : Bytes) {i j : ℕ}

theorem turn_outer (dest : Bytes) (hi : i ≤ string.length) :
    stringFind.turn found (string ++ 0 :: mem) (dest ++ 0 :: mem') (.outer i) = some (
      if (string.drop i).headD 0 = 0 then .inl (-1)
      else .inr (if (string.drop i).headD 0 ≠ dest.headD 0 then .outer (i + 1) else .inner i 0)) := by
  rw [stringFind.turn, getElem?_string hi, getElem?_string (Nat.zero_le dest.length), List.drop_zero,
    Option.bind_eq_bind, Option.bind_some]
  by_cases hzero : (string.drop i).headD 0 = 0
  · rw [if_pos hzero, if_pos hzero]
    rfl
  · rw [if_neg hzero, if_neg hzero]
    rfl

theorem turn_inner (hi : i + j ≤ string.length) (hj : j ≤ dest.length) :
    stringFind.turn found (string ++ 0 :: mem) (dest ++ 0 :: mem') (.inner i j) = some (
      if (string.drop (i + j)).headD 0 ≠ 0 ∧ (dest.drop j).headD 0 ≠ 0 ∧
          (string.drop (i + j)).headD 0 = (dest.drop j).headD 0 then .inr (.inner i (j + 1))
      else if (dest.drop j).headD 0 = 0 then .inl (found i j) else .inr (.outer (i + 1))) := by
  rw [stringFind.turn, getElem?_string hi, getElem?_string hj]
  dsimp only [Option.bind_eq_bind, Option.bind_some]
  split_ifs <;> rfl

/-! ## The search -/

variable (hs : NulFree string) (hd : NulFree dest) {r : Option ℤ}

include hs hd

/-- **The inner loop** returns at the end of `dest`, and otherwise leads to the next place. -/
theorem inner_endsWith (hi : i + j ≤ string.length) (hj : j ≤ dest.length) :
    EndsWith (checked (stringFind.turn found (string ++ 0 :: mem) (dest ++ 0 :: mem'))) (.inner i j) r ↔
      if dest.drop j <+: string.drop (i + j) then r = some (found i dest.length)
      else EndsWith (checked (stringFind.turn found (string ++ 0 :: mem) (dest ++ 0 :: mem')))
        (.outer (i + 1)) r := by
  have hturn := turn_inner found mem mem' hi hj
  induction hrest : dest.drop j generalizing j with
  | nil =>
      have hlen : j = dest.length := le_antisymm hj (List.drop_eq_nil_iff.mp hrest)
      rw [hrest] at hturn
      simp only [List.headD_nil, ne_eq, not_true_eq_false, false_and, and_false, if_false, if_true] at hturn
      rw [endsWith_checked_inl hturn, if_pos List.nil_prefix, hlen]
  | cons d rest ih =>
      obtain ⟨hdne, hlt, hnext⟩ := drop_cons_next hd hrest
      rw [hrest] at hturn
      rcases hstr : string.drop (i + j) with _ | ⟨c, t⟩
      · -- The text ends before `dest`, so nothing behind its zero is read.
        rw [hstr] at hturn
        simp only [List.headD_nil, List.headD_cons, ne_eq, not_true_eq_false, false_and, if_false, hdne]
          at hturn
        rw [endsWith_checked_inr hturn, if_neg (by simp)]
      · obtain ⟨hcne, hmore, htail⟩ := drop_cons_next hs hstr
        rw [Nat.add_assoc] at hmore htail
        rw [hstr] at hturn
        simp only [List.headD_cons, ne_eq, hcne, hdne, not_false_eq_true, true_and, if_false] at hturn
        by_cases hc : c = d
        · rw [if_pos hc] at hturn
          have hrec := ih hmore hlt (turn_inner found mem mem' hmore hlt) hnext
          rw [htail] at hrec
          refine (endsWith_checked_inr hturn).trans (hrec.trans ?_)
          simp only [List.cons_prefix_cons, hc, true_and]
        · rw [if_neg hc] at hturn
          rw [endsWith_checked_inr hturn, if_neg]
          rw [List.cons_prefix_cons]
          exact fun h => hc h.1.symm

/-- **The outer loop** stops at the first place, from `i` on. -/
theorem outer_endsWith (hne : dest ≠ []) (hi : i ≤ string.length) :
    EndsWith (checked (stringFind.turn found (string ++ 0 :: mem) (dest ++ 0 :: mem'))) (.outer i) r ↔
      r = some ((findSub dest (string.drop i)).elim (-1) fun n => found (i + n) dest.length) := by
  have hturn := turn_outer found mem mem' dest hi
  induction hrest : string.drop i generalizing i with
  | nil =>
      rw [hrest] at hturn
      rw [endsWith_checked_inl hturn, findSub, if_neg hne]
      rfl
  | cons c t ih =>
      obtain ⟨hcne, hlt, htail⟩ := drop_cons_next hs hrest
      have hnext := ih hlt (turn_outer found mem mem' _ hlt) htail
      have hinner := inner_endsWith found mem mem' hs hd (i := i) (j := 0) (r := r) (by omega) (Nat.zero_le _)
      rw [List.drop_zero, Nat.add_zero, hrest] at hinner
      rw [hrest, List.headD_cons, if_neg hcne] at hturn
      rw [findSub]
      by_cases hpre : dest <+: c :: t
      · -- The first character is right, and the inner loop goes through.
        have hhead : c = dest.headD 0 := by
          obtain ⟨d, rest, rfl⟩ := List.exists_cons_of_ne_nil hne
          exact (List.cons_prefix_cons.mp hpre).1.symm
        rw [if_neg (not_not.mpr hhead)] at hturn
        rw [if_pos hpre] at hinner ⊢
        rw [endsWith_checked_inr hturn, hinner]
        rfl
      · -- At once or after the inner loop, the next place is tried.
        rw [if_neg hpre] at hinner ⊢
        rw [endsWith_checked_inr hturn]
        have hskip : EndsWith (checked (stringFind.turn found (string ++ 0 :: mem) (dest ++ 0 :: mem')))
            (if c ≠ dest.headD 0 then .outer (i + 1) else .inner i 0) r ↔
            EndsWith (checked (stringFind.turn found (string ++ 0 :: mem) (dest ++ 0 :: mem')))
              (.outer (i + 1)) r := by
          split_ifs with hhead
          · rfl
          · exact hinner
        refine (hskip.trans hnext).trans ?_
        rcases findSub dest t with _ | n
        · rfl
        · rw [Option.map_some, Option.elim_some, Option.elim_some, Nat.add_assoc, Nat.add_comm 1]

omit hd in
/-- An empty text is not found, as no character is its end. -/
theorem empty_endsWith (hi : i ≤ string.length) :
    EndsWith (checked (stringFind.turn found (string ++ 0 :: mem) (0 :: mem'))) (.outer i) r ↔
      r = some (-1) := by
  have hturn := turn_outer found mem mem' [] hi
  induction hrest : string.drop i generalizing i with
  | nil =>
      rw [hrest] at hturn
      exact endsWith_checked_inl hturn
  | cons c t ih =>
      obtain ⟨hcne, hlt, htail⟩ := drop_cons_next hs hrest
      rw [hrest, List.headD_cons, if_neg hcne, List.headD_nil, if_pos hcne] at hturn
      exact (endsWith_checked_inr hturn).trans (ih hlt (turn_outer found mem mem' _ hlt) htail)

end Search

/-! ## The results -/

section Results

variable {string dest : Bytes} (hs : NulFree string) (hd : NulFree dest) (hne : dest ≠ []) {r : Option ℤ}

include hs hd hne

/-- **The loops end** at the first place of `dest` in `string`, wherever the memory ends behind the two. -/
theorem stringFind_loop (found : ℕ → ℕ → ℤ) (mem mem' : Bytes) :
    stringFind.Returns found (some (string ++ 0 :: mem)) (some (dest ++ 0 :: mem')) r ↔
      r = some ((findSub dest string).elim (-1) fun i => found i dest.length) := by
  have houter := outer_endsWith found mem mem' hs hd (r := r) hne (Nat.zero_le string.length)
  simp only [List.drop_zero, Nat.zero_add] at houter
  exact houter

omit hs hd hne in
theorem length_of_found (string dest : Bytes) :
    ((findSub dest string).elim (-1) fun i => stringFind.found i dest.length)
      = if dest <:+: string then (dest.length : ℤ) else -1 := by
  rcases hfind : findSub dest string with _ | i
  · have hno : ¬ dest <:+: string := findSub_eq_none_iff_not_within.mp hfind
    rw [if_neg hno]
    rfl
  · have hin : dest <:+: string := by
      by_contra hno
      rw [findSub_eq_none_iff_not_within.mpr hno] at hfind
      cases hfind
    rw [if_pos hin]
    rfl

/-- **The length of `dest`** is returned if it occurs in `string`, and -1 otherwise. With nothing in `mem` and
`mem'` there is nothing to be read behind the two zeros. -/
theorem stringFind_returns (mem mem' : Bytes) :
    stringFind.Returns stringFind.found (some (string ++ 0 :: mem)) (some (dest ++ 0 :: mem')) r ↔
      r = some (if dest <:+: string then (dest.length : ℤ) else -1) := by
  rw [stringFind_loop hs hd hne, length_of_found]

/-- The copy in `upgrade_flag.c` returns the first place. -/
theorem upgrade_flag_returns (mem mem' : Bytes) :
    stringFind.Returns upgrade_flag.found (some (string ++ 0 :: mem)) (some (dest ++ 0 :: mem')) r ↔
      r = some ((findSub dest string).elim (-1) fun i => (i : ℤ)) :=
  stringFind_loop hs hd hne _ mem mem'

end Results

/-- A match that overlaps another one, which breaks off. -/
theorem stringFind_returns_overlap :
    stringFind.Returns stringFind.found (some (bytes "ababac" ++ [0])) (some (bytes "abac" ++ [0]))
      (some 4) :=
  (stringFind_returns (by decide) (by decide) (by decide) [] []).mpr (by decide)

/-! ## As a function on texts -/

/-- The inner loop of `stringFind`, with `j` at its end, if `dest` is at its end. -/
def stringFind.inner : Bytes → Bytes → ℕ → Option ℕ
  | _, [], j => some j
  | [], _ :: _, _ => none
  | c :: string, d :: dest, j => if c ≠ d then none else stringFind.inner string dest (j + 1)

def stringFind : Bytes → Bytes → ℤ
  | [], _ => -1
  | c :: string, dest =>
      if c ≠ dest.headD 0 then stringFind string dest
      else
        match stringFind.inner (c :: string) dest 0 with
        | some j => j
        | none => stringFind string dest

theorem inner_eq (string dest : Bytes) (j : ℕ) :
    stringFind.inner string dest j = if dest <+: string then some (j + dest.length) else none := by
  induction dest generalizing string j with
  | nil => cases string <;> rfl
  | cons d dest ih =>
      rcases string with _ | ⟨c, string⟩
      · rfl
      · rw [stringFind.inner, ih]
        by_cases hc : c = d
        · rw [if_neg (not_not.mpr hc)]
          simp only [List.cons_prefix_cons, hc, true_and, List.length_cons, Nat.add_assoc, Nat.add_comm 1]
        · have hpre : ¬ d :: dest <+: c :: string := by
            rw [List.cons_prefix_cons]
            exact fun h => hc h.1.symm
          rw [if_pos hc, if_neg hpre]

/-- `stringFind` gives the length of what it looks for, if that is there. -/
theorem stringFind_eq {dest : Bytes} (hne : dest ≠ []) (string : Bytes) :
    stringFind string dest = if dest <:+: string then (dest.length : ℤ) else -1 := by
  obtain ⟨d, rest, rfl⟩ := List.exists_cons_of_ne_nil hne
  induction string with
  | nil => rfl
  | cons c string ih =>
      rw [stringFind, ih, inner_eq, List.headD_cons, Nat.zero_add]
      by_cases hpre : d :: rest <+: c :: string
      · have hc : c = d := (List.cons_prefix_cons.mp hpre).1.symm
        rw [if_neg (not_not.mpr hc), if_pos hpre, if_pos hpre.isInfix]
      · simp only [List.infix_cons_iff, hpre, false_or, if_false, ite_self]

theorem stringFind_ne_iff {dest : Bytes} (hne : dest ≠ []) (string : Bytes) :
    stringFind string dest ≠ dest.length ↔ ¬ dest <:+: string := by
  rw [stringFind_eq hne]
  split_ifs with h
  · exact iff_of_false (fun hn => hn rfl) (not_not.mpr h)
  · exact iff_of_true (by omega) h

/-- This is what the loops return. -/
theorem returns_iff_stringFind {string dest : Bytes} (hs : NulFree string) (hd : NulFree dest)
    (mem mem' : Bytes) {r : Option ℤ} :
    stringFind.Returns stringFind.found (some (string ++ 0 :: mem)) (some (dest ++ 0 :: mem')) r ↔
      r = some (stringFind string dest) := by
  by_cases hne : dest = []
  · have hempty : ∀ string : Bytes, NulFree string → stringFind string [] = -1 := by
      intro string hs
      induction string with
      | nil => rfl
      | cons c string ih =>
          rw [NulFree, List.forall_mem_cons] at hs
          rw [stringFind, List.headD_nil, if_pos hs.1, ih hs.2]
    rw [hne, hempty string hs]
    exact empty_endsWith _ mem mem' hs (Nat.zero_le _)
  · rw [stringFind_loop hs hd hne, stringFind_eq hne, length_of_found]

end TestCore.ConnectDevice
