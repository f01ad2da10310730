/-
What comes out of a query.

`websSetEnv` splits the query at `&` and each token at its first `=`, decodes both sides, and
appends to a variable that is there already. All of this loses something: how much a text can
still yield is measured by `weight`, in which a byte counts once and `&` and `+`, which no text
keeps, count twice. A query yields at most its weight (`queryPairs_size`), and all of it only if
it is one token of which nothing is decoded (`queryPairs_tight`).
-/
import TestCore.Lib.Tally
import TestCore.Webs.Read

set_option autoImplicit false

namespace TestCore.Webs

open TestCore.Lib

/-! ## Weights -/

/-- The length, with `&` and `+` counted twice. -/
def weight (b : Bytes) : ℕ := b.length + b.count 38 + b.count 43

@[simp] theorem weight_nil : weight [] = 0 := rfl

theorem weight_append (a b : Bytes) : weight (a ++ b) = weight a + weight b := by
  unfold weight
  rw [List.length_append, List.count_append, List.count_append]
  omega

theorem weight_cons_of_ne {c : UInt8} (hamp : c ≠ 38) (hplus : c ≠ 43) (b : Bytes) :
    weight (c :: b) = weight b + 1 := by
  unfold weight
  rw [List.length_cons, List.count_cons_of_ne hamp, List.count_cons_of_ne hplus]
  omega

theorem weight_amp (b : Bytes) : weight (38 :: b) = weight b + 2 := by
  unfold weight
  rw [List.length_cons, List.count_cons_self, List.count_cons_of_ne (by decide)]
  omega

theorem weight_plus (b : Bytes) : weight (43 :: b) = weight b + 2 := by
  unfold weight
  rw [List.length_cons, List.count_cons_self, List.count_cons_of_ne (by decide)]
  omega

/-- Every byte counts, and none more than twice. -/
theorem weight_cons (c : UInt8) (b : Bytes) :
    weight b + 1 ≤ weight (c :: b) ∧ weight (c :: b) ≤ weight b + 2 := by
  by_cases hamp : c = 38
  · rw [hamp, weight_amp]
    omega
  · by_cases hplus : c = 43
    · rw [hplus, weight_plus]
      omega
    · rw [weight_cons_of_ne hamp hplus]
      omega

/-- What is left out of a text takes at least its length off the weight. -/
theorem weight_sublist {a b : Bytes} (h : a.Sublist b) :
    weight a + b.length ≤ weight b + a.length := by
  have hamp := h.count_le 38
  have hplus := h.count_le 43
  unfold weight
  omega

theorem weight_le {a b : Bytes} (h : a.Sublist b) : weight a ≤ weight b := by
  have hle := weight_sublist h
  have hlen := h.length_le
  omega

/-- Nothing is left out of a text that keeps its weight. -/
theorem eq_of_weight_le {a b : Bytes} (h : a.Sublist b) (hw : weight b ≤ weight a) : a = b := by
  have hle := weight_sublist h
  exact h.eq_of_length_le (by omega)

/-! ## Decoding -/

/-- Nothing in it is decoded: there is no `+`, and no `%` with two digits behind it. -/
def Unescaped (b : Bytes) : Prop :=
  43 ∉ b ∧ ∀ x y, isxdigit x = true → isxdigit y = true → ¬ [37, x, y] <:+: b

theorem unescaped_of_not_mem {b : Bytes} (hplus : 43 ∉ b) (hpercent : 37 ∉ b) : Unescaped b :=
  ⟨hplus, fun _ _ _ _ hin => hpercent (hin.subset (by simp))⟩

theorem Unescaped.tail {c : UInt8} {b : Bytes} (h : Unescaped (c :: b)) : Unescaped b :=
  ⟨fun hmem => h.1 (List.mem_cons_of_mem c hmem),
    fun x y hx hy hin => h.2 x y hx hy (hin.trans (List.suffix_cons c b).isInfix)⟩

theorem Unescaped.cons {c : UInt8} {b : Bytes} (hplus : c ≠ 43)
    (hesc : ∀ x y, isxdigit x = true → isxdigit y = true → ¬ [37, x, y] <+: c :: b)
    (h : Unescaped b) : Unescaped (c :: b) := by
  refine ⟨?_, fun x y hx hy hin => ?_⟩
  · rw [List.mem_cons, not_or]
    exact ⟨hplus.symm, h.1⟩
  · rcases List.infix_cons_iff.mp hin with hpre | hin
    · exact hesc x y hx hy hpre
    · exact h.2 x y hx hy hin

/-- What decoding makes of a text: itself, or something of less weight. -/
def Decoded (b d : Bytes) : Prop :=
  (Unescaped b ∧ d = b) ∨ (¬ Unescaped b ∧ weight d < weight b)

theorem Decoded.weight_le {b d : Bytes} (h : Decoded b d) : weight d ≤ weight b := by
  rcases h with ⟨-, rfl⟩ | ⟨-, hlt⟩
  · exact le_rfl
  · exact hlt.le

/-- A character that stands for itself. -/
theorem Decoded.cons {c : UInt8} {b d : Bytes} (hplus : c ≠ 43)
    (hesc : ∀ x y, isxdigit x = true → isxdigit y = true → ¬ [37, x, y] <+: c :: b)
    (h : Decoded b d) : Decoded (c :: b) (c :: d) := by
  rcases h with ⟨hun, rfl⟩ | ⟨hun, hlt⟩
  · exact Or.inl ⟨hun.cons hplus hesc, rfl⟩
  · right
    have hb := weight_append [c] b
    have hd := weight_append [c] d
    rw [List.singleton_append] at hb hd
    exact ⟨fun h => hun h.tail, by omega⟩

theorem Decoded.plus {b d : Bytes} (h : Decoded b d) : Decoded (43 :: b) (32 :: d) := by
  right
  have hle := h.weight_le
  refine ⟨fun hun => hun.1 List.mem_cons_self, ?_⟩
  rw [weight_plus, weight_cons_of_ne (by decide) (by decide)]
  omega

/-- Two digits make one character, of whatever kind. -/
theorem Decoded.escape {x y c : UInt8} {b d : Bytes} (hx : isxdigit x = true)
    (hy : isxdigit y = true) (h : Decoded b d) : Decoded (37 :: x :: y :: b) (c :: d) := by
  right
  have hle := h.weight_le
  have h1 := (weight_cons 37 (x :: y :: b)).1
  have h2 := (weight_cons x (y :: b)).1
  have h3 := (weight_cons y b).1
  have h4 := (weight_cons c d).2
  exact ⟨fun hun => hun.2 x y hx hy ⟨[], b, rfl⟩, by omega⟩

/-- **Decoding leaves a text as it is, or takes weight off it.** -/
theorem decoded_decodeChars (b : Bytes) : Decoded b (decodeChars b) := by
  -- The recursion goes from character to character, or over an escape.
  fun_induction decodeChars b with
  | case1 => exact Or.inl ⟨unescaped_of_not_mem (by simp) (by simp), rfl⟩
  | case2 a b s ih => exact ih.plus
  | case3 c a b s hplus hesc ih =>
      simp only [Bool.and_eq_true, decide_eq_true_eq] at hesc
      obtain ⟨⟨rfl, ha⟩, hb⟩ := hesc
      exact ih.escape ha hb
  | case4 c a b s hplus hesc ih =>
      refine ih.cons hplus fun x y hx hy hpre => hesc ?_
      obtain ⟨hc, hrest⟩ := List.cons_prefix_cons.mp hpre
      obtain ⟨ha, hrest'⟩ := List.cons_prefix_cons.mp hrest
      rw [← hc, ← ha, ← (List.cons_prefix_cons.mp hrest').1, hx, hy]
      rfl
  | case5 c s hshort ih =>
      by_cases hplus : c = 43
      · rw [if_pos hplus, hplus]
        exact ih.plus
      · rw [if_neg hplus]
        refine ih.cons hplus fun x y _ _ hpre => ?_
        -- There is no room for an escape.
        obtain ⟨-, t, ht⟩ := List.cons_prefix_cons.mp hpre
        exact hshort x y t ht.symm

theorem decoded_websDecodeUrl {b : Bytes} (hb : NulFree b) : Decoded b (websDecodeUrl b) := by
  unfold websDecodeUrl
  rcases decoded_decodeChars b with ⟨hun, heq⟩ | ⟨hun, hlt⟩
  · left
    rw [heq]
    exact ⟨hun, cstr_of_nulFree hb⟩
  · right
    exact ⟨hun, (weight_le (List.takeWhile_prefix _).sublist).trans_lt hlt⟩

theorem websDecodeUrl_unescaped {b : Bytes} (hb : NulFree b) (hun : Unescaped b) :
    websDecodeUrl b = b := by
  rcases decoded_websDecodeUrl hb with ⟨-, heq⟩ | ⟨hno, -⟩
  · exact heq
  · exact absurd hun hno

/-- A text that keeps its weight is not decoded. -/
theorem unescaped_of_weight_le {b : Bytes} (hb : NulFree b)
    (h : weight b ≤ weight (websDecodeUrl b)) : Unescaped b := by
  rcases decoded_websDecodeUrl hb with ⟨hun, -⟩ | ⟨-, hlt⟩
  · exact hun
  · omega

/-! ## The pairs of a query -/

/-- What a pair takes out of a query. -/
def pairSize (p : Bytes × Bytes) : ℕ := weight p.1 + weight p.2 + 1

/-- A token with a `=` is split at the first. -/
theorem queryPair_eq {k : Bytes} (hk : 61 ∉ k) (v : Bytes) :
    queryPair (k ++ 61 :: v) = (websDecodeUrl k, websDecodeUrl v) := by
  have hall : ∀ c ∈ k, decide (c ≠ 61) = true := fun c hc =>
    decide_eq_true (ne_of_mem_of_not_mem hc hk)
  unfold queryPair
  rw [if_pos (by simp), List.takeWhile_append_of_pos hall, List.dropWhile_append_of_pos hall]
  simp

theorem pairSize_queryPair {t : Bytes} (ht : NulFree t) :
    pairSize (queryPair t) ≤ weight t + (if 61 ∈ t then 0 else 1) := by
  unfold pairSize
  by_cases heq : 61 ∈ t
  · obtain ⟨k, v, rfl, hk⟩ := List.eq_append_cons_of_mem heq
    obtain ⟨hkNul, hvNul⟩ := ht.split
    have hkle := (decoded_websDecodeUrl hkNul).weight_le
    have hvle := (decoded_websDecodeUrl hvNul).weight_le
    rw [if_pos heq, queryPair_eq hk, weight_append, weight_cons_of_ne (by decide) (by decide)]
    dsimp only
    omega
  · unfold queryPair
    rw [if_neg heq, if_neg heq]
    simp

/-- A token without a `&` makes one pair, unless the name is empty. -/
theorem queryPairs_token {t : Bytes} (ht : NulFree t) (hamp : 38 ∉ t) :
    queryPairs t = if (queryPair t).1 = [] then [] else [queryPair t] := by
  have hall : ∀ c ∈ t, (c == 38) = false := fun c hc => by
    simpa using ne_of_mem_of_not_mem hc hamp
  unfold queryPairs strtok
  rw [cstr_of_nulFree ht, List.splitOnP_eq_singleton hall]
  rcases t with _ | ⟨c, t⟩
  · rfl
  · rcases hname : (queryPair (c :: t)).1 with _ | ⟨d, k⟩
    · simp [hname]
    · simp [hname]

/-- **A query yields at most its weight**, and less if it is split. -/
theorem queryPairs_size {t : Bytes} (ht : NulFree t) :
    ((queryPairs t).map pairSize).sum + (if 38 ∈ t then 1 else 0)
      ≤ weight t + (if 61 ∈ t then 0 else 1) := by
  -- By induction on the number of separators, from the first on.
  induction hlen : t.length using Nat.strong_induction_on generalizing t with
  | _ n ih =>
    by_cases hamp : 38 ∈ t
    · obtain ⟨a, b, rfl, ha⟩ := List.eq_append_cons_of_mem hamp
      obtain ⟨haNul, hbNul⟩ := ht.split
      rw [List.length_append, List.length_cons] at hlen
      have hale := ih a.length (by omega) haNul rfl
      have hble := ih b.length (by omega) hbNul rfl
      -- If there is a `=`, it is on one of the sides.
      have hsides : (if 61 ∈ a then 0 else 1) + (if 61 ∈ b then 0 else 1)
          ≤ (if (61 : UInt8) ∈ a ++ 38 :: b then 0 else 1) + 1 := by
        have hor : (61 : UInt8) ∈ a ++ 38 :: b ↔ 61 ∈ a ∨ 61 ∈ b := by simp
        simp only [hor]
        split_ifs <;> simp_all
      rw [if_pos hamp, queryPairs_amp haNul, List.map_append, List.sum_append, weight_append,
        weight_amp]
      omega
    · have hle := pairSize_queryPair ht
      rw [if_neg hamp, queryPairs_token ht hamp, Nat.add_zero]
      by_cases hname : (queryPair t).1 = []
      · rw [if_pos hname]
        exact Nat.zero_le _
      · rw [if_neg hname, List.map_singleton, List.sum_singleton]
        exact hle

/-- **Nothing is lost of a query only if it is one pair as it stands.** -/
theorem queryPairs_tight {t : Bytes} (ht : NulFree t) (heq : 61 ∈ t)
    (h : weight t ≤ ((queryPairs t).map pairSize).sum) :
    ∃ k v, t = k ++ 61 :: v ∧ k ≠ [] ∧ 61 ∉ k ∧ 38 ∉ t ∧ Unescaped k ∧ Unescaped v ∧
      queryPairs t = [(k, v)] := by
  have hsize := queryPairs_size ht
  rw [if_pos heq] at hsize
  have hamp : 38 ∉ t := by
    intro hamp
    rw [if_pos hamp] at hsize
    omega
  obtain ⟨k, v, rfl, hk⟩ := List.eq_append_cons_of_mem heq
  obtain ⟨hkNul, hvNul⟩ := ht.split
  have hkle := (decoded_websDecodeUrl hkNul).weight_le
  have hvle := (decoded_websDecodeUrl hvNul).weight_le
  have hpairs := queryPairs_token ht hamp
  rw [queryPair_eq hk] at hpairs
  rw [hpairs, weight_append, weight_cons_of_ne (by decide) (by decide)] at h
  by_cases hname : websDecodeUrl k = []
  · rw [if_pos hname] at h
    simp at h
  · rw [if_neg hname] at h hpairs
    rw [List.map_singleton, List.sum_singleton] at h
    unfold pairSize at h
    dsimp only at h
    have hkun := unescaped_of_weight_le hkNul (by omega)
    have hvun := unescaped_of_weight_le hvNul (by omega)
    rw [websDecodeUrl_unescaped hkNul hkun] at hname
    rw [websDecodeUrl_unescaped hkNul hkun, websDecodeUrl_unescaped hvNul hvun] at hpairs
    exact ⟨k, v, rfl, hname, hk, hamp, hkun, hvun, hpairs⟩

/-- One pair as it stands. -/
theorem queryPairs_plain {k v : Bytes} (hne : k ≠ []) (hk : NulFree k) (hv : NulFree v)
    (hsplit : 61 ∉ k) (hamp : 38 ∉ k ++ 61 :: v) (hkun : Unescaped k) (hvun : Unescaped v) :
    queryPairs (k ++ 61 :: v) = [(k, v)] := by
  have hnul : NulFree (k ++ 61 :: v) := hk.append (hv.cons (by decide))
  rw [queryPairs_token hnul hamp, queryPair_eq hsplit, websDecodeUrl_unescaped hk hkun,
    websDecodeUrl_unescaped hv hvun]
  exact if_neg hne

/-! ## The variables -/

/-- A variable behind some more values. -/
def joinValues (old : Option Bytes) (values : List Bytes) : Option Bytes :=
  values.foldl (fun old value => some (appendVar old value)) old

/-- **A variable is what its own pairs make of it.** -/
theorem lookup_foldl_setQueryVar {k : Bytes} (hk : k ≠ []) (ps : List (Bytes × Bytes))
    (vars : CgiVars) :
    (ps.foldl setQueryVar vars).lookup k
      = joinValues (vars.lookup k) ((entriesOf k ps).map Prod.snd) := by
  induction ps generalizing vars with
  | nil => rfl
  | cons p ps ih =>
      rw [List.foldl_cons, ih]
      unfold setQueryVar websSetVar entriesOf
      rw [lookup_symEnter, List.filter_cons]
      by_cases hp : p.1 = k
      · rw [if_pos hp.symm, if_pos (decide_eq_true hp), hp, symLookup_of_ne_nil _ hk]
        rfl
      · rw [if_neg (Ne.symm hp), if_neg (by simpa using hp)]

theorem appendVar_weight (old value : Bytes) :
    weight (appendVar (some old) value) ≤ weight old + (weight value + 1) := by
  have hle := weight_le (List.take_sublist 255 (old ++ 32 :: value))
  rw [weight_append, weight_cons_of_ne (by decide) (by decide)] at hle
  exact hle

theorem joinValues_weight {old v : Bytes} {values : List Bytes}
    (h : joinValues (some old) values = some v) :
    weight v ≤ weight old + (values.map fun x => weight x + 1).sum := by
  unfold joinValues at h
  induction values generalizing old with
  | nil =>
      rw [List.foldl_nil, Option.some.injEq] at h
      rw [h]
      exact Nat.le_add_right _ _
  | cons x values ih =>
      have hx := appendVar_weight old x
      have hrest := ih h
      rw [List.map_cons, List.sum_cons]
      omega

/-- What the pairs of a variable are worth, by its values. -/
theorem sum_pairSize_entriesOf (k : Bytes) (ps : List (Bytes × Bytes)) :
    ((entriesOf k ps).map pairSize).sum
      = (((entriesOf k ps).map Prod.snd).map fun x => weight k + weight x + 1).sum := by
  rw [List.map_map]
  congr 1
  refine List.map_congr_left fun p hp => ?_
  unfold pairSize
  rw [(mem_entriesOf.mp hp).2]
  rfl

/-- **A variable takes the weight of its pairs**, and that of its name as often as there are some;
so exactly its own weight only if there is one. -/
theorem joinValues_pairs {k v : Bytes} (hk : k ≠ []) {ps : List (Bytes × Bytes)}
    (h : joinValues none ((entriesOf k ps).map Prod.snd) = some v) :
    weight k + weight v + 1 ≤ ((entriesOf k ps).map pairSize).sum ∧
      (((entriesOf k ps).map pairSize).sum = weight k + weight v + 1 →
        entriesOf k ps = [(k, v)]) := by
  rw [sum_pairSize_entriesOf]
  rcases hes : entriesOf k ps with _ | ⟨p, es⟩
  · rw [hes] at h
    cases h
  · obtain ⟨c, s, hcs⟩ := List.exists_cons_of_ne_nil hk
    have hpos := (weight_cons c s).1
    rw [← hcs] at hpos
    rw [hes] at h
    have hle := @joinValues_weight p.2 v _ h
    -- The name is in the sum once for every value.
    have hmany : ∀ l : List Bytes, (l.map fun x => weight x + 1).sum + l.length
        ≤ (l.map fun x => weight k + weight x + 1).sum := by
      intro l
      induction l with
      | nil => simp
      | cons x l ih =>
          simp only [List.map_cons, List.sum_cons, List.length_cons]
          omega
    have hrest := hmany (es.map Prod.snd)
    rw [List.length_map] at hrest
    rw [List.map_cons, List.map_cons, List.sum_cons]
    refine ⟨by omega, fun hsum => ?_⟩
    obtain rfl : es = [] := List.length_eq_zero_iff.mp (by omega)
    have hp : p ∈ entriesOf k ps := by simp [hes]
    rw [← (mem_entriesOf.mp hp).2, ← show p.2 = v from Option.some.inj h]

theorem appendVar_length (old value : Bytes) :
    (appendVar (some old) value).length = min 255 (old.length + (value.length + 1)) := by
  unfold appendVar
  rw [List.length_take, List.length_append, List.length_cons]

/-- Behind another value, a variable is longer than all its values, or it is cut. -/
theorem joinValues_length {old x v : Bytes} {values : List Bytes}
    (h : joinValues (some old) (x :: values) = some v) :
    v.length ≤ 255 ∧
      (v.length < 255 → old.length < v.length ∧ ∀ y ∈ x :: values, y.length < v.length) := by
  have hlen := appendVar_length old x
  induction values generalizing old x with
  | nil =>
      have hv : appendVar (some old) x = v := Option.some.inj h
      rw [hv] at hlen
      refine ⟨by omega, fun hshort => ⟨by omega, fun y hy => ?_⟩⟩
      rw [List.mem_singleton.mp hy]
      omega
  | cons x' values ih =>
      obtain ⟨hle, hmore⟩ := ih h (appendVar_length _ x')
      refine ⟨hle, fun hshort => ?_⟩
      obtain ⟨hold, hvalues⟩ := hmore hshort
      refine ⟨by omega, fun y hy => ?_⟩
      rcases List.mem_cons.mp hy with rfl | hy
      · omega
      · exact hvalues y hy

/-- A variable that is one of its values, and has others, is cut behind this one. -/
theorem joinValues_mem {old : Option Bytes} {values : List Bytes} {v : Bytes}
    (h : joinValues old values = some v) (hmem : v ∈ values)
    (hmore : old ≠ none ∨ 2 ≤ values.length) : v.length = 255 := by
  obtain ⟨o, x, rest, hjoin, hv⟩ : ∃ o x rest, joinValues (some o) (x :: rest) = some v ∧
      (v = o ∨ v ∈ x :: rest) := by
    rcases old with _ | o
    · rcases values with _ | ⟨o, _ | ⟨x, rest⟩⟩
      · cases hmem
      · rcases hmore with hmore | hmore
        · exact absurd rfl hmore
        · simp at hmore
      · exact ⟨o, x, rest, h, List.mem_cons.mp hmem⟩
    · rcases values with _ | ⟨x, rest⟩
      · cases hmem
      · exact ⟨o, x, rest, h, Or.inr hmem⟩
  obtain ⟨hle, hlonger⟩ := joinValues_length hjoin
  by_contra hne
  obtain ⟨hold, hvalues⟩ := hlonger (by omega)
  rcases hv with rfl | hv
  · omega
  · have := hvalues v hv
    omega

end TestCore.Webs
