/-
The addition of two linked lists of digits (`leecode/link/link.c`).

`addTwoNumbers` goes through both lists at once, lowest digit first. A turn takes a digit from each list that
has one, and hangs the digit of their sum behind the result. The carry of the last turn is one digit more.
With two empty lists the turn takes nothing, and its digit is the zero that `tmp_val` starts with.

What is computed is `sumDigits`, the sum with carry of `TestCore.Lib.Carry`. The invariant of the loop
(`Adding.Rep`) is that what has been hung up, followed by the sum of what is left of the lists with the
carry `over`, is always the same. The lists themselves are never written to, and may share nodes.
-/
import TestCore.Lib.Carry
import TestCore.Lib.Cells
import TestCore.Lib.Decimal
import TestCore.Lib.Loop

set_option autoImplicit false

namespace TestCore.Link

open TestCore.Lib

/-! ## Memory -/

abbrev Ptr := ℕ

def NULL : Ptr := 0

/-- The fields of the nodes in memory, and the blocks that are in use. -/
structure Heap extends Cells Ptr ℤ where
  used : List Ptr

/-- `malloc`, as long as there is memory: a block that is not in use. -/
structure Malloc where
  block : List Ptr → Ptr
  ne_null : ∀ used, block used ≠ NULL
  fresh : ∀ used, block used ∉ used

/-- The memory with a list in it that is built from its `head` to its `tail`. -/
structure Built where
  heap : Heap
  head : Ptr
  tail : Ptr

variable (malloc : Malloc)

/-- A node behind the last one: `result_tail->next=malloc(...)` and the three lines after it. -/
def Built.hang (r : Built) (v : ℤ) : Built :=
  let e := malloc.block r.heap.used
  let heap : Heap :=
    { val := r.heap.val, next := Function.update r.heap.next r.tail e, used := e :: r.heap.used }
  let heap := { heap with val := Function.update heap.val (heap.next r.tail) v }
  let tail := heap.next r.tail
  ⟨{ heap with next := Function.update heap.next tail NULL }, r.head, tail⟩

/-- The lines from `if(!result_head)` on, which `main` has for its two lists as well. -/
def Built.append (r : Built) (v : ℤ) : Built :=
  if r.head = NULL then
    let e := malloc.block r.heap.used
    ⟨⟨r.heap.toCells.put NULL e v, e :: r.heap.used⟩, e, e⟩
  else r.hang malloc v

/-! ## The functions -/

/-- The local variables of `addTwoNumbers`. -/
structure Adding where
  l1 : Ptr
  l2 : Ptr
  /-- `over`, which is a word of Lean. -/
  over_ : ℤ
  tmp_val : ℤ
  result : Built

/-- A sum becomes `tmp_val` and `over`. -/
def Adding.split (s : Adding) (sum : ℤ) : Adding :=
  if sum > 9 then { s with tmp_val := sum.tmod 10, over_ := 1 } else { s with tmp_val := sum, over_ := 0 }

/-- The three cases at the beginning of a turn. -/
def Adding.digit (s : Adding) : Adding :=
  let heap := s.result.heap
  if s.l1 ≠ NULL ∧ s.l2 ≠ NULL then
    { s.split (heap.val s.l1 + heap.val s.l2 + s.over_) with l1 := heap.next s.l1, l2 := heap.next s.l2 }
  else if s.l2 = NULL ∧ s.l1 ≠ NULL then
    { s.split (heap.val s.l1 + s.over_) with l1 := heap.next s.l1 }
  else if s.l1 = NULL ∧ s.l2 ≠ NULL then
    { s.split (heap.val s.l2 + s.over_) with l2 := heap.next s.l2 }
  else s

/-- One turn of the loop. It ends with the memory and `result_head`. -/
def addTwoNumbers.turn (s : Adding) : (Heap × Ptr) ⊕ Adding :=
  let s := s.digit
  let result := s.result.append malloc s.tmp_val
  if s.l1 = NULL ∧ s.l2 = NULL then
    let result := if s.over_ = 1 then result.hang malloc 1 else result
    .inl (result.heap, result.head)
  else .inr { s with result }

def addTwoNumbers.start (heap : Heap) (l1 l2 : Ptr) : Adding :=
  ⟨l1, l2, 0, 0, ⟨heap, NULL, NULL⟩⟩

/-- `addTwoNumbers` returns a pointer, with the memory as it is then. -/
def addTwoNumbers.Returns (heap : Heap) (l1 l2 : Ptr) (r : Heap × Ptr) : Prop :=
  EndsWith (addTwoNumbers.turn malloc) (addTwoNumbers.start heap l1 l2) r

/-- One turn of the loop of `display`, with `temp` and what has been printed. -/
def display.turn (heap : Heap) (s : Ptr × Bytes) : Bytes ⊕ (Ptr × Bytes) :=
  if s.1 = NULL then .inl (s.2 ++ [10]) else .inr (heap.next s.1, s.2 ++ (decInt (heap.val s.1) ++ [32]))

/-- The loops of `main` that make a list of an array. -/
def main.list (heap : Heap) (a : List ℤ) : Built := a.foldl (Built.append malloc) ⟨heap, NULL, NULL⟩

/-- `main` with the arrays `a` and `b` prints a text. -/
def main.Prints (heap : Heap) (a b : List ℤ) (out : Bytes) : Prop :=
  let l1 := main.list malloc heap a
  let l2 := main.list malloc l1.heap b
  ∃ r, addTwoNumbers.Returns malloc l2.heap l1.head l2.head r ∧ EndsWith (display.turn r.1) (r.2, []) out

/-! ## What is asked for -/

/-- From `p` on there is a list of digits, of blocks that are in use. -/
structure Heap.HoldsDigits (heap : Heap) (p : Ptr) (ds : List ℕ) : Prop where
  digits : Digits ds
  list : ∃ l, ListAt heap.toCells NULL p l (ds.map Nat.cast) ∧ l ⊆ heap.used

/-- The digits of a sum, of which there is at least one. -/
def sumDigits (ds1 ds2 : List ℕ) : List ℕ := if ds1 = [] ∧ ds2 = [] then [0] else addCarry 10 0 ds1 ds2

theorem digits_sumDigits {ds1 ds2 : List ℕ} (h1 : Digits ds1) (h2 : Digits ds2) :
    Digits (sumDigits ds1 ds2) := by
  unfold sumDigits
  split_ifs with hnil
  · intro d hd
    rw [List.mem_singleton.mp hd]
    norm_num
  · exact addCarry_lt (by norm_num) (Nat.zero_le 1) h1 h2

theorem ofDigits_sumDigits (ds1 ds2 : List ℕ) :
    Nat.ofDigits 10 (sumDigits ds1 ds2) = Nat.ofDigits 10 ds1 + Nat.ofDigits 10 ds2 := by
  unfold sumDigits
  split_ifs with hnil
  · rw [hnil.1, hnil.2]
    rfl
  · rw [ofDigits_addCarry, Nat.add_zero]

theorem sumDigits_length (ds1 ds2 : List ℕ) :
    (sumDigits ds1 ds2).length = max 1 (max ds1.length ds2.length) ∨
      (sumDigits ds1 ds2).length = max 1 (max ds1.length ds2.length) + 1 := by
  unfold sumDigits
  split_ifs with hnil
  · rw [hnil.1, hnil.2]
    exact Or.inl rfl
  · have hpos : 1 ≤ max ds1.length ds2.length := by
      by_contra hzero
      exact hnil ⟨List.eq_nil_of_length_eq_zero (by omega), List.eq_nil_of_length_eq_zero (by omega)⟩
    rw [max_eq_right hpos]
    exact addCarry_length 10 0 ds1 ds2

/-! ## Building -/

/-- The list that is built holds `vs`, of blocks that were not in use in `heap`; those have not changed. -/
structure Built.Rep (heap : Heap) (r : Built) (vs : List ℤ) : Prop where
  list : ∃ l, Tailed r.heap.toCells NULL r.head r.tail l vs ∧ l ⊆ r.heap.used ∧ ∀ x ∈ heap.used, x ∉ l
  used : heap.used ⊆ r.heap.used
  same : ∀ x ∈ heap.used, r.heap.val x = heap.val x ∧ r.heap.next x = heap.next x

section Building

variable {heap : Heap} {r : Built} {vs : List ℤ}

theorem rep_nil (heap : Heap) : Built.Rep heap ⟨heap, NULL, NULL⟩ [] where
  list := ⟨[], tailed_nil _ _, List.nil_subset _, fun _ _ => List.not_mem_nil⟩
  used := List.Subset.refl _
  same := fun _ _ => ⟨rfl, rfl⟩

/-- The last pointer leads to the new block, so this is what is written to after it. -/
theorem hang_eq (r : Built) (v : ℤ) :
    r.hang malloc v =
      let e := malloc.block r.heap.used
      ⟨⟨Cells.put { r.heap.toCells with next := Function.update r.heap.next r.tail e } NULL e v,
        e :: r.heap.used⟩, r.head, e⟩ := by
  unfold Built.hang Cells.put
  dsimp only
  rw [Function.update_self]

/-- A block that was free becomes the last of the list, and nothing is written but to this block and to
the list. -/
theorem Built.Rep.grow {r' : Built} {vs' : List ℤ} {l : List Ptr} {e : Ptr} (h : r.Rep heap vs)
    (hl : l ⊆ r.heap.used) (hapart : ∀ x ∈ heap.used, x ∉ l) (hnew : e ∉ r.heap.used)
    (hlist : Tailed r'.heap.toCells NULL r'.head r'.tail (l ++ [e]) vs')
    (hused : r'.heap.used = e :: r.heap.used)
    (hwrites : ∀ x ∉ l, x ≠ e → r'.heap.val x = r.heap.val x ∧ r'.heap.next x = r.heap.next x) :
    r'.Rep heap vs' := by
  have hfree : ∀ x ∈ heap.used, x ≠ e := by
    rintro x hx rfl
    exact hnew (h.used hx)
  refine ⟨⟨l ++ [e], hlist, ?_, ?_⟩, ?_, ?_⟩
  · intro x hx
    rw [hused, List.mem_cons]
    rcases List.mem_append.mp hx with hx | hx
    · exact Or.inr (hl hx)
    · exact Or.inl (List.mem_singleton.mp hx)
  · intro x hx hmem
    rcases List.mem_append.mp hmem with hmem | hmem
    · exact hapart x hx hmem
    · exact hfree x hx (List.mem_singleton.mp hmem)
  · intro x hx
    rw [hused]
    exact List.mem_cons_of_mem e (h.used hx)
  · intro x hx
    obtain ⟨hval, hnext⟩ := hwrites x (hapart x hx) (hfree x hx)
    obtain ⟨hval', hnext'⟩ := h.same x hx
    exact ⟨hval.trans hval', hnext.trans hnext'⟩

theorem Built.Rep.hang (h : r.Rep heap vs) (hvs : vs ≠ []) (v : ℤ) :
    (r.hang malloc v).Rep heap (vs ++ [v]) := by
  obtain ⟨l, hlist, hl, hapart⟩ := h.list
  have hnew := malloc.fresh r.heap.used
  have hne : l ≠ [] := by
    rintro rfl
    exact hvs hlist.values.symm
  have htail : r.tail ∈ l := by
    obtain ⟨front, x, rfl⟩ := (List.eq_nil_or_concat' l).resolve_left hne
    rw [hlist.tail_eq, List.getLastD_concat]
    exact List.mem_append_right _ List.mem_cons_self
  have hlonger := hlist.push hne v (malloc.ne_null _) (fun hmem => hnew (hl hmem))
  rw [hang_eq]
  refine h.grow hl hapart hnew hlonger rfl fun x hx hxe => ⟨?_, ?_⟩
  · exact Function.update_of_ne hxe v r.heap.val
  · have hxtail : x ≠ r.tail := by
      rintro rfl
      exact hx htail
    show Function.update (Function.update r.heap.next r.tail _) _ NULL x = _
    rw [Function.update_of_ne hxe, Function.update_of_ne hxtail]

theorem Built.Rep.append (h : r.Rep heap vs) (v : ℤ) : (r.append malloc v).Rep heap (vs ++ [v]) := by
  obtain ⟨l, hlist, -, -⟩ := h.list
  have hhead := hlist.eq_null_iff
  unfold Built.append
  by_cases hvs : vs = []
  · have hnew := malloc.fresh r.heap.used
    have hfirst := tailed_first r.heap.toCells v (malloc.ne_null r.heap.used)
    rw [if_pos (hhead.mpr hvs), hvs]
    refine h.grow (List.nil_subset _) (fun _ _ => List.not_mem_nil) hnew hfirst rfl fun x _ hxe => ⟨?_, ?_⟩
    · exact Function.update_of_ne hxe v r.heap.val
    · exact Function.update_of_ne hxe NULL r.heap.next
  · rw [if_neg (mt hhead.mp hvs)]
    exact h.hang malloc hvs v

end Building

/-! ## The loop -/

section Loop

variable {heap : Heap}

theorem Heap.HoldsDigits.eq_null_iff {p : Ptr} {ds : List ℕ} (h : heap.HoldsDigits p ds) :
    p = NULL ↔ ds = [] := by
  obtain ⟨l, hlist, -⟩ := h.list
  rw [hlist.eq_null_iff, List.map_eq_nil_iff]

/-- The first digit, and the list behind it. -/
theorem Heap.HoldsDigits.uncons {p : Ptr} {d : ℕ} {ds : List ℕ} (h : heap.HoldsDigits p (d :: ds)) :
    p ∈ heap.used ∧ heap.val p = d ∧ d < 10 ∧ heap.HoldsDigits (heap.next p) ds := by
  obtain ⟨l, hlist, hl⟩ := h.list
  obtain ⟨l', rfl, hval, hrest⟩ := hlist.uncons
  have hdigits := List.forall_mem_cons.mp h.digits
  exact ⟨hl List.mem_cons_self, hval, hdigits.1, hdigits.2, l', hrest, fun x hx =>
    hl (List.mem_cons_of_mem p hx)⟩

/-- What is hung up is `out`, what is left of the lists `xs` and `ys`, and the carry `c`. -/
structure Adding.Rep (heap : Heap) (s : Adding) (out : List ℤ) (c : ℕ) (xs ys : List ℕ) : Prop where
  built : s.result.Rep heap out
  l1 : heap.HoldsDigits s.l1 xs
  l2 : heap.HoldsDigits s.l2 ys
  over_eq : s.over_ = c
  carry : c ≤ 1

/-- The sum of two digits and a carry is below 20. -/
theorem split_eq (s : Adding) {t : ℕ} (ht : t < 20) :
    s.split t = { s with tmp_val := (t % 10 : ℕ), over_ := (t / 10 : ℕ) } := by
  have hmod : (t : ℤ).tmod 10 = (t % 10 : ℕ) := by
    rw [Int.tmod_eq_emod_of_nonneg (Int.natCast_nonneg t)]
    rfl
  unfold Adding.split
  split_ifs with hcarry
  · rw [hmod, show t / 10 = 1 by omega]
    rfl
  · rw [show t % 10 = t by omega, show t / 10 = 0 by omega]
    rfl

/-- The sum of the digits that a turn takes, with the carry. -/
def digitSum (c : ℕ) (xs ys : List ℕ) : ℕ := xs.headD 0 + ys.headD 0 + c

/-- A turn takes a digit from each list that has one. -/
theorem Adding.Rep.digit {s : Adding} {out : List ℤ} {c : ℕ} {xs ys : List ℕ}
    (h : s.Rep heap out c xs ys) (hne : ¬ (xs = [] ∧ ys = [])) :
    s.digit.tmp_val = (digitSum c xs ys % 10 : ℕ) ∧
      s.digit.Rep heap out (digitSum c xs ys / 10) xs.tail ys.tail := by
  obtain ⟨hbuilt, h1, h2, hover, hcarry⟩ := h
  have hnull1 := h1.eq_null_iff
  have hnull2 := h2.eq_null_iff
  unfold Adding.digit digitSum
  dsimp only
  -- The lists are read in the memory with the result in it, where their nodes are what they were.
  rcases xs with _ | ⟨x, xs⟩
  · rcases ys with _ | ⟨y, ys⟩
    · exact absurd ⟨rfl, rfl⟩ hne
    · -- Only the second list has a digit.
      obtain ⟨hused, hval, hlt, hrest⟩ := h2.uncons
      obtain ⟨hsame, hnext⟩ := hbuilt.same _ hused
      have hp : s.l1 = NULL := hnull1.mpr rfl
      have hq : s.l2 ≠ NULL := fun h => absurd (hnull2.mp h) (List.cons_ne_nil y ys)
      rw [if_neg (fun h => h.1 hp), if_neg (fun h => h.2 hp), if_pos ⟨hp, hq⟩, hsame, hval, hover, hnext,
        List.headD_nil, List.headD_cons, Nat.zero_add, ← Nat.cast_add, split_eq s (by omega)]
      exact ⟨rfl, hbuilt, h1, hrest, rfl, by omega⟩
  · obtain ⟨hused1, hval1, hlt1, hrest1⟩ := h1.uncons
    obtain ⟨hsame1, hnext1⟩ := hbuilt.same _ hused1
    have hp : s.l1 ≠ NULL := fun h => absurd (hnull1.mp h) (List.cons_ne_nil x xs)
    rcases ys with _ | ⟨y, ys⟩
    · -- Only the first one has.
      have hq : s.l2 = NULL := hnull2.mpr rfl
      rw [if_neg (fun h => h.2 hq), if_pos ⟨hq, hp⟩, hsame1, hval1, hover, hnext1, List.headD_nil,
        List.headD_cons, Nat.add_zero, ← Nat.cast_add, split_eq s (by omega)]
      exact ⟨rfl, hbuilt, hrest1, h2, rfl, by omega⟩
    · obtain ⟨hused2, hval2, hlt2, hrest2⟩ := h2.uncons
      obtain ⟨hsame2, hnext2⟩ := hbuilt.same _ hused2
      have hq : s.l2 ≠ NULL := fun h => absurd (hnull2.mp h) (List.cons_ne_nil y ys)
      rw [if_pos ⟨hp, hq⟩, hsame1, hsame2, hval1, hval2, hover, hnext1, hnext2, List.headD_cons,
        List.headD_cons, ← Nat.cast_add, ← Nat.cast_add, split_eq s (by omega)]
      exact ⟨rfl, hbuilt, hrest1, hrest2, rfl, by omega⟩

/-- A turn behind the cases: the digit is hung up, and at the end of both lists the carry as well. -/
theorem turn_eq {s : Adding} {out : List ℤ} {c d : ℕ} {xs ys : List ℕ}
    (h : s.digit.Rep heap out c xs ys) (hval : s.digit.tmp_val = d) :
    (xs = [] ∧ ys = [] ∧ ∃ r : Built, r.Rep heap (out ++ (d :: addCarry 10 c xs ys).map Nat.cast) ∧
        addTwoNumbers.turn malloc s = .inl (r.heap, r.head)) ∨
      ¬ (xs = [] ∧ ys = []) ∧ ∃ s' : Adding, s'.Rep heap (out ++ [(d : ℤ)]) c xs ys ∧
        addTwoNumbers.turn malloc s = .inr s' := by
  have hnull1 := h.l1.eq_null_iff
  have hnull2 := h.l2.eq_null_iff
  have hbuilt := h.built.append malloc s.digit.tmp_val
  have hout : out ++ [s.digit.tmp_val] = out ++ [(d : ℤ)] := by rw [hval]
  have hover := h.over_eq
  have hcarry := h.carry
  rw [hout] at hbuilt
  unfold addTwoNumbers.turn
  dsimp only
  by_cases hend : xs = [] ∧ ys = []
  · left
    refine ⟨hend.1, hend.2, ?_⟩
    rw [if_pos ⟨hnull1.mpr hend.1, hnull2.mpr hend.2⟩, hend.1, hend.2]
    by_cases hone : c = 1
    · -- The carry is one more node.
      refine ⟨_, ?_, by rw [if_pos (by rw [hover, hone]; rfl)]⟩
      have hlast := hbuilt.hang malloc (by simp) 1
      rw [List.append_assoc] at hlast
      rw [hone]
      exact hlast
    · refine ⟨_, ?_, by rw [if_neg (by rw [hover]; exact_mod_cast hone)]⟩
      rw [show c = 0 by omega]
      exact hbuilt
  · right
    refine ⟨hend, _, ?_, if_neg (fun hboth => hend ⟨hnull1.mp hboth.1, hnull2.mp hboth.2⟩)⟩
    exact ⟨hbuilt, h.l1, h.l2, hover, hcarry⟩

/-- **The loop hangs up the sum of what is left.** -/
theorem loop_spec {s : Adding} {out : List ℤ} {c : ℕ} {xs ys : List ℕ} (h : s.Rep heap out c xs ys)
    (hne : ¬ (xs = [] ∧ ys = [])) :
    ∃ r : Built, r.Rep heap (out ++ (addCarry 10 c xs ys).map Nat.cast) ∧
      EndsWith (addTwoNumbers.turn malloc) s (r.heap, r.head) := by
  -- A turn takes at least one digit, so the number of digits left gets smaller.
  induction hn : xs.length + ys.length using Nat.strong_induction_on generalizing s out c xs ys with
  | _ n ih =>
      obtain ⟨hval, hdigit⟩ := h.digit hne
      rw [addCarry_eq_cons hne]
      rcases turn_eq malloc hdigit hval with ⟨-, -, r, hr, hturn⟩ | ⟨hmore, s', hs', hturn⟩
      · exact ⟨r, hr, (endsWith_inl hturn).mpr rfl⟩
      · have hless : xs.tail.length + ys.tail.length < n := by
          rw [List.length_tail, List.length_tail]
          rcases xs with _ | ⟨x, xs⟩
          · rcases ys with _ | ⟨y, ys⟩
            · exact absurd ⟨rfl, rfl⟩ hne
            · simp only [List.length_nil, List.length_cons] at hn ⊢
              omega
          · simp only [List.length_cons] at hn ⊢
            omega
        obtain ⟨r, hr, hends⟩ := ih _ hless hs' hmore rfl
        rw [List.append_assoc] at hr
        exact ⟨r, hr, (endsWith_inr hturn).mpr hends⟩

end Loop

/-! ## The results -/

variable {malloc}

/-- The digits of what has been built. -/
theorem Built.Rep.holdsDigits {heap : Heap} {r : Built} {ds : List ℕ} (h : r.Rep heap (ds.map Nat.cast))
    (hds : Digits ds) : r.heap.HoldsDigits r.head ds := by
  obtain ⟨l, hlist, hl, -⟩ := h.list
  exact ⟨hds, l, hlist.toListAt, hl⟩

/-- A list that was there before is still there. -/
theorem Heap.HoldsDigits.built {heap : Heap} {p : Ptr} {ds : List ℕ} (hp : heap.HoldsDigits p ds)
    {r : Built} {vs : List ℤ} (h : r.Rep heap vs) : r.heap.HoldsDigits p ds := by
  obtain ⟨l, hlist, hl⟩ := hp.list
  exact ⟨hp.digits, l, hlist.frame fun x hx => h.same x (hl hx), fun x hx => h.used (hl hx)⟩

/-- What `addTwoNumbers` returns, and what it leaves as it was. -/
theorem addTwoNumbers_spec (malloc : Malloc) {heap : Heap} {l1 l2 : Ptr} {ds1 ds2 : List ℕ}
    (h1 : heap.HoldsDigits l1 ds1) (h2 : heap.HoldsDigits l2 ds2) :
    ∃ r : Built, r.Rep heap ((sumDigits ds1 ds2).map Nat.cast) ∧
      addTwoNumbers.Returns malloc heap l1 l2 (r.heap, r.head) := by
  have hstart : (addTwoNumbers.start heap l1 l2).Rep heap [] 0 ds1 ds2 :=
    ⟨rep_nil heap, h1, h2, rfl, Nat.zero_le 1⟩
  unfold sumDigits addTwoNumbers.Returns
  by_cases hnil : ds1 = [] ∧ ds2 = []
  · -- None of the three cases applies.
    have hl1 := h1.eq_null_iff.mpr hnil.1
    have hl2 := h2.eq_null_iff.mpr hnil.2
    have hdigit : (addTwoNumbers.start heap l1 l2).digit = addTwoNumbers.start heap l1 l2 := by
      unfold Adding.digit
      rw [if_neg (fun h => h.1 hl1), if_neg (fun h => h.2 hl1), if_neg (fun h => h.2 hl2)]
    rw [if_pos hnil]
    rcases turn_eq malloc (d := 0) (by rw [hdigit]; exact hstart) (by rw [hdigit]; rfl) with
      ⟨-, -, r, hr, hturn⟩ | ⟨hmore, -⟩
    · rw [hnil.1, hnil.2] at hr
      exact ⟨r, hr, (endsWith_inl hturn).mpr rfl⟩
    · exact absurd hnil hmore
  · rw [if_neg hnil]
    exact loop_spec malloc hstart hnil

/-- Whatever is returned, the digits of the sum are in it, and nothing else. -/
theorem returns_holdsDigits_iff {heap : Heap} {l1 l2 : Ptr} {ds1 ds2 : List ℕ}
    (h1 : heap.HoldsDigits l1 ds1) (h2 : heap.HoldsDigits l2 ds2) {r : Heap × Ptr}
    (hr : addTwoNumbers.Returns malloc heap l1 l2 r) {ds : List ℕ} :
    r.1.HoldsDigits r.2 ds ↔ ds = sumDigits ds1 ds2 := by
  obtain ⟨r', hrep, hreturns⟩ := addTwoNumbers_spec malloc h1 h2
  obtain rfl : r = (r'.heap, r'.head) := hr.unique hreturns
  have hsum := hrep.holdsDigits (digits_sumDigits h1.digits h2.digits)
  constructor
  · intro hds
    obtain ⟨l, hlist, -⟩ := hds.list
    obtain ⟨l', hlist', -⟩ := hsum.list
    exact List.map_injective_iff.mpr Nat.cast_injective (hlist.unique hlist')
  · rintro rfl
    exact hsum

/-- **The sum of two lists of digits**: the function returns a list of digits whose value is the sum, as
long as the longer list or by one digit longer, and not empty. -/
theorem addTwoNumbers_sum (malloc : Malloc) {heap : Heap} {l1 l2 : Ptr} {ds1 ds2 : List ℕ}
    (h1 : heap.HoldsDigits l1 ds1) (h2 : heap.HoldsDigits l2 ds2) :
    ∃ heap' result_head ds, addTwoNumbers.Returns malloc heap l1 l2 (heap', result_head) ∧
      heap'.HoldsDigits result_head ds ∧
      Nat.ofDigits 10 ds = Nat.ofDigits 10 ds1 + Nat.ofDigits 10 ds2 ∧
      (ds.length = max 1 (max ds1.length ds2.length) ∨
        ds.length = max 1 (max ds1.length ds2.length) + 1) := by
  obtain ⟨r, hr, hreturns⟩ := addTwoNumbers_spec malloc h1 h2
  exact ⟨r.heap, r.head, sumDigits ds1 ds2, hreturns,
    hr.holdsDigits (digits_sumDigits h1.digits h2.digits), ofDigits_sumDigits ds1 ds2,
    sumDigits_length ds1 ds2⟩

/-- One past the highest block in use. -/
def nextBlock : Malloc where
  block used := used.foldr max 0 + 1
  ne_null used := Nat.succ_ne_zero _
  fresh used := by
    intro hmem
    have hle : ∀ l : List Ptr, ∀ x ∈ l, x ≤ l.foldr max 0 := by
      intro l
      induction l with
      | nil => exact nofun
      | cons y l ih =>
          intro x hx
          rw [List.foldr_cons]
          rcases List.mem_cons.mp hx with rfl | hx
          · exact le_max_left _ _
          · exact (ih x hx).trans (le_max_right _ _)
    exact absurd (hle used _ hmem) (Nat.not_succ_le_self _)

/-- The list 9, 9 at the blocks 1 and 2, and the list 1 at the block 3. -/
def heap99and1 : Heap where
  val p := if p = 3 then 1 else 9
  next p := if p = 1 then 2 else NULL
  used := [1, 2, 3]

theorem addTwoNumbers_sum_99_1 :
    heap99and1.HoldsDigits 1 [9, 9] ∧ heap99and1.HoldsDigits 3 [1] ∧
      ∃ heap' result_head ds, addTwoNumbers.Returns nextBlock heap99and1 1 3 (heap', result_head) ∧
        heap'.HoldsDigits result_head ds ∧ Nat.ofDigits 10 ds = 100 := by
  have h1 : heap99and1.HoldsDigits 1 [9, 9] :=
    ⟨by decide, [1, 2], ⟨⟨rfl, rfl, rfl⟩, by decide, rfl⟩, by decide⟩
  have h2 : heap99and1.HoldsDigits 3 [1] := ⟨by decide, [3], ⟨⟨rfl, rfl⟩, by decide, rfl⟩, by decide⟩
  obtain ⟨heap', result_head, ds, hreturns, hds, hvalue, -⟩ := addTwoNumbers_sum nextBlock h1 h2
  exact ⟨h1, h2, heap', result_head, ds, hreturns, hds, hvalue⟩

/-! ## `main` -/

/-- What `display` prints for a list of digits. -/
def displayText (ds : List ℕ) : Bytes := ds.flatMap (fun d : ℕ => decInt d ++ [32]) ++ [10]

theorem display_spec {heap : Heap} {p : Ptr} {ds : List ℕ} (h : heap.HoldsDigits p ds) (out : Bytes) :
    EndsWith (display.turn heap) (p, out) (out ++ displayText ds) := by
  unfold displayText
  induction ds generalizing p out with
  | nil =>
      have hturn : display.turn heap (p, out) = .inl (out ++ [10]) := if_pos (h.eq_null_iff.mpr rfl)
      exact (endsWith_inl hturn).mpr rfl
  | cons d ds ih =>
      obtain ⟨-, hval, -, hrest⟩ := h.uncons
      have hturn : display.turn heap (p, out) = .inr (heap.next p, out ++ (decInt d ++ [32])) := by
        rw [← hval]
        exact if_neg fun hnull => absurd (h.eq_null_iff.mp hnull) (List.cons_ne_nil d ds)
      have hnext := ih hrest (out ++ (decInt d ++ [32]))
      rw [List.append_assoc out] at hnext
      rw [endsWith_inr hturn, List.flatMap_cons, List.append_assoc (decInt d ++ [32])]
      exact hnext

/-- The list of an array. -/
theorem main_list_rep (malloc : Malloc) (heap : Heap) (a : List ℤ) :
    (main.list malloc heap a).Rep heap a := by
  have hfold : ∀ (r : Built) (vs : List ℤ), r.Rep heap vs →
      (a.foldl (Built.append malloc) r).Rep heap (vs ++ a) := by
    induction a with
    | nil =>
        intro r vs h
        rwa [List.append_nil]
    | cons v a ih =>
        intro r vs h
        rw [List.foldl_cons, List.append_cons]
        exact ih _ _ (h.append malloc v)
  exact hfold _ [] (rep_nil heap)

/-- **`main` prints the digits of the sum** of the numbers in its arrays. -/
theorem main_prints (malloc : Malloc) (heap : Heap) {a b : List ℕ} (ha : Digits a) (hb : Digits b) :
    main.Prints malloc heap (a.map Nat.cast) (b.map Nat.cast) (displayText (sumDigits a b)) := by
  have hl1 := (main_list_rep malloc heap (a.map Nat.cast)).holdsDigits ha
  have hrep := main_list_rep malloc (main.list malloc heap (a.map Nat.cast)).heap (b.map Nat.cast)
  obtain ⟨r, hr, hreturns⟩ := addTwoNumbers_spec malloc (hl1.built hrep) (hrep.holdsDigits hb)
  refine ⟨_, hreturns, ?_⟩
  have hdisplay := display_spec (hr.holdsDigits (digits_sumDigits ha hb)) []
  rwa [List.nil_append] at hdisplay

/-- The arrays of `main`. -/
example (malloc : Malloc) (heap : Heap) :
    main.Prints malloc heap [9, 9, 9, 9] [9, 9, 9, 9, 9, 9, 9] (bytes "8 9 9 9 0 0 0 1 \n") :=
  main_prints malloc heap (a := [9, 9, 9, 9]) (b := [9, 9, 9, 9, 9, 9, 9]) (by decide) (by decide)

end TestCore.Link
