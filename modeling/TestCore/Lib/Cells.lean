/-
Linked lists of values in memory.

A node has a value and a pointer to the next one. `ListAt m null p l vs` says that from `p` on the nodes
`l` hold the values `vs`, and behind the last one there is the null pointer. The nodes are named, so that
lists can be told apart: what a program writes elsewhere leaves a list as it is (`ListAt.frame`).

A list is built at its end, with a pointer to the first node and one to the last (`Tailed`). A node that is
not in the list becomes the last one in two ways, for the first value (`tailed_first`) and for the others
(`Tailed.push`).
-/
import TestCore.Lib.Chain

set_option autoImplicit false

namespace TestCore.Lib

section Cells

variable {π ν : Type*}

/-- The two fields of each node. -/
structure Cells (π ν : Type*) where
  val : π → ν
  next : π → π

/-- From `p` on, the nodes `l` hold `vs`. -/
structure ListAt (m : Cells π ν) (null p : π) (l : List π) (vs : List ν) : Prop where
  chain : Chain m.next p l null
  nonnull : null ∉ l
  values : l.map m.val = vs

variable {m m' : Cells π ν} {null p : π} {l : List π} {vs : List ν}

theorem listAt_nil (m : Cells π ν) (null : π) : ListAt m null null [] [] := ⟨rfl, List.not_mem_nil, rfl⟩

/-- Only an empty list is the null pointer. -/
theorem ListAt.eq_null_iff (h : ListAt m null p l vs) : p = null ↔ vs = [] := by
  obtain ⟨hchain, hnonnull, hvalues⟩ := h
  rcases l with _ | ⟨x, l⟩
  · exact iff_of_true hchain hvalues.symm
  · obtain ⟨rfl, -⟩ := hchain
    refine iff_of_false ?_ ?_
    · rintro rfl
      exact hnonnull List.mem_cons_self
    · rintro rfl
      cases hvalues

/-- The first node, and the list behind it. -/
theorem ListAt.uncons {v : ν} (h : ListAt m null p l (v :: vs)) :
    ∃ l', l = p :: l' ∧ m.val p = v ∧ ListAt m null (m.next p) l' vs := by
  obtain ⟨hchain, hnonnull, hvalues⟩ := h
  rcases l with _ | ⟨x, l⟩
  · cases hvalues
  · obtain ⟨rfl, hchain⟩ := hchain
    rw [List.mem_cons, not_or] at hnonnull
    obtain ⟨hval, hvalues⟩ := List.cons.inj hvalues
    exact ⟨l, rfl, hval, hchain, hnonnull.2, hvalues⟩

/-- Only the nodes of a list matter. -/
theorem ListAt.frame (h : ListAt m null p l vs)
    (hsame : ∀ x ∈ l, m'.val x = m.val x ∧ m'.next x = m.next x) : ListAt m' null p l vs where
  chain := h.chain.frame fun x hx => (hsame x hx).2
  nonnull := h.nonnull
  values := by
    rw [← h.values]
    exact List.map_congr_left fun x hx => (hsame x hx).1

/-- One list begins at a place. -/
theorem ListAt.unique {l' : List π} {vs' : List ν} (h : ListAt m null p l vs)
    (h' : ListAt m null p l' vs') : vs = vs' := by
  induction vs generalizing p l l' vs' with
  | nil => exact (h'.eq_null_iff.mp (h.eq_null_iff.mpr rfl)).symm
  | cons v vs ih =>
      rcases vs' with _ | ⟨v', vs'⟩
      · exact h.eq_null_iff.mp (h'.eq_null_iff.mpr rfl)
      · obtain ⟨l₁, -, hv, hrest⟩ := h.uncons
        obtain ⟨l₂, -, hv', hrest'⟩ := h'.uncons
        rw [← hv, ← hv', ih hrest hrest']

/-! ## A list that is built -/

/-- The list from `head` on, with its last node at `tail`. -/
structure Tailed (m : Cells π ν) (null head tail : π) (l : List π) (vs : List ν) : Prop
    extends ListAt m null head l vs where
  nodup : l.Nodup
  tail_eq : tail = l.getLastD null

theorem tailed_nil (m : Cells π ν) (null : π) : Tailed m null null null [] [] :=
  ⟨listAt_nil m null, List.nodup_nil, rfl⟩

variable [DecidableEq π] {head tail e : π} {v : ν}

/-- A node gets its value, and nothing behind it. -/
def Cells.put (m : Cells π ν) (null e : π) (v : ν) : Cells π ν where
  val := Function.update m.val e v
  next := Function.update m.next e null

/-- A node becomes the only one. -/
theorem tailed_first (m : Cells π ν) (v : ν) (he : e ≠ null) :
    Tailed (m.put null e v) null e e [e] [v] where
  chain := by
    refine ⟨rfl, ?_⟩
    show Function.update m.next e null e = null
    exact Function.update_self e null m.next
  nonnull := by
    rw [List.mem_singleton]
    exact he.symm
  values := by
    show [Function.update m.val e v e] = [v]
    rw [Function.update_self]
  nodup := List.nodup_singleton e
  tail_eq := rfl

/-- A node becomes the last one. -/
theorem Tailed.push (h : Tailed m null head tail l vs) (hl : l ≠ []) (v : ν) (he : e ≠ null)
    (hnew : e ∉ l) :
    Tailed (Cells.put { m with next := Function.update m.next tail e } null e v) null head e (l ++ [e])
      (vs ++ [v]) := by
  obtain ⟨⟨hchain, hnonnull, hvalues⟩, hnodup, htail⟩ := h
  obtain ⟨front, x, rfl⟩ := (List.eq_nil_or_concat' l).resolve_left hl
  obtain rfl : tail = x := by rw [htail, List.getLastD_concat]
  have hdisjoint : tail ∉ front := by
    rw [← List.concat_eq_append, List.nodup_concat] at hnodup
    exact hnodup.1
  have hne : tail ≠ e := by
    rintro rfl
    exact hnew (by simp)
  -- The pointers are written in the other order than in `Chain.concat`, to two different nodes.
  have hlonger := (hchain.update hnew null).concat hdisjoint hnew
  rw [Function.update_self, Function.update_comm hne.symm] at hlonger
  refine ⟨⟨hlonger, ?_, ?_⟩, ?_, ?_⟩
  · rw [List.mem_append, List.mem_singleton, not_or]
    exact ⟨hnonnull, he.symm⟩
  · show (front ++ [tail] ++ [e]).map (Function.update m.val e v) = vs ++ [v]
    rw [List.map_append, List.map_singleton, Function.update_self, ← hvalues]
    congr 1
    refine List.map_congr_left fun x hx => Function.update_of_ne ?_ v m.val
    rintro rfl
    exact hnew hx
  · rw [← List.concat_eq_append, List.nodup_concat]
    exact ⟨hnew, hnodup⟩
  · rw [List.getLastD_concat]

end Cells

end TestCore.Lib
