/-
Chains of pointers.

A linked list in memory is a function `next` from nodes to nodes. `Chain next a l b` says that
following it from `a` one meets exactly the nodes of `l`, in order, and then `b`. With a null
pointer as `b` this is an ordinary list; with `a = b` and that node in front it is a ring.

A program changes such a list by writing single pointers. Two rules cover it: a write to a node
outside the chain does not matter (`Chain.update`), and a write to the last node of a chain turns
it to another end (`Chain.retarget`), or to a further node (`Chain.concat`). Chains are put
together and taken apart by `chain_append`.
-/
import Mathlib

set_option autoImplicit false

namespace TestCore.Lib

section Chain

variable {π : Type*}

/-- From `a` one meets `l`, and then `b`. -/
def Chain (next : π → π) : π → List π → π → Prop
  | a, [], b => a = b
  | a, x :: l, b => a = x ∧ Chain next (next x) l b

@[simp] theorem chain_nil (next : π → π) (a b : π) : Chain next a [] b ↔ a = b := Iff.rfl

@[simp] theorem chain_cons (next : π → π) (a x b : π) (l : List π) :
    Chain next a (x :: l) b ↔ a = x ∧ Chain next (next x) l b := Iff.rfl

theorem chain_append (next : π → π) (a c : π) (l l' : List π) :
    Chain next a (l ++ l') c ↔ ∃ b, Chain next a l b ∧ Chain next b l' c := by
  induction l generalizing a with
  | nil => simp
  | cons x l ih =>
      rw [List.cons_append, chain_cons, ih]
      constructor
      · rintro ⟨hx, b, hl, hl'⟩
        exact ⟨b, ⟨hx, hl⟩, hl'⟩
      · rintro ⟨b, ⟨hx, hl⟩, hl'⟩
        exact ⟨hx, b, hl, hl'⟩

/-- The nodes met from `a` on in `n` steps. -/
def nodesFrom (next : π → π) : ℕ → π → List π
  | 0, _ => []
  | n + 1, a => a :: nodesFrom next n (next a)

/-- A chain is found by walking it. -/
theorem Chain.nodesFrom {next : π → π} {a b : π} {l : List π} (h : Chain next a l b) :
    nodesFrom next l.length a = l := by
  induction l generalizing a with
  | nil => rfl
  | cons x l ih =>
      obtain ⟨rfl, hrest⟩ := h
      rw [List.length_cons, TestCore.Lib.nodesFrom, ih hrest]

/-- The first node, or the end if there is none. -/
theorem Chain.head {next : π → π} {a b : π} {l : List π} (h : Chain next a l b) : a = l.headD b := by
  rcases l with _ | ⟨x, l⟩
  · exact h
  · exact h.1

/-- Only the nodes of the chain matter. -/
theorem Chain.frame {next next' : π → π} {a b : π} {l : List π} (h : Chain next a l b)
    (hsame : ∀ x ∈ l, next' x = next x) : Chain next' a l b := by
  induction l generalizing a with
  | nil => exact h
  | cons x l ih =>
      obtain ⟨hx, hrest⟩ := h
      refine ⟨hx, ?_⟩
      rw [hsame x (by simp)]
      exact ih hrest (fun y hy => hsame y (List.mem_cons_of_mem x hy))

variable [DecidableEq π]

theorem Chain.update {next : π → π} {a b : π} {l : List π} (h : Chain next a l b) {x : π}
    (hx : x ∉ l) (c : π) : Chain (Function.update next x c) a l b := by
  apply h.frame
  intro y hy
  apply Function.update_of_ne
  rintro rfl
  exact hx hy

/-- The last node of a chain is turned to `c`. -/
theorem Chain.retarget {next : π → π} {a b : π} {l : List π} {x : π}
    (h : Chain next a (l ++ [x]) b) (hx : x ∉ l) (c : π) :
    Chain (Function.update next x c) a (l ++ [x]) c := by
  obtain ⟨y, hl, hy, -⟩ := (chain_append next a b l [x]).mp h
  apply (chain_append _ a c l [x]).mpr
  refine ⟨y, hl.update hx c, hy, ?_⟩
  rw [Function.update_self]
  rfl

/-- A node that is not in the chain is hung behind the last one. -/
theorem Chain.concat {next : π → π} {a b : π} {l : List π} {x : π}
    (h : Chain next a (l ++ [x]) b) (hx : x ∉ l) {e : π} (he : e ∉ l ++ [x]) :
    Chain (Function.update next x e) a (l ++ [x] ++ [e]) (next e) := by
  have hne : e ≠ x := by
    rintro rfl
    exact he (by simp)
  apply (chain_append _ _ _ _ _).mpr
  refine ⟨e, h.retarget hx e, rfl, ?_⟩
  rw [Function.update_of_ne hne]
  rfl

end Chain

end TestCore.Lib
