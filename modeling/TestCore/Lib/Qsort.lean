/-
What `qsort` promises, and what it asks for.

`qsort` is given a comparison that returns a number. If the comparison is consistent on the array,
the result has the same elements in an order that the comparison agrees with. If it is not,
nothing is said about the result at all. So a statement about "every `qsort`" is one about every
function that meets `QsortContract`, and it holds only as far as the comparison is consistent.

An array that is sorted again after every new element is the case that is needed
(`foldl_sorted`): each of these arrays has to be one that the comparison is consistent on.
-/
import Mathlib

set_option autoImplicit false

namespace TestCore.Lib

section Qsort

variable {α : Type*} (cmp : α → α → ℤ)

/-- A consistent comparison of the elements of a list: two of them compare one way or the other,
whichever comes first, and the order that results is transitive. -/
structure ConsistentOn (l : List α) : Prop where
  opposite : ∀ a ∈ l, ∀ b ∈ l, a ≠ b → (cmp a b).sign = - (cmp b a).sign
  trans : ∀ a ∈ l, ∀ b ∈ l, ∀ c ∈ l, cmp a b ≤ 0 → cmp b c ≤ 0 → cmp a c ≤ 0

/-- A sorting algorithm that does what `qsort` promises. -/
def QsortContract (sort : List α → List α) : Prop :=
  ∀ l, ConsistentOn cmp l → (sort l).Perm l ∧ (sort l).Pairwise fun a b => cmp a b ≤ 0

variable {cmp}

theorem ConsistentOn.mono {l l' : List α} (h : ConsistentOn cmp l) (hsub : l' ⊆ l) :
    ConsistentOn cmp l' where
  opposite := fun a ha b hb => h.opposite a (hsub ha) b (hsub hb)
  trans := fun a ha b hb c hc => h.trans a (hsub ha) b (hsub hb) c (hsub hc)

/-- Such an algorithm exists: sorting by insertion. -/
theorem exists_qsort (hself : ∀ a, cmp a a ≤ 0) : ∃ sort, QsortContract cmp sort := by
  classical
  have hone : ∀ l : List α, ∃ r : List α, ConsistentOn cmp l →
      r.Perm l ∧ r.Pairwise fun a b => cmp a b ≤ 0 := by
    intro l
    by_cases h : ConsistentOn cmp l
    · -- Only the elements of the list are compared.
      let le : {a // a ∈ l} → {a // a ∈ l} → Prop := fun a b => cmp a b ≤ 0
      have htotal : Std.Total le := by
        refine ⟨fun a b => ?_⟩
        by_cases hab : a = b
        · exact Or.inl (hab ▸ hself a)
        · have hsign := h.opposite a a.2 b b.2 (fun heq => hab (Subtype.ext heq))
          rcases le_or_gt (cmp a b) 0 with hle | hgt
          · exact Or.inl hle
          · right
            rw [Int.sign_eq_one_of_pos hgt] at hsign
            have hneg : cmp b a < 0 := Int.sign_eq_neg_one_iff_neg.mp (by omega)
            exact hneg.le
      have htrans : IsTrans {a // a ∈ l} le := ⟨fun a b c hab hbc => h.trans a a.2 b b.2 c c.2 hab hbc⟩
      refine ⟨(l.attach.insertionSort le).map Subtype.val, fun _ => ⟨?_, ?_⟩⟩
      · have hperm := (List.perm_insertionSort le l.attach).map Subtype.val
        rwa [List.attach_map_subtype_val] at hperm
      · exact List.pairwise_map.mpr (List.pairwise_insertionSort le l.attach)
    · exact ⟨l, fun hc => absurd hc h⟩
  choose sort hsort using hone
  exact ⟨sort, fun l hl => hsort l hl⟩

/-- **An array that is sorted after every new element** is a sorted array of the elements, if the
comparison is consistent on all of them. -/
theorem foldl_sorted {sort : List α → List α} (hsort : QsortContract cmp sort) {l : List α}
    (hcons : ConsistentOn cmp l) {order arr : List α} (harr : arr ⊆ l) (horder : order ⊆ l)
    (hsorted : arr.Pairwise fun a b => cmp a b ≤ 0) :
    (order.foldl (fun arr a => sort (arr ++ [a])) arr).Perm (arr ++ order) ∧
      (order.foldl (fun arr a => sort (arr ++ [a])) arr).Pairwise fun a b => cmp a b ≤ 0 := by
  induction order generalizing arr with
  | nil => exact ⟨by rw [List.append_nil]; exact List.Perm.refl arr, hsorted⟩
  | cons a order ih =>
      have hsub : arr ++ [a] ⊆ l := by
        intro x hx
        rcases List.mem_append.mp hx with hx | hx
        · exact harr hx
        · rw [List.mem_singleton.mp hx]
          exact horder List.mem_cons_self
      -- The array before was sorted, but `qsort` is asked again with one element more.
      obtain ⟨hperm, hpair⟩ := hsort (arr ++ [a]) (hcons.mono hsub)
      have hnext := @ih (sort (arr ++ [a])) (fun x hx => hsub (hperm.mem_iff.mp hx))
        (fun x hx => horder (List.mem_cons_of_mem a hx)) hpair
      refine ⟨?_, hnext.2⟩
      have happ := hnext.1.trans (hperm.append_right order)
      rwa [List.append_assoc] at happ

end Qsort

end TestCore.Lib
