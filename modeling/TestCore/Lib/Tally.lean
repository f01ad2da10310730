/-
Shares in a list of keyed entries.

Every item has a key of its own and brings some entries, under whatever keys. If no item brings
more than it asks for, and every key gets what its item asks for, then there is nothing to spare:
every item brings exactly what it asks for and every key gets exactly that (`shares_tight`). What
counts is a weight on the entries, so that the same argument can be made with several weights.
-/
import Mathlib

set_option autoImplicit false

namespace TestCore.Lib

section Tally

variable {ι κ ν : Type*} [DecidableEq κ]

/-- The entries under a key. -/
def entriesOf (k : κ) (es : List (κ × ν)) : List (κ × ν) := es.filter fun e => e.1 = k

theorem mem_entriesOf {k : κ} {es : List (κ × ν)} {e : κ × ν} :
    e ∈ entriesOf k es ↔ e ∈ es ∧ e.1 = k := by
  unfold entriesOf
  rw [List.mem_filter, decide_eq_true_eq]

@[simp] theorem entriesOf_append (k : κ) (es es' : List (κ × ν)) :
    entriesOf k (es ++ es') = entriesOf k es ++ entriesOf k es' := List.filter_append ..

theorem entriesOf_eq_nil {k : κ} {es : List (κ × ν)} : entriesOf k es = [] ↔ ∀ e ∈ es, e.1 ≠ k := by
  unfold entriesOf
  simp [List.filter_eq_nil_iff]

/-- The entries of two lists that are mixed. -/
theorem entriesOf_flatMap_perm (k : κ) (brings : ι → List (κ × ν)) (P : ι → Bool) (items : List ι) :
    (entriesOf k (items.flatMap brings)).Perm
      (entriesOf k ((items.filter P).flatMap brings) ++
        entriesOf k ((items.filter fun i => !P i).flatMap brings)) := by
  have hperm := (List.filter_append_perm P items).symm.flatMap_right brings
  rw [List.flatMap_append] at hperm
  have hkept := hperm.filter fun e => decide (e.1 = k)
  rwa [List.filter_append] at hkept

/-- An item with a key of its own that brings one entry under it has this entry. -/
theorem entriesOf_own {items : List ι} {key : ι → κ} (hkeys : (items.map key).Nodup)
    (value : ι → ν) {i : ι} (hi : i ∈ items) :
    entriesOf (key i) (items.map fun j => (key j, value j)) = [(key i, value i)] := by
  induction items with
  | nil => cases hi
  | cons j items ih =>
      rw [List.map_cons, List.nodup_cons] at hkeys
      obtain ⟨hj, hkeys⟩ := hkeys
      have hcons : entriesOf (key i) ((key j, value j) :: items.map fun j => (key j, value j))
          = (if key j = key i then [(key j, value j)] else []) ++
            entriesOf (key i) (items.map fun j => (key j, value j)) := by
        unfold entriesOf
        rw [List.filter_cons]
        by_cases h : key j = key i
        · simp [h]
        · simp [h]
      rw [List.map_cons, hcons]
      rcases List.mem_cons.mp hi with rfl | hi
      · rw [if_pos rfl, entriesOf_eq_nil.mpr, List.append_nil]
        intro e he heq
        obtain ⟨j', hj', rfl⟩ := List.mem_map.mp he
        exact hj (List.mem_map.mpr ⟨j', hj', heq⟩)
      · have hne : key j ≠ key i := fun h => hj (h ▸ List.mem_map_of_mem hi)
        rw [if_neg hne, List.nil_append]
        exact ih hkeys hi

/-- The entries under different keys are different entries. -/
theorem sum_entriesOf_le {keys : List κ} (hkeys : keys.Nodup) (f : κ × ν → ℕ) (es : List (κ × ν)) :
    (keys.map fun k => ((entriesOf k es).map f).sum).sum ≤ (es.map f).sum := by
  induction keys generalizing es with
  | nil => simp
  | cons k keys ih =>
      obtain ⟨hk, hkeys⟩ := List.nodup_cons.mp hkeys
      -- The other keys have their entries among those that are not under `k`.
      have hrest : ∀ k' ∈ keys, entriesOf k' es = entriesOf k' (es.filter fun e => e.1 ≠ k) := by
        intro k' hk'
        have hne : k' ≠ k := ne_of_mem_of_not_mem hk' hk
        unfold entriesOf
        rw [List.filter_filter]
        refine List.filter_congr fun e _ => ?_
        by_cases he : e.1 = k'
        · simp [he, hne]
        · simp [he]
      have hsplit : (es.map f).sum
          = ((entriesOf k es).map f).sum + ((es.filter fun e => e.1 ≠ k).map f).sum := by
        have hperm := (List.filter_append_perm (fun e => decide (e.1 = k)) es).map f
        rw [← hperm.sum_eq, List.map_append, List.sum_append]
        unfold entriesOf
        simp
      have hsums : (keys.map fun k' => ((entriesOf k' es).map f).sum)
          = keys.map fun k' => ((entriesOf k' (es.filter fun e => e.1 ≠ k)).map f).sum :=
        List.map_congr_left fun k' hk' => by rw [hrest k' hk']
      have hle := ih hkeys (es.filter fun e => e.1 ≠ k)
      rw [List.map_cons, List.sum_cons, hsplit, hsums]
      omega

/-- Sums that are equal although no summand is bigger have equal summands. -/
theorem eq_of_sum_le {f g : ι → ℕ} {l : List ι} (hle : ∀ i ∈ l, f i ≤ g i)
    (hsum : (l.map g).sum ≤ (l.map f).sum) : ∀ i ∈ l, f i = g i := by
  induction l with
  | nil => simp
  | cons j l ih =>
      have hj := hle j List.mem_cons_self
      have hl : ∀ i ∈ l, f i ≤ g i := fun i hi => hle i (List.mem_cons_of_mem j hi)
      have hrest := List.sum_le_sum hl
      rw [List.map_cons, List.map_cons, List.sum_cons, List.sum_cons] at hsum
      intro i hi
      rcases List.mem_cons.mp hi with rfl | hi
      · omega
      · exact ih hl (by omega) i hi

omit [DecidableEq κ] in
theorem sum_flatMap (f : κ × ν → ℕ) (brings : ι → List (κ × ν)) (items : List ι) :
    ((items.flatMap brings).map f).sum = (items.map fun i => ((brings i).map f).sum).sum := by
  induction items with
  | nil => rfl
  | cons i items ih =>
      rw [List.flatMap_cons, List.map_append, List.sum_append, ih, List.map_cons, List.sum_cons]

/-- **Nothing to spare.** -/
theorem shares_tight {items : List ι} {key : ι → κ} (hkeys : (items.map key).Nodup)
    (f : κ × ν → ℕ) (need : ι → ℕ) (brings : ι → List (κ × ν))
    (hneed : ∀ i ∈ items, need i ≤ ((entriesOf (key i) (items.flatMap brings)).map f).sum)
    (hbrings : ∀ i ∈ items, ((brings i).map f).sum ≤ need i) :
    ∀ i ∈ items, ((brings i).map f).sum = need i ∧
      ((entriesOf (key i) (items.flatMap brings)).map f).sum = need i := by
  have hgot := sum_entriesOf_le hkeys f (items.flatMap brings)
  rw [List.map_map, sum_flatMap] at hgot
  have hneeds := List.sum_le_sum hneed
  have hbrought := List.sum_le_sum hbrings
  intro i hi
  refine ⟨eq_of_sum_le hbrings (hneeds.trans hgot) i hi, ?_⟩
  exact (eq_of_sum_le hneed (hgot.trans hbrought) i hi).symm

end Tally

end TestCore.Lib
