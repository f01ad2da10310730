/-
Symbol tables: finite maps that can be enumerated.

A chained hash table is an array of chains, and an enumeration walks the chains
in order. What a caller can observe is the list of entries in that order, so that
list is the table here: `rank` is the chain a key hashes to, a new key goes to the
end of its chain (that is, behind every entry of the same or a lower rank), an
existing key is overwritten in place, and a key is deleted where it stands. No key
occurs twice, and the structure carries the proof.

The caller's view is `lookup`; the lemmas say how each operation changes it and
when an entry shows up in the enumeration.
-/
import Mathlib

set_option autoImplicit false

namespace TestCore.Lib

/-- A finite map with an enumeration order. -/
structure Table (κ ν : Type*) where
  /-- The entries in the order an enumeration yields them. -/
  entries : List (κ × ν)
  /-- No key occurs twice. -/
  nodup : (entries.map Prod.fst).Nodup

namespace Table

variable {κ ν : Type*} [DecidableEq κ]

instance [DecidableEq ν] : DecidableEq (Table κ ν) := fun a b =>
  decidable_of_iff (a.entries = b.entries) (by
    cases a
    cases b
    simp)

/-- The table without entries. -/
def empty : Table κ ν := ⟨[], List.nodup_nil⟩

/-- The value stored under `k`. -/
def lookup (t : Table κ ν) (k : κ) : Option ν :=
  (t.entries.find? fun p => p.1 = k).map Prod.snd

/-- Overwrite the value of `k` where it stands; nothing happens when `k` has no entry. -/
def set (t : Table κ ν) (k : κ) (v : ν) : Table κ ν where
  entries := t.entries.map fun p => if p.1 = k then (p.1, v) else p
  nodup := by
    have h : (t.entries.map fun p => if p.1 = k then (p.1, v) else p).map Prod.fst
        = t.entries.map Prod.fst := by
      rw [List.map_map]
      refine List.map_congr_left fun p _ => ?_
      by_cases hp : p.1 = k <;> simp [hp]
    rw [h]
    exact t.nodup

/-- Remove the entry of `k`. -/
def delete (t : Table κ ν) (k : κ) : Table κ ν where
  entries := t.entries.filter fun p => p.1 ≠ k
  nodup := t.nodup.sublist (List.filter_sublist.map Prod.fst)

/-- Enter `k`: overwrite its value, or append it to the chain it ranks in. -/
def enter (rank : κ → ℕ) (t : Table κ ν) (k : κ) (v : ν) : Table κ ν :=
  if h : k ∈ t.entries.map Prod.fst then t.set k v
  else
    { entries := t.entries.orderedInsert (fun a b => rank a.1 < rank b.1) (k, v)
      nodup := by
        have hp := (List.perm_orderedInsert (fun a b : κ × ν => rank a.1 < rank b.1) (k, v)
          t.entries).map Prod.fst
        rw [hp.nodup_iff, List.map_cons, List.nodup_cons]
        exact ⟨h, t.nodup⟩ }

/-! ## Membership and lookup -/

/-- An entry shows up in the enumeration exactly when looking its key up finds it. -/
theorem mem_entries (t : Table κ ν) (k : κ) (v : ν) :
    (k, v) ∈ t.entries ↔ t.lookup k = some v := by
  obtain ⟨es, hnd⟩ := t
  unfold lookup
  dsimp only
  induction es with
  | nil => simp
  | cons p es ih =>
      rw [List.map_cons, List.nodup_cons] at hnd
      rw [List.mem_cons, ih hnd.2, List.find?_cons]
      by_cases hp : p.1 = k
      · have hk : k ∉ es.map Prod.fst := hp ▸ hnd.1
        have hnone : es.find? (fun q => decide (q.1 = k)) = none := by
          rw [List.find?_eq_none]
          intro q hq hqk
          exact hk (List.mem_map.mpr ⟨q, hq, by simpa using hqk⟩)
        rw [hnone]
        simp only [hp, decide_true, Option.map_none, Option.map_some, Option.some.injEq,
          reduceCtorEq, or_false]
        constructor
        · intro h; rw [← h]
        · intro h; rw [← hp, ← h]
      · have hne : (k, v) ≠ p := by rintro rfl; exact hp rfl
        simp [hp, hne]

/-- A key is in the table exactly when looking it up finds something. -/
theorem mem_keys (t : Table κ ν) (k : κ) :
    k ∈ t.entries.map Prod.fst ↔ (t.lookup k).isSome := by
  rw [List.mem_map]
  constructor
  · rintro ⟨⟨k', v⟩, hmem, rfl⟩
    rw [(t.mem_entries k' v).mp hmem]
    rfl
  · intro h
    obtain ⟨v, hv⟩ := Option.isSome_iff_exists.mp h
    exact ⟨(k, v), (t.mem_entries k v).mpr hv, rfl⟩

theorem lookup_eq_none (t : Table κ ν) (k : κ) :
    t.lookup k = none ↔ k ∉ t.entries.map Prod.fst := by
  rw [mem_keys, Option.not_isSome_iff_eq_none]

/-- Two tables with the same entries answer every lookup alike. -/
theorem lookup_eq_of_mem_iff {t t' : Table κ ν} {k : κ}
    (h : ∀ v, (k, v) ∈ t'.entries ↔ (k, v) ∈ t.entries) : t'.lookup k = t.lookup k := by
  refine Option.ext fun v => ?_
  rw [← mem_entries, ← mem_entries]
  exact h v

@[simp] theorem lookup_empty (k : κ) : (empty : Table κ ν).lookup k = none := rfl

/-! ## Lookup after each operation -/

theorem lookup_set (t : Table κ ν) (k k' : κ) (v : ν) :
    (t.set k v).lookup k' = if k' = k then (t.lookup k).map (fun _ => v) else t.lookup k' := by
  unfold lookup set
  dsimp only
  rw [List.find?_map]
  have hpred : ((fun p : κ × ν => decide (p.1 = k')) ∘ fun p => if p.1 = k then (p.1, v) else p)
      = fun p => decide (p.1 = k') := by
    funext p
    by_cases hp : p.1 = k <;> simp [hp]
  rw [hpred, Option.map_map]
  by_cases hk : k' = k
  · subst hk
    rw [if_pos rfl, Option.map_map]
    cases hf : t.entries.find? (fun p => decide (p.1 = k')) with
    | none => rfl
    | some p =>
        have hp : p.1 = k' := by simpa using List.find?_some hf
        simp [hp]
  · rw [if_neg hk]
    cases hf : t.entries.find? (fun p => decide (p.1 = k')) with
    | none => rfl
    | some p =>
        have hp : p.1 = k' := by simpa using List.find?_some hf
        simp [hp, hk]

theorem lookup_delete (t : Table κ ν) (k k' : κ) :
    (t.delete k).lookup k' = if k' = k then none else t.lookup k' := by
  by_cases hk : k' = k
  · subst hk
    rw [if_pos rfl, lookup_eq_none, List.mem_map]
    rintro ⟨p, hp, hpk⟩
    simp only [delete, List.mem_filter, ne_eq, decide_not, Bool.not_eq_eq_eq_not, Bool.not_true,
      decide_eq_false_iff_not] at hp
    exact hp.2 hpk
  · rw [if_neg hk]
    refine lookup_eq_of_mem_iff fun v => ?_
    simp [delete, hk]

theorem lookup_enter (rank : κ → ℕ) (t : Table κ ν) (k k' : κ) (v : ν) :
    (t.enter rank k v).lookup k' = if k' = k then some v else t.lookup k' := by
  unfold enter
  by_cases h : k ∈ t.entries.map Prod.fst
  · rw [dif_pos h, lookup_set]
    by_cases hk : k' = k
    · rw [if_pos hk, if_pos hk]
      obtain ⟨w, hw⟩ := Option.isSome_iff_exists.mp ((t.mem_keys k).mp h)
      rw [hw, Option.map_some]
    · rw [if_neg hk, if_neg hk]
  · rw [dif_neg h]
    by_cases hk : k' = k
    · rw [if_pos hk, ← mem_entries, List.mem_orderedInsert]
      exact Or.inl (by rw [hk])
    · rw [if_neg hk]
      refine lookup_eq_of_mem_iff fun w => ?_
      rw [List.mem_orderedInsert]
      simp [hk]

/-! ## Tables with one entry -/

omit [DecidableEq κ] in
/-- Tables with the same entries are the same. -/
@[ext] theorem ext {t t' : Table κ ν} (h : t.entries = t'.entries) : t = t' := by
  obtain ⟨es, _⟩ := t
  obtain ⟨es', _⟩ := t'
  subst h
  rfl

/-- The table that holds one entry. -/
def single (k : κ) (v : ν) : Table κ ν := ⟨[(k, v)], List.nodup_singleton k⟩

theorem lookup_single (k k' : κ) (v : ν) :
    (single k v).lookup k' = if k' = k then some v else none := by
  by_cases hk : k' = k
  · rw [if_pos hk, hk]
    simp [lookup, single]
  · have hne : ¬ k = k' := fun h => hk h.symm
    rw [if_neg hk]
    simp [lookup, single, hne]

theorem enter_empty (rank : κ → ℕ) (k : κ) (v : ν) :
    (empty : Table κ ν).enter rank k v = single k v := by
  ext1
  simp [enter, empty, single]

theorem set_single (k : κ) (v w : ν) : (single k v).set k w = single k w := by
  ext1
  simp [set, single]

theorem enter_single (rank : κ → ℕ) (k : κ) (v w : ν) :
    (single k v).enter rank k w = single k w := by
  unfold enter
  rw [dif_pos (by simp [single])]
  exact set_single k v w

theorem delete_single (k : κ) (v : ν) : (single k v).delete k = empty := by
  ext1
  simp [delete, single, empty]

end Table

end TestCore.Lib
