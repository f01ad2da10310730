/-
Loops that may not end.

A loop is given by its turn: from a state, the loop ends with a result or goes on from another
state. `loopFor` makes a number of turns and says nothing if these are not enough, so that a loop
ends (`Ends`) if some number is enough. A loop ends with one result (`EndsWith.unique`), a turn
does not change with which, and a state that a turn leads back to is never left.

`Visits` is what the loop comes by on its way, ended or not. A turn that may have no result is made a turn
of such a loop by `checked`.
-/
import Mathlib.Logic.Relation
import Mathlib.Tactic.Common

set_option autoImplicit false

namespace TestCore.Lib

section Loop

variable {σ ρ : Type*} (turn : σ → ρ ⊕ σ)

/-- The result of the loop, if it ends within so many turns. -/
def loopFor : ℕ → σ → Option ρ
  | 0, _ => none
  | n + 1, s =>
      match turn s with
      | .inl r => some r
      | .inr t => loopFor n t

/-- The loop ends with `r`. -/
def EndsWith (s : σ) (r : ρ) : Prop := ∃ n, loopFor turn n s = some r

/-- The loop ends. -/
def Ends (s : σ) : Prop := ∃ r, EndsWith turn s r

/-- The loop gets from `s` to `t`. -/
def Visits : σ → σ → Prop := Relation.ReflTransGen fun a b => turn a = .inr b

variable {turn}

theorem loopFor_inl {s : σ} {r : ρ} (h : turn s = .inl r) (n : ℕ) :
    loopFor turn (n + 1) s = some r := by
  rw [loopFor, h]

theorem loopFor_inr {s t : σ} (h : turn s = .inr t) (n : ℕ) :
    loopFor turn (n + 1) s = loopFor turn n t := by
  rw [loopFor, h]

theorem endsWith_inl {s : σ} {r r' : ρ} (h : turn s = .inl r) : EndsWith turn s r' ↔ r' = r := by
  constructor
  · rintro ⟨_ | n, hn⟩
    · cases hn
    · rw [loopFor_inl h] at hn
      exact (Option.some.inj hn).symm
  · rintro rfl
    exact ⟨1, loopFor_inl h 0⟩

/-- A turn does not change what the loop ends with. -/
theorem endsWith_inr {s t : σ} {r : ρ} (h : turn s = .inr t) :
    EndsWith turn s r ↔ EndsWith turn t r := by
  constructor
  · rintro ⟨_ | n, hn⟩
    · cases hn
    · rw [loopFor_inr h] at hn
      exact ⟨n, hn⟩
  · rintro ⟨n, hn⟩
    exact ⟨n + 1, by rw [loopFor_inr h, hn]⟩

theorem ends_inr {s t : σ} (h : turn s = .inr t) : Ends turn s ↔ Ends turn t :=
  exists_congr fun _ => endsWith_inr h

/-- The loop ends alike from two states with the same turn. -/
theorem endsWith_congr {s s' : σ} (h : turn s = turn s') (r : ρ) :
    EndsWith turn s r ↔ EndsWith turn s' r := by
  rcases hturn : turn s' with r' | t
  · rw [endsWith_inl hturn, endsWith_inl (h.trans hturn)]
  · rw [endsWith_inr hturn, endsWith_inr (h.trans hturn)]

/-- A loop ends with one result. -/
theorem EndsWith.unique {s : σ} {r r' : ρ} (h : EndsWith turn s r) (h' : EndsWith turn s r') :
    r = r' := by
  obtain ⟨n, hn⟩ := h
  induction n generalizing s with
  | zero => cases hn
  | succ n ih =>
      rcases hturn : turn s with r'' | t
      · rw [loopFor_inl hturn] at hn
        rw [(endsWith_inl hturn).mp h', ← Option.some.inj hn]
      · rw [loopFor_inr hturn] at hn
        exact ih ((endsWith_inr hturn).mp h') hn

/-- A loop that always goes on from the states of some kind, to states of this kind, does not end. -/
theorem not_ends_of_invariant {I : σ → Prop} (hturn : ∀ s, I s → ∃ t, turn s = .inr t ∧ I t) {s : σ}
    (hs : I s) : ¬ Ends turn s := by
  rintro ⟨r, n, hn⟩
  induction n generalizing s with
  | zero => cases hn
  | succ n ih =>
      obtain ⟨t, ht, hIt⟩ := hturn s hs
      rw [loopFor_inr ht] at hn
      exact ih hIt hn

/-- A turn that leads back to where it started is made for ever. -/
theorem not_ends_of_back {s : σ} (h : turn s = .inr s) : ¬ Ends turn s :=
  not_ends_of_invariant (I := (· = s)) (fun t ht => ⟨s, by rw [ht, h], rfl⟩) rfl

/-- If each turn leads back to where it started or makes a measure smaller, then the loop ends within
as many turns as the measure says, or never. -/
theorem endsWith_iff_loopFor {μ : σ → ℕ} (hturn : ∀ s t, turn s = .inr t → t = s ∨ μ t < μ s) {s : σ}
    {n : ℕ} (hn : μ s < n) (r : ρ) : EndsWith turn s r ↔ loopFor turn n s = some r := by
  constructor
  · intro h
    induction n generalizing s with
    | zero => exact absurd hn (Nat.not_lt_zero _)
    | succ n ih =>
        rcases hs : turn s with r' | t
        · rw [loopFor_inl hs, (endsWith_inl hs).mp h]
        · rcases hturn s t hs with rfl | hlt
          · exact absurd ⟨r, h⟩ (not_ends_of_back hs)
          · rw [loopFor_inr hs]
            exact ih (by omega) ((endsWith_inr hs).mp h)
  · exact fun h => ⟨n, h⟩

/-- A loop that ends has a last turn. -/
theorem EndsWith.last {s : σ} {r : ρ} (h : EndsWith turn s r) :
    ∃ t, Visits turn s t ∧ turn t = .inl r := by
  obtain ⟨n, hn⟩ := h
  induction n generalizing s with
  | zero => cases hn
  | succ n ih =>
      rcases hturn : turn s with r' | t
      · rw [loopFor_inl hturn] at hn
        exact ⟨s, Relation.ReflTransGen.refl, by rw [hturn, Option.some.inj hn]⟩
      · rw [loopFor_inr hturn] at hn
        obtain ⟨u, hvisits, hu⟩ := ih hn
        exact ⟨u, Relation.ReflTransGen.head hturn hvisits, hu⟩

/-- A loop ends with what it ends with from a state it gets to. -/
theorem Visits.endsWith_iff {s t : σ} (h : Visits turn s t) (r : ρ) :
    EndsWith turn s r ↔ EndsWith turn t r := by
  induction h with
  | refl => rfl
  | tail _ hst ih => exact ih.trans (endsWith_inr hst)

/-- And it gets to the same states, but for the first. -/
theorem Visits.congr {s s' u : σ} (hu : Visits turn s u) (h : turn s = turn s') :
    u = s ∨ Visits turn s' u := by
  rcases Relation.ReflTransGen.cases_head hu with rfl | ⟨w, hw, hu⟩
  · exact Or.inl rfl
  · exact Or.inr (Relation.ReflTransGen.head (h.symm.trans hw) hu)

/-- What a turn preserves holds of every state the loop comes by. -/
theorem Visits.invariant {I : σ → Prop} (hturn : ∀ s t, I s → turn s = .inr t → I t) {s t : σ}
    (h : Visits turn s t) (hs : I s) : I t := by
  induction h with
  | refl => exact hs
  | tail _ hst ih => exact hturn _ _ ih hst

end Loop

/-! ## Turns without a result

A turn that reads memory has no result where there is nothing to read. Then the loop has none, either. -/

section Checked

variable {σ ρ : Type*} (turn : σ → Option (ρ ⊕ σ))

/-- The turn of a loop that ends, without a result, with the first turn that has none. -/
def checked (s : σ) : Option ρ ⊕ σ :=
  match turn s with
  | none => .inl none
  | some (.inl r) => .inl (some r)
  | some (.inr t) => .inr t

variable {turn}

theorem endsWith_checked_inl {s : σ} {r : ρ} {x : Option ρ} (h : turn s = some (.inl r)) :
    EndsWith (checked turn) s x ↔ x = some r :=
  endsWith_inl (by rw [checked, h])

theorem endsWith_checked_inr {s t : σ} {x : Option ρ} (h : turn s = some (.inr t)) :
    EndsWith (checked turn) s x ↔ EndsWith (checked turn) t x :=
  endsWith_inr (by rw [checked, h])

end Checked

end TestCore.Lib
