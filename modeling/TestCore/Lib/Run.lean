/-
Runs of a step function.

A component that takes one event after another is a function `step : σ → ε → σ`,
and everything said about it "in every run" is an induction over the list of
events. That induction is done here, once: `run_invariant` for a property that
every step keeps, `run_invariant_along` for one that only the steps meeting a
condition keep. The condition may look at the state before the step, so `Along`
is a property of the start state and the events together.

Two readings of `Along` are needed. The recursive one is what an induction
unfolds. The one by position, `along_iff`, is what a statement about "every step
of the run" means to a reader.

`run_simulation` relates two such components, one of which does what the events of the
other stand for.
-/
import Mathlib

set_option autoImplicit false

namespace TestCore.Lib

section Run

variable {σ ε : Type*} (step : σ → ε → σ)

/-- The state after a list of events. -/
def run (s : σ) (es : List ε) : σ := es.foldl step s

@[simp] theorem run_nil (s : σ) : run step s [] = s := rfl

@[simp] theorem run_cons (s : σ) (e : ε) (es : List ε) :
    run step s (e :: es) = run step (step s e) es := rfl

theorem run_append (s : σ) (es fs : List ε) :
    run step s (es ++ fs) = run step (run step s es) fs := List.foldl_append

/-- Every step of the run meets `C` in the state it starts from. -/
def Along (C : σ → ε → Prop) : σ → List ε → Prop
  | _, [] => True
  | s, e :: es => C s e ∧ Along C (step s e) es

@[simp] theorem along_nil (C : σ → ε → Prop) (s : σ) : Along step C s [] := trivial

@[simp] theorem along_cons (C : σ → ε → Prop) (s : σ) (e : ε) (es : List ε) :
    Along step C s (e :: es) ↔ C s e ∧ Along step C (step s e) es := Iff.rfl

instance decidableAlong (C : σ → ε → Prop) [∀ s e, Decidable (C s e)] :
    ∀ (s : σ) (es : List ε), Decidable (Along step C s es)
  | _, [] => isTrue trivial
  | s, e :: es =>
      haveI := decidableAlong C (step s e) es
      inferInstanceAs (Decidable (C s e ∧ Along step C (step s e) es))

theorem along_append (C : σ → ε → Prop) (s : σ) (es fs : List ε) :
    Along step C s (es ++ fs) ↔ Along step C s es ∧ Along step C (run step s es) fs := by
  induction es generalizing s with
  | nil => simp
  | cons e es ih =>
      rw [List.cons_append, along_cons, along_cons, ih, run_cons, and_assoc]

/-- `Along` by position: the step after any first part of the run meets `C`. -/
theorem along_iff (C : σ → ε → Prop) (s : σ) (es : List ε) :
    Along step C s es ↔
      ∀ pre e post, es = pre ++ e :: post → C (run step s pre) e := by
  constructor
  · rintro h pre e post rfl
    rw [along_append, along_cons] at h
    exact h.2.1
  · induction es generalizing s with
    | nil => intro _; trivial
    | cons e es ih =>
        intro h
        refine ⟨h [] e es rfl, ih _ ?_⟩
        rintro pre e' post rfl
        exact h (e :: pre) e' post rfl

theorem along_and_iff (C D : σ → ε → Prop) (s : σ) (es : List ε) :
    Along step (fun s e => C s e ∧ D s e) s es ↔ Along step C s es ∧ Along step D s es := by
  induction es generalizing s with
  | nil => simp
  | cons e es ih =>
      rw [along_cons, along_cons, along_cons, ih]
      exact and_and_and_comm

theorem along_and {C D : σ → ε → Prop} {s : σ} {es : List ε} (hC : Along step C s es)
    (hD : Along step D s es) : Along step (fun s e => C s e ∧ D s e) s es :=
  (along_and_iff step C D s es).mpr ⟨hC, hD⟩

theorem Along.mono {C D : σ → ε → Prop} (h : ∀ s e, C s e → D s e) {s : σ} {es : List ε}
    (hC : Along step C s es) : Along step D s es := by
  induction es generalizing s with
  | nil => trivial
  | cons e es ih => exact ⟨h s e hC.1, ih hC.2⟩

/-- Two conditions that are the same where a third one holds. -/
theorem along_congr {C C' D : σ → ε → Prop} (h : ∀ s e, D s e → (C s e ↔ C' s e)) {s : σ}
    {es : List ε} (hD : Along step D s es) : Along step C s es ↔ Along step C' s es := by
  induction es generalizing s with
  | nil => exact Iff.rfl
  | cons e es ih => exact and_congr (h s e hD.1) (ih hD.2)

theorem along_of_forall {C : ε → Prop} (s : σ) {es : List ε} (h : ∀ e ∈ es, C e) :
    Along step (fun _ e => C e) s es := by
  rw [along_iff]
  rintro pre e post rfl
  exact h e (by simp)

variable {step}

/-- A property kept by every step that meets `C` holds after every run whose
steps all meet `C`. -/
theorem run_invariant_along {C : σ → ε → Prop} {I : σ → Prop}
    (hstep : ∀ s e, I s → C s e → I (step s e)) {s : σ} {es : List ε} (h0 : I s)
    (hC : Along step C s es) : I (run step s es) := by
  induction es generalizing s with
  | nil => exact h0
  | cons e es ih =>
      rw [run_cons]
      exact ih (hstep s e h0 hC.1) hC.2

/-- A property kept by every step holds after every run. -/
theorem run_invariant {I : σ → Prop} (hstep : ∀ s e, I s → I (step s e)) {s : σ}
    (h0 : I s) (es : List ε) : I (run step s es) := by
  refine run_invariant_along (C := fun _ _ => True) (fun s e h _ => hstep s e h) h0 ?_
  rw [along_iff]
  intros
  trivial

/-- A property that a step keeps exactly when it meets `C` holds in every state of a run
exactly when all the steps meet `C`. -/
theorem along_iff_states {C D : σ → ε → Prop} {A : σ → Prop}
    (hstep : ∀ s e, D s e → A s → (A (step s e) ↔ C s e)) {s : σ} {es : List ε}
    (hD : Along step D s es) (h0 : A s) :
    Along step C s es ↔ ∀ pre post, es = pre ++ post → A (run step s pre) := by
  induction es generalizing s with
  | nil =>
      refine ⟨fun _ pre post h => ?_, fun _ => trivial⟩
      rw [(List.append_eq_nil_iff.mp h.symm).1]
      exact h0
  | cons e es ih =>
      have hone := hstep s e hD.1 h0
      rw [along_cons]
      constructor
      · rintro ⟨hc, hrest⟩ pre post h
        rcases pre with _ | ⟨e', pre⟩
        · exact h0
        · rw [List.cons_append, List.cons.injEq] at h
          rw [← h.1, run_cons]
          exact (ih hD.2 (hone.mpr hc)).mp hrest pre post h.2
      · intro h
        have hnext : A (step s e) := h [e] es rfl
        refine ⟨hone.mp hnext, (ih hD.2 hnext).mpr ?_⟩
        rintro pre post rfl
        exact h (e :: pre) post rfl

/-- A property that a step keeps exactly when it meets `C`, and that does not come back once it is
lost, holds at the end of a run exactly when it held at the start and all the steps meet `C`. -/
theorem run_iff_along {C : σ → ε → Prop} {A I : σ → Prop} (hI : ∀ s e, I s → I (step s e))
    (hA : ∀ s e, I s → (A (step s e) ↔ A s ∧ C s e)) {s : σ} (h0 : I s) (es : List ε) :
    A (run step s es) ↔ A s ∧ Along step C s es := by
  induction es generalizing s with
  | nil => simp
  | cons e es ih =>
      rw [run_cons, ih (hI s e h0), hA s e h0, along_cons, and_assoc]

/-- Along a run, a condition may be strengthened by any invariant. -/
theorem Along.with_invariant {C : σ → ε → Prop} {I : σ → Prop}
    (hstep : ∀ s e, I s → C s e → I (step s e)) {s : σ} {es : List ε} (h0 : I s)
    (hC : Along step C s es) : Along step (fun s e => I s ∧ C s e) s es := by
  induction es generalizing s with
  | nil => trivial
  | cons e es ih => exact ⟨⟨h0, hC.1⟩, ih (hstep s e h0 hC.1) hC.2⟩

/-- A property that a step of one kind keeps, while a step of the other kind leaves it true or false
whatever it was before: it holds before every step of the first kind exactly if it does after every
step of the other kind that one of the first kind follows. -/
theorem along_iff_before {T : ε → Prop} {A : σ → Prop} {F : σ → ε → Prop}
    (hkeep : ∀ s e, T e → A s → A (step s e)) (hset : ∀ s e, ¬ T e → (A (step s e) ↔ F s e))
    {s : σ} (h0 : A s) (es : List ε) :
    Along step (fun s e => T e → A s) s es ↔
      ∀ pre e e' post, es = pre ++ e :: e' :: post → ¬ T e → T e' → F (run step s pre) e := by
  constructor
  · intro h pre e e' post hes he he'
    rw [along_iff] at h
    have hA := h (pre ++ [e]) e' post (by simp [hes]) he'
    rw [run_append] at hA
    exact (hset _ _ he).mp hA
  · intro h
    -- Only a state that such a step comes next in has to have the property.
    have key : ∀ (es : List ε) (s : σ), (∀ e post, es = e :: post → T e → A s) →
        (∀ pre e e' post, es = pre ++ e :: e' :: post → ¬ T e → T e' → F (run step s pre) e) →
        Along step (fun s e => T e → A s) s es := by
      intro es
      induction es with
      | nil => exact fun _ _ _ => trivial
      | cons e es ih =>
          intro s hhead hF
          refine ⟨hhead e es rfl, ih _ ?_ ?_⟩
          · rintro e' post rfl he'
            by_cases he : T e
            · exact hkeep s e he (hhead e _ rfl he)
            · exact (hset s e he).mpr (hF [] e e' post rfl he he')
          · rintro pre e₁ e₂ post rfl
            exact hF (e :: pre) e₁ e₂ post rfl
    exact key es s (fun _ _ _ _ => h0) h

/-! ## Parts of a state

A part `c` of the state that only some of the events are for takes its own steps, one for each of
its events. -/

section Part

variable {τ α : Type*} {c : σ → τ} {part : ε → Option α} {cstep : τ → α → τ}

/-- What is asked of the events of a part is asked of the run of the part. -/
theorem along_part (hstep : ∀ s e, c (step s e) = (part e).elim (c s) (cstep (c s)))
    (D : τ → α → Prop) (s : σ) (es : List ε) :
    Along step (fun s e => ∀ a ∈ part e, D (c s) a) s es ↔
      Along cstep D (c s) (es.filterMap part) := by
  induction es generalizing s with
  | nil => exact Iff.rfl
  | cons e es ih =>
      rw [along_cons, ih, hstep]
      cases he : part e with
      | none => simp [List.filterMap_cons_none he]
      | some a => simp [List.filterMap_cons_some he]

end Part

/-! ## Since

A state property that only some events can bring about, and that other events
end, holds at the end of a run only if one of the first kind happened and none of
the second kind came after it. -/

variable (step)

/-- Some event of the run satisfies `starts`, and no later step satisfies `ends`. -/
def Since (starts : ε → Prop) (ends : σ → ε → Prop) (s : σ) (es : List ε) : Prop :=
  ∃ pre e post, es = pre ++ e :: post ∧ starts e ∧
    Along step (fun s e => ¬ ends s e) (run step s (pre ++ [e])) post

variable {step}

/-- One more event that does not end it keeps `Since`. -/
theorem Since.snoc {starts : ε → Prop} {ends : σ → ε → Prop} {s : σ} {es : List ε} {e : ε}
    (h : Since step starts ends s es) (he : ¬ ends (run step s es) e) :
    Since step starts ends s (es ++ [e]) := by
  obtain ⟨pre, e0, post, rfl, hstart, hpost⟩ := h
  refine ⟨pre, e0, post ++ [e], by simp, hstart, ?_⟩
  rw [along_append]
  refine ⟨hpost, ?_, trivial⟩
  rw [← run_append]
  simpa using he

/-- **The since rule.** If a step reaches `L` only by starting it or by not ending
it, then a run that reaches `L` has started it and not ended it since. -/
theorem since_of_run {C : σ → ε → Prop} {L : σ → Prop} {starts : ε → Prop} {ends : σ → ε → Prop}
    (hstep : ∀ s e, C s e → L (step s e) → starts e ∨ (L s ∧ ¬ ends s e)) {s : σ} (h0 : ¬ L s)
    (es : List ε) (hC : Along step C s es) (hL : L (run step s es)) :
    Since step starts ends s es := by
  induction es using List.reverseRecOn with
  | nil => exact absurd hL h0
  | append_singleton es e ih =>
      rw [along_append] at hC
      rw [run_append] at hL
      rcases hstep _ _ hC.2.1 hL with hs | ⟨hLs, hne⟩
      · exact ⟨es, e, [], rfl, hs, trivial⟩
      · exact (ih hC.1 hLs).snoc hne

/-! ## Counting steps -/

variable (step)

/-- How many steps of the run satisfy `p` in the state they start from. -/
def countSteps (p : σ → ε → Bool) : σ → List ε → ℕ
  | _, [] => 0
  | s, e :: es => (if p s e then 1 else 0) + countSteps p (step s e) es

@[simp] theorem countSteps_nil (p : σ → ε → Bool) (s : σ) : countSteps step p s [] = 0 := rfl

theorem countSteps_cons (p : σ → ε → Bool) (s : σ) (e : ε) (es : List ε) :
    countSteps step p s (e :: es)
      = (if p s e then 1 else 0) + countSteps step p (step s e) es := rfl

/-- A measure that every step of the run raises by one when it satisfies `p`, and
leaves alone otherwise, counts those steps. -/
theorem measure_run {C : σ → ε → Prop} {p : σ → ε → Bool} {f : σ → ℤ}
    (hstep : ∀ s e, C s e → f (step s e) = f s + if p s e then 1 else 0) {s : σ} {es : List ε}
    (hC : Along step C s es) : f (run step s es) = f s + countSteps step p s es := by
  induction es generalizing s with
  | nil => simp
  | cons e es ih =>
      rw [run_cons, ih hC.2, hstep s e hC.1, countSteps_cons]
      by_cases hp : p s e = true
      · rw [if_pos hp, if_pos hp]
        push_cast
        ring
      · rw [if_neg hp, if_neg hp]
        push_cast
        ring

/-- A measure that every step of the run lowers by one if its event satisfies `p`, and does not
raise otherwise, is used up by as many such events. -/
theorem measure_countdown {C : σ → ε → Prop} {p : ε → Bool} {f : σ → ℕ}
    (hstep : ∀ s e, C s e → f (step s e) ≤ f s - if p e then 1 else 0) {s : σ} {es : List ε}
    (hC : Along step C s es) : f (run step s es) ≤ f s - es.countP p := by
  induction es generalizing s with
  | nil => simp
  | cons e es ih =>
      have hone := hstep s e hC.1
      have hrest := ih hC.2
      rw [run_cons, List.countP_cons]
      split_ifs at hone ⊢ with hp
      · omega
      · omega

variable {step}

/-! ## Simulation

A second machine, with states `τ` and operations `α`, follows the first one when every
event stands for an operation (which one may depend on the state) and the relation
between the two states survives both doing their step. -/

variable {τ α : Type*} (step) (op : σ → ε → α)

/-- The operations the events of a run stand for. -/
def opsOf : σ → List ε → List α
  | _, [] => []
  | s, e :: es => op s e :: opsOf (step s e) es

variable {step}

/-- **The simulation rule.** -/
theorem run_simulation {astep : τ → α → τ} {R : σ → τ → Prop} {C : σ → ε → Prop}
    (hstep : ∀ s t e, C s e → R s t → R (step s e) (astep t (op s e))) {s : σ} {t : τ}
    (h0 : R s t) {es : List ε} (hC : Along step C s es) :
    R (run step s es) (run astep t (opsOf step op s es)) := by
  induction es generalizing s t with
  | nil => exact h0
  | cons e es ih => exact ih (hstep s t e hC.1 h0) hC.2

/-- What the steps of the run meet, the operations they stand for meet. -/
theorem along_simulation {astep : τ → α → τ} {R : σ → τ → Prop} {C : σ → ε → Prop}
    {D : τ → α → Prop} (hstep : ∀ s t e, C s e → R s t → R (step s e) (astep t (op s e)))
    (hCD : ∀ s t e, C s e → R s t → D t (op s e)) {s : σ} {t : τ} (h0 : R s t) {es : List ε}
    (hC : Along step C s es) : Along astep D t (opsOf step op s es) := by
  induction es generalizing s t with
  | nil => trivial
  | cons e es ih => exact ⟨hCD s t e hC.1 h0, ih (hstep s t e hC.1 h0) hC.2⟩

end Run

end TestCore.Lib
