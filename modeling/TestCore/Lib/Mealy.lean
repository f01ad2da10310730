/-
Machines that answer.

A step takes an event to the next state and an answer, and a run of events has a state at its end
(`finish`) and an answer for each of them (`answers`). A specification that leaves something open is a
relation, `Behaves` says of a run that it does what the relation allows, and `behaves_simulation` and
`behaves_run` are the rules. `account_run` is the rule for what a run takes in and gives out.
-/
import TestCore.Lib.Run

set_option autoImplicit false

namespace TestCore.Lib

section Mealy

variable {σ τ ε ρ : Type*} (step : σ → ε → σ × ρ)

/-- The state after a list of events. -/
def finish (s : σ) (es : List ε) : σ := run (fun s e => (step s e).1) s es

/-- The answer to each event. -/
def answers : σ → List ε → List ρ
  | _, [] => []
  | s, e :: es => (step s e).2 :: answers (step s e).1 es

@[simp] theorem finish_nil (s : σ) : finish step s [] = s := rfl

@[simp] theorem finish_cons (s : σ) (e : ε) (es : List ε) :
    finish step s (e :: es) = finish step (step s e).1 es := rfl

@[simp] theorem answers_nil (s : σ) : answers step s [] = [] := rfl

@[simp] theorem answers_cons (s : σ) (e : ε) (es : List ε) :
    answers step s (e :: es) = (step s e).2 :: answers step (step s e).1 es := rfl

theorem finish_append (s : σ) (es fs : List ε) :
    finish step s (es ++ fs) = finish step (finish step s es) fs := run_append _ s es fs

theorem answers_append (s : σ) (es fs : List ε) :
    answers step s (es ++ fs) = answers step s es ++ answers step (finish step s es) fs := by
  induction es generalizing s with
  | nil => rfl
  | cons e es ih => rw [List.cons_append, answers_cons, ih, answers_cons, List.cons_append, finish_cons]

@[simp] theorem answers_length (s : σ) (es : List ε) : (answers step s es).length = es.length := by
  induction es generalizing s with
  | nil => rfl
  | cons e es ih => rw [answers_cons, List.length_cons, ih, List.length_cons]

variable {step}

/-- The events may be answered like this on the way from one state to the other. -/
def Behaves (may : τ → ε → ρ → τ → Prop) : τ → List ε → List ρ → τ → Prop
  | t, [], [], t' => t' = t
  | t, e :: es, r :: rs, t' => ∃ u, may t e r u ∧ Behaves may u es rs t'
  | _, _, _, _ => False

/-- **The simulation rule**, for a specification that leaves something open: if each step from related states
is one that it allows, to states that are related again, then each run is. -/
theorem behaves_simulation {may : τ → ε → ρ → τ → Prop} {R : σ → τ → Prop}
    (hstep : ∀ s t e, R s t → ∃ t', may t e (step s e).2 t' ∧ R (step s e).1 t') {s : σ} {t : τ} (h0 : R s t)
    (es : List ε) : ∃ t', Behaves may t es (answers step s es) t' ∧ R (finish step s es) t' := by
  induction es generalizing s t with
  | nil => exact ⟨t, rfl, h0⟩
  | cons e es ih =>
      obtain ⟨u, hmay, hR⟩ := hstep s t e h0
      obtain ⟨t', hrest, hend⟩ := ih hR
      exact ⟨t', ⟨u, hmay, hrest⟩, hend⟩

/-- **The refinement rule.** If each step is one that the specification allows, between what the two
states stand for, then each run is. -/
theorem behaves_run {may : τ → ε → ρ → τ → Prop} {view : σ → τ}
    (hstep : ∀ s e, may (view s) e (step s e).2 (view (step s e).1)) (s : σ) (es : List ε) :
    Behaves may (view s) es (answers step s es) (view (finish step s es)) := by
  have hsim := behaves_simulation (R := fun s t => view s = t)
    (fun s _ e h => ⟨_, h ▸ hstep s e, rfl⟩) (rfl : view s = view s) es
  obtain ⟨t', hbehaves, rfl⟩ := hsim
  exact hbehaves

/-- What a property of the states kept by every step says of the end of a run. -/
theorem finish_invariant {I : σ → Prop} (hstep : ∀ s e, I s → I (step s e).1) {s : σ} (h0 : I s)
    (es : List ε) : I (finish step s es) :=
  run_invariant hstep h0 es

/-- A property that is kept by every step of the events that `P` allows. -/
theorem finish_invariant_of {P : ε → Prop} {I : σ → Prop} (hstep : ∀ s e, I s → P e → I (step s e).1) {s : σ}
    (h0 : I s) {es : List ε} (hP : ∀ e ∈ es, P e) : I (finish step s es) :=
  run_invariant_along hstep h0 (along_of_forall _ s hP)

/-- **The rule of account.** If what each step takes in, behind what the state holds, is what it gives
out, before what the next state holds, then so it is for every run of events that `P` allows. -/
theorem account_run {β : Type*} {P : ε → Prop} {holds : σ → List β} {takes gives : ε → ρ → List β}
    (hstep : ∀ s e, P e → holds s ++ takes e (step s e).2 = gives e (step s e).2 ++ holds (step s e).1)
    (s : σ) (es : List ε) (hP : ∀ e ∈ es, P e) :
    holds s ++ (List.zipWith takes es (answers step s es)).flatten
      = (List.zipWith gives es (answers step s es)).flatten ++ holds (finish step s es) := by
  induction es generalizing s with
  | nil => simp
  | cons e es ih =>
      rw [List.forall_mem_cons] at hP
      have hone := hstep s e hP.1
      have hrest := ih (step s e).1 hP.2
      rw [answers_cons, List.zipWith_cons_cons, List.zipWith_cons_cons, List.flatten_cons,
        List.flatten_cons, finish_cons, ← List.append_assoc, hone, List.append_assoc, hrest,
        List.append_assoc]

end Mealy

end TestCore.Lib
