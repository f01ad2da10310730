/-
Paths with `.` and `..` segments.

A path is a list of segments, each of which goes one directory down, one up, or
nowhere. Resolving it is a walk on a stack. Two walks differ only at the top
directory: the absolute one ignores an `..` there, the relative one fails, because
the path has climbed above the directory it started in.

The result of a walk says little about the segments that led to it, since a later
`..` undoes an earlier segment. `walk_eq_cons` recovers what it does say: the first
directory of the result is the segment that follows the last time the walk was back
at the top, and the rest is what the segments after it resolve to without ever
climbing out of it. Iterated, that is `EndsUnder`, a condition on the segments
alone for the result to start with given directories.
-/
import Mathlib

set_option autoImplicit false

namespace TestCore.Lib

/-- One segment of a path. -/
inductive Seg (α : Type*) where
  | up
  | here
  | down (a : α)

section Walk

variable {α : Type*}

/-- One step of a walk; `floor` says whether `..` at the top is ignored. -/
def move (floor : Bool) (dirs : List α) : Seg α → Option (List α)
  | .up => if dirs = [] then (if floor then some [] else none) else some dirs.dropLast
  | .here => some dirs
  | .down a => some (dirs ++ [a])

/-- The walk from the top directory. -/
def walk (floor : Bool) (segs : List (Seg α)) : Option (List α) :=
  segs.foldl (fun dirs s => dirs.bind fun ds => move floor ds s) (some [])

@[simp] theorem walk_nil (floor : Bool) : walk floor ([] : List (Seg α)) = some [] := rfl

theorem walk_snoc (floor : Bool) (segs : List (Seg α)) (s : Seg α) :
    walk floor (segs ++ [s]) = (walk floor segs).bind fun ds => move floor ds s := by
  unfold walk
  rw [List.foldl_append]
  rfl

/-- A relative walk does the same below any directory. -/
theorem walk_append_down (floor : Bool) {pre post : List (Seg α)} {c : α} {qs : List α}
    (hpre : walk floor pre = some []) (hpost : walk false post = some qs) :
    walk floor (pre ++ .down c :: post) = some (c :: qs) := by
  induction post using List.reverseRecOn generalizing qs with
  | nil =>
      rw [walk_nil, Option.some.injEq] at hpost
      rw [walk_snoc, hpre, ← hpost]
      rfl
  | append_singleton post s ih =>
      rw [walk_snoc] at hpost
      obtain ⟨ds, hds, hmove⟩ := Option.bind_eq_some_iff.mp hpost
      have hassoc : pre ++ .down c :: (post ++ [s]) = (pre ++ .down c :: post) ++ [s] := by simp
      rw [hassoc, walk_snoc, ih hds, Option.bind_some]
      rcases s with _ | _ | a
      · -- The relative walk did not climb, so there is a directory to leave.
        have hne : ds ≠ [] := by
          rintro rfl
          cases hmove
        rw [move, if_neg hne, Option.some.injEq] at hmove
        rw [move, if_neg (by simp), List.dropLast_cons_of_ne_nil hne, hmove]
      · rw [move, Option.some.injEq] at hmove
        rw [move, hmove]
      · rw [move, Option.some.injEq] at hmove
        rw [move, ← hmove, List.cons_append]

/-- **The last return to the top.** A walk ends in a directory `c` and its
subdirectories `qs` exactly when, at some point where it is back at the top, the
next segment is `c` and the segments after that lead to `qs` without climbing. -/
theorem walk_eq_cons (floor : Bool) (segs : List (Seg α)) (c : α) (qs : List α) :
    walk floor segs = some (c :: qs) ↔
      ∃ pre post, segs = pre ++ .down c :: post ∧ walk floor pre = some [] ∧
        walk false post = some qs := by
  constructor
  · induction segs using List.reverseRecOn generalizing qs with
    | nil =>
        intro h
        rw [walk_nil, Option.some.injEq] at h
        cases h
    | append_singleton segs s ih =>
        intro h
        rw [walk_snoc] at h
        obtain ⟨ds, hds, hmove⟩ := Option.bind_eq_some_iff.mp h
        -- Whatever the last segment does below `c`, the relative walk does too.
        have extend : ∀ qs', walk floor segs = some (c :: qs') → move false qs' s = some qs →
            ∃ pre post, segs ++ [s] = pre ++ .down c :: post ∧ walk floor pre = some [] ∧
              walk false post = some qs := by
          intro qs' hsegs hqs
          obtain ⟨pre, post, hsplit, hpre, hpost⟩ := ih qs' hsegs
          refine ⟨pre, post ++ [s], by rw [hsplit]; simp, hpre, ?_⟩
          rw [walk_snoc, hpost]
          exact hqs
        rcases s with _ | _ | a
        · rw [move] at hmove
          by_cases hd : ds = []
          · rw [if_pos hd] at hmove
            cases floor <;> cases hmove
          · rw [if_neg hd, Option.some.injEq] at hmove
            have hsnoc := List.dropLast_append_getLast hd
            rw [hmove, List.cons_append] at hsnoc
            refine extend (qs ++ [ds.getLast hd]) (hds.trans (congrArg some hsnoc.symm)) ?_
            rw [move, if_neg (by simp), List.dropLast_concat]
        · rw [move, Option.some.injEq] at hmove
          exact extend qs (by rw [hds, hmove]) rfl
        · rw [move, Option.some.injEq] at hmove
          rcases ds with _ | ⟨d, ds⟩
          · rw [List.nil_append, List.cons.injEq] at hmove
            refine ⟨segs, [], by rw [hmove.1], hds, ?_⟩
            rw [← hmove.2, walk_nil]
          · rw [List.cons_append, List.cons.injEq] at hmove
            refine extend ds (by rw [hds, hmove.1]) ?_
            rw [move, hmove.2]
  · rintro ⟨pre, post, rfl, hpre, hpost⟩
    exact walk_append_down floor hpre hpost

/-! ## Ending under given directories -/

/-- The list starts with directories that meet the given conditions, one each. -/
def Under : List (α → Prop) → List α → Prop
  | [], _ => True
  | _ :: _, [] => False
  | p :: ps, a :: as => p a ∧ Under ps as

/-- The segments can be cut where the walk is back at the top, such that the next
one meets the first condition and the ones after it never climb out and end, in the
same sense, under the remaining conditions. -/
def EndsUnder (floor : Bool) : List (α → Prop) → List (Seg α) → Prop
  | [], segs => (walk floor segs).isSome
  | p :: ps, segs => ∃ pre c post, segs = pre ++ .down c :: post ∧ walk floor pre = some [] ∧
      p c ∧ EndsUnder false ps post

theorem endsUnder_iff (floor : Bool) (ps : List (α → Prop)) (segs : List (Seg α)) :
    EndsUnder floor ps segs ↔ ∃ qs, walk floor segs = some qs ∧ Under ps qs := by
  induction ps generalizing floor segs with
  | nil =>
      rw [EndsUnder, Option.isSome_iff_exists]
      constructor
      · rintro ⟨qs, h⟩
        exact ⟨qs, h, trivial⟩
      · rintro ⟨qs, h, -⟩
        exact ⟨qs, h⟩
  | cons p ps ih =>
      rw [EndsUnder]
      constructor
      · rintro ⟨pre, c, post, hsplit, hpre, hp, hpost⟩
        obtain ⟨qs, hqs, hunder⟩ := (ih false post).mp hpost
        exact ⟨c :: qs, (walk_eq_cons floor segs c qs).mpr ⟨pre, post, hsplit, hpre, hqs⟩,
          hp, hunder⟩
      · rintro ⟨qs, hqs, hunder⟩
        rcases qs with _ | ⟨c, qs⟩
        · exact absurd hunder id
        · obtain ⟨pre, post, hsplit, hpre, hpost⟩ := (walk_eq_cons floor segs c qs).mp hqs
          exact ⟨pre, c, post, hsplit, hpre, hunder.1, (ih false post).mpr ⟨qs, hpost, hunder.2⟩⟩

end Walk

end TestCore.Lib
