/-
The timers of `mul_timer.c` when a callback sets and deletes timers itself.

`sig_func` walks over the table from the first entry to the last, and a callback runs in the
middle of that walk. The handler is therefore a machine here that can be observed while it
is at an entry (`Point.loop`) and while it is in a callback (`Point.call`); the program's own
code runs when the handler does not, and in a callback. What the callbacks do is not
fixed: every sequence of calls is a run.

What a timer has counted depends on which side of the walk it is. An entry the walk has
passed has counted the tick that is going on, one ahead of it has not yet (`Handler.seen`),
and in its own count every timer keeps the schedule of `Wheel.lean` (`HRunning.step`). So a timer
that a callback sets is on time if its entry is behind the walk, and one tick early if its
entry is ahead of it (`reentrant_schedule_of_seen`).
-/
import TestCore.MulTimer.Wheel

set_option autoImplicit false

namespace TestCore.MulTimer

open TestCore.Lib

/-! ## The handler -/

/-- Where `sig_func` is. -/
inductive Point where
  /-- It does not run. -/
  | idle
  /-- It comes to entry `i`. -/
  | loop (i : Fin MAX_TIMER_CNT)
  /-- It is in the callback of entry `i`. -/
  | call (i : Fin MAX_TIMER_CNT)
  deriving DecidableEq, Repr

/-- The timers, and the handler at work on them. -/
structure Handler where
  timers : Timers
  point : Point

/-- `i++` and the test of the loop. -/
def Point.after (i : Fin MAX_TIMER_CNT) : Point :=
  if h : i.val + 1 < MAX_TIMER_CNT then .loop ⟨i.val + 1, h⟩ else .idle

/-- What can happen. `SIGALRM` is blocked while its handler runs. -/
inductive Act where
  | set (r : Request)
  | del (handle : ℤ)
  | sigalrm
  /-- The handler goes on: to the next entry, or into a callback, or out of it. -/
  | next
  deriving DecidableEq, Repr

/-- The program's own code can run, in a callback or between two signals. -/
def Handler.open? (h : Handler) : Bool :=
  match h.point with
  | .loop _ => false
  | _ => true

def Handler.step (h : Handler) : Act → Handler
  | .set r => if h.open? then { h with timers := (set_a_timer h.timers r).1 } else h
  | .del handle => if h.open? then { h with timers := (del_a_timer h.timers handle).1 } else h
  | .sigalrm =>
      match h.point with
      | .idle => ⟨{ h.timers with ticks := h.timers.ticks + 1 }, .loop 0⟩
      | _ => h
  | .next =>
      match h.point with
      | .idle => h
      -- The body of the loop, up to the call of `timer_proc`.
      | .loop i =>
          ⟨sig_func.entry h.timers i, if (h.timers.timer_info i).due then .call i else .after i⟩
      | .call i => { h with point := .after i }

/-- After `init_mul_timer`. -/
def Handler.start : Handler := ⟨init_mul_timer, .idle⟩

/-! ## What an entry has counted -/

/-- The number of ticks that entry `j` has counted, if it was in use all the time. -/
def Handler.seen (h : Handler) (j : Fin MAX_TIMER_CNT) : ℕ :=
  match h.point with
  | .idle => h.timers.ticks
  | .loop i => if j < i then h.timers.ticks else h.timers.ticks - 1
  | .call i => if j ≤ i then h.timers.ticks else h.timers.ticks - 1

/-- The timers as entry `j` sees them. -/
def Handler.view (h : Handler) (j : Fin MAX_TIMER_CNT) : Timers :=
  { h.timers with ticks := h.seen j }

/-- A walk that has begun belongs to a tick. -/
def Handler.Begun (h : Handler) : Prop := h.point ≠ .idle → 0 < h.timers.ticks

theorem seen_after (w : Timers) (i j : Fin MAX_TIMER_CNT) :
    (Handler.mk w (.after i)).seen j = if j ≤ i then w.ticks else w.ticks - 1 := by
  unfold Point.after
  split_ifs with hlast hle hle
  · show (if j < _ then w.ticks else w.ticks - 1) = w.ticks
    rw [if_pos]
    rw [Fin.lt_def]
    exact Nat.lt_succ_of_le hle
  · show (if j < _ then w.ticks else w.ticks - 1) = w.ticks - 1
    rw [if_neg]
    intro hlt
    exact hle (Nat.le_of_lt_succ (Fin.lt_def.mp hlt))
  · rfl
  · have hj := j.isLt
    exact absurd (Fin.le_def.mpr (by omega)) hle

/-- The walk past entry `i`, as any entry sees it. -/
theorem seen_entry {w : Timers} (i j : Fin MAX_TIMER_CNT) {p : Point}
    (hp : p = .call i ∨ p = .after i) :
    (Handler.mk w p).seen j = if j ≤ i then w.ticks else w.ticks - 1 := by
  rcases hp with rfl | rfl
  · rfl
  · exact seen_after w i j

theorem seen_congr {w w' : Timers} (hticks : w'.ticks = w.ticks) (p : Point)
    (j : Fin MAX_TIMER_CNT) : (Handler.mk w' p).seen j = (Handler.mk w p).seen j := by
  unfold Handler.seen
  dsimp only
  rw [hticks]

/-- The call of `set_a_timer` or `del_a_timer` that an action is. -/
def Act.event : Act → Option Event
  | .set r => some (.set r)
  | .del handle => some (.del handle)
  | _ => none

/-- What a step can be to entry `j`: one more tick that it has counted, nothing, or a call of
`set_a_timer` or `del_a_timer`. -/
inductive Passed (h : Handler) (e : Act) (j : Fin MAX_TIMER_CNT) : Prop
  | counted (hseen : (h.step e).seen j = h.seen j + 1)
      (hinfo : (h.step e).timers.timer_info j = (h.timers.timer_info j).tick)
      (hcalls : (h.step e).timers.callsOf j
        = h.timers.callsOf j ++ (h.timers.timer_info j).callsAt (h.seen j + 1) j)
  | same (hseen : (h.step e).seen j = h.seen j)
      (hinfo : (h.step e).timers.timer_info j = h.timers.timer_info j)
      (hcalls : (h.step e).timers.callsOf j = h.timers.callsOf j)
  | called (e' : Event) (he : e.event = some e') (hopen : h.open? = true)
      (hseen : (h.step e).seen j = h.seen j)
      (hcalls : (h.step e).timers.callsOf j = h.timers.callsOf j)
      (hchanged : Changed h.timers e' j ((h.step e).timers.timer_info j))

/-- A call from the program's own code. -/
theorem passed_call {h : Handler} {e : Act} (e' : Event) (he : e.event = some e')
    (hstep : h.step e = if h.open? then { h with timers := h.timers.step e' } else h)
    (htick : e' ≠ .tick) (j : Fin MAX_TIMER_CNT) : Passed h e j := by
  by_cases hopen : h.open? = true
  · rw [if_pos hopen] at hstep
    rcases step_entry h.timers e' j with ⟨hc, -⟩ | ⟨-, hticks, hcalls, hchanged⟩
    · exact absurd hc htick
    · refine .called e' he hopen ?_ ?_ ?_
      · rw [hstep]
        exact seen_congr hticks h.point j
      · rw [hstep]
        unfold Timers.callsOf
        dsimp only
        rw [hcalls]
      · rw [hstep]
        exact hchanged
  · rw [if_neg hopen] at hstep
    exact .same (by rw [hstep]) (by rw [hstep]) (by rw [hstep])

/-- The walk comes to entry `i`. -/
theorem passed_loop {w : Timers} (hpos : 0 < w.ticks) (i j : Fin MAX_TIMER_CNT) :
    Passed ⟨w, .loop i⟩ .next j := by
  have hticks : (sig_func.entry w i).ticks = w.ticks := by
    rw [entry_eq]
    rfl
  have hseen : ((Handler.mk w (.loop i)).step .next).seen j
      = if j ≤ i then w.ticks else w.ticks - 1 := by
    show (Handler.mk (sig_func.entry w i) (if (w.timer_info i).due then .call i else .after i)).seen j
      = _
    rw [seen_congr hticks]
    apply seen_entry
    split_ifs
    · exact Or.inl rfl
    · exact Or.inr rfl
  have hseen0 : (Handler.mk w (.loop i)).seen j = if j < i then w.ticks else w.ticks - 1 := rfl
  rcases eq_or_ne i j with rfl | hij
  · obtain ⟨hinfo, hcalls⟩ := entry_self w i
    rw [if_neg (lt_irrefl i)] at hseen0
    have hone : (Handler.mk w (.loop i)).seen i + 1 = w.ticks := by omega
    refine .counted ?_ hinfo ?_
    · rw [hseen, if_pos le_rfl, hone]
    · rw [hone]
      exact hcalls
  · obtain ⟨hinfo, hcalls⟩ := entry_other w hij
    refine .same ?_ hinfo hcalls
    have hle : j ≤ i ↔ j < i := ⟨fun hc => lt_of_le_of_ne hc hij.symm, le_of_lt⟩
    rw [hseen, hseen0]
    simp only [hle]

theorem passed {h : Handler} (hbegun : h.Begun) (e : Act) (j : Fin MAX_TIMER_CNT) :
    Passed h e j := by
  obtain ⟨w, p⟩ := h
  rcases e with r | handle | _ | _
  · exact passed_call (.set r) rfl rfl nofun j
  · exact passed_call (.del handle) rfl rfl nofun j
  · rcases p with _ | i | i
    · refine .same ?_ rfl rfl
      show (if j < 0 then w.ticks + 1 else w.ticks + 1 - 1) = w.ticks
      rw [if_neg (Fin.not_lt_zero j), Nat.add_sub_cancel]
    · exact .same rfl rfl rfl
    · exact .same rfl rfl rfl
  · rcases p with _ | i | i
    · exact .same rfl rfl rfl
    · exact passed_loop (hbegun nofun) i j
    · exact .same (seen_after w i j) rfl rfl

theorem begun_step {h : Handler} (hbegun : h.Begun) (e : Act) : (h.step e).Begun := by
  obtain ⟨w, p⟩ := h
  have hcall : ∀ e' : Event, e' ≠ .tick → (Handler.mk (w.step e') p).Begun := by
    intro e' htick hp
    rcases step_entry w e' 0 with ⟨hc, -⟩ | ⟨-, hticks, -⟩
    · exact absurd hc htick
    · rw [hticks]
      exact hbegun hp
  rcases e with r | handle | _ | _
  · unfold Handler.step
    split_ifs
    · exact hcall (.set r) nofun
    · exact hbegun
  · unfold Handler.step
    split_ifs
    · exact hcall (.del handle) nofun
    · exact hbegun
  · rcases p with _ | i | i
    · intro _
      exact Nat.succ_pos w.ticks
    · exact hbegun
    · exact hbegun
  · rcases p with _ | i | i
    · exact hbegun
    · intro _
      show 0 < (sig_func.entry w i).ticks
      rw [entry_eq]
      exact hbegun nofun
    · intro _
      exact hbegun nofun

/-! ## Every timer is on schedule in its own count -/

/-- A timer that was set with `r` when its entry had counted `t` ticks. -/
def HRunning (r : Request) (i : Fin MAX_TIMER_CNT) (t : ℕ) (before : List Call) (h : Handler) :
    Prop := h.Begun ∧ Running r i t before (h.view i)

theorem HRunning.step {r : Request} {i : Fin MAX_TIMER_CNT} {t : ℕ} {before : List Call}
    {h : Handler} (hr : HRunning r i t before h) {e : Act} (he : e ≠ .del i) :
    HRunning r i t before (h.step e) := by
  obtain ⟨hbegun, hr⟩ := hr
  refine ⟨begun_step hbegun e, ?_⟩
  rcases passed hbegun e i with ⟨hseen, hinfo, hcalls⟩ | ⟨hseen, hinfo, hcalls⟩ |
    ⟨e', hcall, -, hseen, hcalls, hchanged⟩
  · exact hr.counted hseen hinfo hcalls
  · exact hr.same hseen hinfo hcalls
  · refine hr.same hseen ?_ hcalls
    -- The entry is in use, so that no timer is set there; and it is not the one deleted.
    rcases hchanged with hsame | ⟨-, hcause⟩ | ⟨r', -, -, hfree, -, -⟩
    · exact hsame
    · have hdel := hcause hr.entry.state
      rw [hdel] at hcall
      rcases e with _ | handle | _ | _
      · cases hcall
      · refine absurd ?_ he
        injection hcall with hcall
        injection hcall with hcall
        rw [hcall]
      · cases hcall
      · cases hcall
    · exact absurd hr.entry.state hfree

theorem HRunning.run {r : Request} {i : Fin MAX_TIMER_CNT} {t : ℕ} {before : List Call}
    {h : Handler} (hr : HRunning r i t before h) {post : List Act}
    (hpost : ∀ e ∈ post, e ≠ .del i) : HRunning r i t before (run Handler.step h post) :=
  run_invariant_along (I := HRunning r i t before) (fun _ _ hr he => hr.step he) hr
    (along_of_forall Handler.step h hpost)

/-- From the call on, the timer runs, counted from the ticks that its entry has seen. -/
theorem set_hrunning {h : Handler} (hbegun : h.Begun) (hopen : h.open? = true) {r : Request}
    (hr : (set_a_timer h.timers r).2 ≠ -1) :
    ∃ i : Fin MAX_TIMER_CNT, (set_a_timer h.timers r).2 = i ∧ (h.timers.timer_info i).state ≠ 1 ∧
      HRunning r i (h.seen i) (h.timers.callsOf i) (h.step (.set r)) := by
  obtain ⟨i, hi, hfree, hrunning⟩ := set_running hr
  refine ⟨i, hi, hfree, begun_step hbegun _, ?_⟩
  have hstep : h.step (.set r) = { h with timers := (set_a_timer h.timers r).1 } := if_pos hopen
  have hticks : (set_a_timer h.timers r).1.ticks = h.timers.ticks := step_ticks h.timers (.set r)
  have hseen : (h.step (.set r)).seen i = h.seen i := by
    rw [hstep]
    exact seen_congr hticks h.point i
  have helapse : ((h.step (.set r)).timers.timer_info i).elapse = 0 := by
    rw [hstep]
    show ((set_a_timer h.timers r).1.timer_info i).elapse = 0
    rw [hrunning.elapse, hticks, Nat.sub_self]
    exact Int.zero_emod _
  have hentry : ((h.step (.set r)).timers.timer_info i).SetFrom r := by
    rw [hstep]
    exact hrunning.entry
  have hcalls : (h.step (.set r)).timers.callsOf i = h.timers.callsOf i := by
    rw [hstep]
    show (set_a_timer h.timers r).1.callsOf i = _
    rw [hrunning.calls, hticks, Nat.sub_self]
    exact List.append_nil _
  have hstart : Running r i ((h.step (.set r)).view i).ticks (((h.step (.set r)).view i).callsOf i)
      ((h.step (.set r)).view i) := Running.start hentry helapse
  have hview : ((h.step (.set r)).view i).callsOf i = h.timers.callsOf i := hcalls
  rw [hview] at hstart
  exact hseen ▸ hstart

/-- An entry that is off stays off, and silent, until a timer is set there. -/
theorem hoff_step {h : Handler} (hbegun : h.Begun) {i : Fin MAX_TIMER_CNT}
    (hoff : (h.timers.timer_info i).state = 0) {e : Act}
    (he : ∀ r, e = .set r → h.open? = true → (set_a_timer h.timers r).2 ≠ i) :
    ((h.step e).timers.timer_info i).state = 0 ∧
      (h.step e).timers.callsOf i = h.timers.callsOf i := by
  rcases passed hbegun e i with ⟨hseen, hinfo, hcalls⟩ | ⟨hseen, hinfo, hcalls⟩ |
    ⟨e', hcall, hopen, hseen, hcalls, hchanged⟩
  · have htick : (h.timers.timer_info i).tick = h.timers.timer_info i := if_pos hoff
    have hsilent : (h.timers.timer_info i).callsAt (h.seen i + 1) i = [] := by
      unfold TimerInfo.callsAt TimerInfo.due
      simp [hoff]
    rw [hinfo, htick, hcalls, hsilent]
    exact ⟨hoff, List.append_nil _⟩
  · rw [hinfo, hcalls]
    exact ⟨hoff, rfl⟩
  · refine ⟨?_, hcalls⟩
    rcases hchanged with hsame | ⟨hs, -⟩ | ⟨r, hset, hi, -, -, -⟩
    · rw [hsame]
      exact hoff
    · exact hs
    · rw [hset] at hcall
      have hact : e = .set r := by
        rcases e with r' | _ | _ | _
        · injection hcall with hcall
          injection hcall with hcall
          rw [hcall]
        · cases hcall
        · cases hcall
        · cases hcall
      exact absurd hi (he r hact hopen)

/-! ## The law of the schedule -/

/-- A timer that is set with `r` during tick `t` is called in the ticks `t + k`, `t + 2 * k`, … for
its interval `k`, as long as it is not deleted; looked at when the handler does not run. -/
def SetLaw (h : Handler) (r : Request) (post : List Act) : Prop :=
  h.open? = true → (set_a_timer h.timers r).2 ≠ -1 → ∃ i : Fin MAX_TIMER_CNT,
    (set_a_timer h.timers r).2 = i ∧ (h.timers.timer_info i).state ≠ 1 ∧
      ((∀ e ∈ post, e ≠ .del i) → (run Handler.step (h.step (.set r)) post).point = .idle →
        (run Handler.step (h.step (.set r)) post).timers.callsOf i
          = h.timers.callsOf i ++ schedule r i h.timers.ticks
              ((run Handler.step (h.step (.set r)) post).timers.ticks - h.timers.ticks))

/-- A timer that is deleted is not called until a new timer gets its handle. -/
def DelLaw (h : Handler) (i : Fin MAX_TIMER_CNT) (post : List Act) : Prop :=
  h.open? = true →
    Along Handler.step (fun h e => ∀ r, e = .set r → h.open? = true → (set_a_timer h.timers r).2 ≠ i)
        (h.step (.del i)) post →
      (run Handler.step (h.step (.del i)) post).timers.callsOf i = h.timers.callsOf i

/-- Both laws, for every timer of a run. -/
structure KeepsSchedule (es : List Act) : Prop where
  set : ∀ pre r post, es = pre ++ .set r :: post → SetLaw (run Handler.step .start pre) r post
  deleted : ∀ pre (i : Fin MAX_TIMER_CNT) post, es = pre ++ .del i :: post →
    DelLaw (run Handler.step .start pre) i post

/-- A timer that is set in the callback of entry `p` gets an entry that the walk has passed. -/
def SetsBehind (h : Handler) : Act → Prop
  | .set r => r.Valid → ∀ p, h.point = .call p → ∀ i, h.timers.free? = some i → i ≤ p
  | _ => True

instance (h : Handler) : ∀ e, Decidable (SetsBehind h e)
  | .set r =>
      inferInstanceAs (Decidable (r.Valid → ∀ p, h.point = .call p → ∀ i, h.timers.free? = some i →
        i ≤ p))
  | .del _ => isTrue trivial
  | .sigalrm => isTrue trivial
  | .next => isTrue trivial

/-- **When a timer is called.** It keeps the schedule that starts with what its entry had
counted when it was set. -/
theorem reentrant_schedule_of_seen {h : Handler} (hbegun : h.Begun) (hopen : h.open? = true)
    {r : Request} {i : Fin MAX_TIMER_CNT} (hi : (set_a_timer h.timers r).2 = i) {post : List Act}
    (hpost : ∀ e ∈ post, e ≠ .del i)
    (hidle : (run Handler.step (h.step (.set r)) post).point = .idle) :
    (run Handler.step (h.step (.set r)) post).timers.callsOf i
      = h.timers.callsOf i ++ schedule r i (h.seen i)
          ((run Handler.step (h.step (.set r)) post).timers.ticks - h.seen i) := by
  have hset : (set_a_timer h.timers r).2 ≠ -1 := by
    rw [hi]
    omega
  obtain ⟨i', hi', -, hrunning⟩ := set_hrunning hbegun hopen hset
  have heq : i' = i := by
    rw [hi] at hi'
    exact Fin.ext (by exact_mod_cast hi'.symm)
  rw [heq] at hrunning
  have hend := (hrunning.run hpost).2.calls
  have hseen : (run Handler.step (h.step (.set r)) post).seen i
      = (run Handler.step (h.step (.set r)) post).timers.ticks := by
    unfold Handler.seen
    rw [hidle]
  have hticks : ((run Handler.step (h.step (.set r)) post).view i).ticks
      = (run Handler.step (h.step (.set r)) post).timers.ticks := hseen
  rw [hticks] at hend
  exact hend

theorem setLaw_of_behind {h : Handler} (hbegun : h.Begun) {r : Request}
    (hbehind : SetsBehind h (.set r)) (post : List Act) : SetLaw h r post := by
  intro hopen hset
  obtain ⟨i, hi, hfree, -⟩ := set_hrunning hbegun hopen hset
  obtain ⟨hvalid, hslot⟩ := (set_result_iff h.timers r i).mp hi
  refine ⟨i, hi, hfree, fun hpost hidle => ?_⟩
  have hseen : h.seen i = h.timers.ticks := by
    obtain ⟨w, p⟩ := h
    rcases p with _ | p | p
    · rfl
    · exact absurd hopen nofun
    · exact if_pos (hbehind hvalid p rfl i hslot)
  have hcalls := reentrant_schedule_of_seen hbegun hopen hi hpost hidle
  rw [hseen] at hcalls
  exact hcalls

theorem begun_run (es : List Act) : (run Handler.step .start es).Begun :=
  run_invariant (I := Handler.Begun) (fun _ e h => begun_step h e) (fun hc => absurd rfl hc) es

theorem delLaw {h : Handler} (hbegun : h.Begun) (i : Fin MAX_TIMER_CNT) (post : List Act) :
    DelLaw h i post := by
  intro hopen hpost
  have hstep : h.step (.del i) = { h with timers := h.timers.put i .zero } := by
    show (if h.open? then { h with timers := (del_a_timer h.timers i).1 } else h) = _
    rw [if_pos hopen, del_handle]
  have hoff : ((h.step (.del i)).timers.timer_info i).state = 0 := by
    rw [hstep]
    show ((h.timers.put i .zero).timer_info i).state = 0
    rw [put_self]
    rfl
  have hcalls : (h.step (.del i)).timers.callsOf i = h.timers.callsOf i := by
    rw [hstep]
    rfl
  have hend := run_invariant_along
    (I := fun v : Handler => v.Begun ∧ (v.timers.timer_info i).state = 0 ∧
      v.timers.callsOf i = h.timers.callsOf i)
    (fun v e hv he => ⟨begun_step hv.1 e, (hoff_step hv.1 hv.2.1 he).1,
      (hoff_step hv.1 hv.2.1 he).2.trans hv.2.2⟩)
    ⟨begun_step hbegun _, hoff, hcalls⟩ hpost
  exact hend.2.2

/-! ## A timer that is set ahead of the walk

The condition is exact. Where it is not met, the timer is called one tick early; a run that
goes on until then shows it. -/

/-- How much of the walk is left. -/
def Point.left : Point → ℕ
  | .idle => 0
  | .loop i => 2 * (MAX_TIMER_CNT - i)
  | .call i => 2 * (MAX_TIMER_CNT - i) - 1

theorem left_after (i : Fin MAX_TIMER_CNT) : (Point.after i).left < 2 * (MAX_TIMER_CNT - i) - 1 := by
  have hi := i.isLt
  unfold Point.after
  split_ifs with hlast
  · show 2 * (MAX_TIMER_CNT - (i.val + 1)) < _
    omega
  · show 0 < _
    omega

/-- A run in which only the handler goes on. -/
def Undisturbed (post : List Act) : Prop := ∀ e ∈ post, e = .sigalrm ∨ e = .next

/-- The entries that the walk has yet to come to. -/
def Point.rest : Point → List (Fin MAX_TIMER_CNT)
  | .idle => []
  | .loop i => (List.finRange MAX_TIMER_CNT).drop i
  | .call i => (List.finRange MAX_TIMER_CNT).drop (i + 1)

theorem rest_after (i : Fin MAX_TIMER_CNT) :
    (Point.after i).rest = (List.finRange MAX_TIMER_CNT).drop (i + 1) := by
  have hi := i.isLt
  unfold Point.after
  split_ifs with hlast
  · rfl
  · apply Eq.symm
    apply List.drop_of_length_le
    rw [List.length_finRange]
    omega

theorem rest_loop (i : Fin MAX_TIMER_CNT) : (Point.loop i).rest = i :: (Point.after i).rest := by
  rw [rest_after]
  show (List.finRange MAX_TIMER_CNT).drop i = _
  rw [List.drop_eq_getElem_cons (by rw [List.length_finRange]; exact i.isLt), List.getElem_finRange]
  rfl

/-- The walk comes to its end, and has then been to all the entries that were left. -/
theorem walk_ends (h : Handler) : ∃ post, Undisturbed post ∧
    run Handler.step h post = ⟨h.point.rest.foldl sig_func.entry h.timers, .idle⟩ := by
  -- Induction on what is left of the walk.
  induction hleft : h.point.left using Nat.strong_induction_on generalizing h with
  | _ n ih =>
      obtain ⟨w, p⟩ := h
      have hgo : ∀ h' : Handler, (Handler.mk w p).step .next = h' → h'.point.left < n →
          h'.point.rest.foldl sig_func.entry h'.timers = p.rest.foldl sig_func.entry w →
          ∃ post, Undisturbed post ∧
            run Handler.step ⟨w, p⟩ post = ⟨p.rest.foldl sig_func.entry w, .idle⟩ := by
        intro h' hstep hless hrest
        obtain ⟨post, hpost, hend⟩ := ih _ hless h' rfl
        refine ⟨.next :: post, ?_, ?_⟩
        · intro e he
          rcases List.mem_cons.mp he with rfl | he
          · exact Or.inr rfl
          · exact hpost e he
        · rw [run_cons, hstep, hend, hrest]
      rcases p with _ | i | i
      · exact ⟨[], nofun, rfl⟩
      · have hafter := left_after i
        have hleft' : 2 * (MAX_TIMER_CNT - i.val) = n := hleft
        apply hgo _ rfl
        · show Point.left (if (w.timer_info i).due then .call i else .after i) < n
          split_ifs
          · show 2 * (MAX_TIMER_CNT - i.val) - 1 < n
            have hi := i.isLt
            omega
          · omega
        · show (Point.rest (if (w.timer_info i).due then .call i else .after i)).foldl sig_func.entry
              (sig_func.entry w i) = _
          rw [rest_loop, List.foldl_cons]
          split_ifs
          · rw [rest_after]
            rfl
          · rfl
      · have hafter := left_after i
        have hleft' : 2 * (MAX_TIMER_CNT - i.val) - 1 = n := hleft
        refine hgo _ rfl (show (Point.after i).left < n by omega) ?_
        show (Point.after i).rest.foldl sig_func.entry w = _
        rw [rest_after]
        rfl

/-- With callbacks that do nothing to the timers, a tick is `sig_func`. -/
theorem tick_eq_sig_func (w : Timers) : ∃ post, Undisturbed post ∧
    run Handler.step ⟨w, .idle⟩ (.sigalrm :: post) = ⟨sig_func w, .idle⟩ :=
  walk_ends ⟨{ w with ticks := w.ticks + 1 }, .loop 0⟩

theorem walk_ticks (h : Handler) :
    (h.point.rest.foldl sig_func.entry h.timers).ticks = h.timers.ticks := by
  have hnodup : h.point.rest.Nodup := by
    rcases h.point with _ | i | i
    · exact List.nodup_nil
    · exact (List.nodup_finRange MAX_TIMER_CNT).sublist (List.drop_sublist _ _)
    · exact (List.nodup_finRange MAX_TIMER_CNT).sublist (List.drop_sublist _ _)
  exact (foldl_entry h.timers hnodup 0).1

theorem sigalrm_ticks {h : Handler} (hidle : h.point = .idle) :
    (h.step .sigalrm).timers.ticks = h.timers.ticks + 1 := by
  unfold Handler.step
  rw [hidle]

theorem ticks_pass (h : Handler) (n : ℕ) : ∃ post, Undisturbed post ∧
    (run Handler.step h post).point = .idle ∧
    (run Handler.step h post).timers.ticks = h.timers.ticks + n := by
  induction n with
  | zero =>
      obtain ⟨post, hpost, hend⟩ := walk_ends h
      refine ⟨post, hpost, ?_, ?_⟩
      · rw [hend]
      · rw [hend]
        exact walk_ticks h
  | succ n ih =>
      obtain ⟨post, hpost, hidle, hticks⟩ := ih
      obtain ⟨more, hmore, hend⟩ := walk_ends ((run Handler.step h post).step .sigalrm)
      refine ⟨post ++ .sigalrm :: more, ?_, ?_, ?_⟩
      · intro e he
        rcases List.mem_append.mp he with he | he
        · exact hpost e he
        · rcases List.mem_cons.mp he with rfl | he
          · exact Or.inl rfl
          · exact hmore e he
      · rw [run_append, run_cons, hend]
      · rw [run_append, run_cons, hend]
        refine (walk_ticks _).trans ?_
        rw [sigalrm_ticks hidle, hticks]
        omega

theorem schedule_length (r : Request) (i : Fin MAX_TIMER_CNT) (t t' n : ℕ) :
    (schedule r i t n).length = (schedule r i t' n).length := by
  unfold schedule
  rw [List.length_map, List.length_map]

/-- **The law holds of a timer exactly if its entry is not ahead of the walk** when it is
set. -/
theorem setLaw_iff {h : Handler} (hbegun : h.Begun) (r : Request) :
    (∀ post, SetLaw h r post) ↔ SetsBehind h (.set r) := by
  refine ⟨?_, fun hbehind post => setLaw_of_behind hbegun hbehind post⟩
  intro hlaw hvalid p hp i hslot
  by_contra hahead
  have hopen : h.open? = true := by
    unfold Handler.open?
    rw [hp]
  have hi : (set_a_timer h.timers r).2 = i := (set_result_iff h.timers r i).mpr ⟨hvalid, hslot⟩
  have hticks : (h.step (.set r)).timers.ticks = h.timers.ticks := by
    have hstep : h.step (.set r) = { h with timers := (set_a_timer h.timers r).1 } := if_pos hopen
    rw [hstep]
    exact step_ticks h.timers (.set r)
  have hpos : 0 < h.timers.ticks := hbegun (by rw [hp]; nofun)
  have hseen : h.seen i = h.timers.ticks - 1 := by
    unfold Handler.seen
    rw [hp]
    exact if_neg hahead
  -- One tick before the timer is due.
  obtain ⟨k, hk⟩ : ∃ k : ℕ, r.interval = k + 1 := ⟨(r.interval - 1).toNat, by have := hvalid.2.1; omega⟩
  obtain ⟨post, hpost, hidle, hend⟩ := ticks_pass (h.step (.set r)) k
  have hkeep : ∀ e ∈ post, e ≠ .del i := by
    intro e he hc
    rcases hpost e he with rfl | rfl
    · cases hc
    · cases hc
  obtain ⟨i', hi', -, hcalls⟩ := hlaw post hopen (by rw [hi]; omega)
  have heq : i' = i := by
    rw [hi] at hi'
    exact Fin.ext (by exact_mod_cast hi'.symm)
  rw [heq] at hcalls
  have hlawful := hcalls hkeep hidle
  rw [reentrant_schedule_of_seen hbegun hopen hi hkeep hidle, hend, hticks, hseen] at hlawful
  have hlen := congrArg List.length (List.append_cancel_left hlawful)
  have hcount : h.timers.ticks + k - (h.timers.ticks - 1) = k + 1 := by omega
  rw [hcount, Nat.add_sub_cancel_left, schedule_succ, List.length_append,
    schedule_length r i _ h.timers.ticks k, if_pos (by rw [hk]; exact_mod_cast dvd_rfl)] at hlen
  simp at hlen

/-- **The schedule law with callbacks that set and delete timers**: it holds in every run in
which no callback sets a timer in an entry that the walk has yet to come to. These runs are
exactly the ones in which every timer that is set is on time however the run goes on. -/
theorem reentrant_timers_keep_schedule (es : List Act) :
    (Along Handler.step SetsBehind .start es → KeepsSchedule es) ∧
      (Along Handler.step SetsBehind .start es ↔ ∀ pre r rest, es = pre ++ .set r :: rest →
        ∀ post, SetLaw (run Handler.step .start pre) r post) := by
  refine ⟨fun hes => ⟨?_, ?_⟩, ?_⟩
  · intro pre r post hsplit
    exact setLaw_of_behind (begun_run pre) ((along_iff _ _ _ _).mp hes pre (.set r) post hsplit) post
  · intro pre i post _
    exact delLaw (begun_run pre) i post
  · rw [along_iff]
    constructor
    · intro hes pre r rest hsplit
      exact (setLaw_iff (begun_run pre) r).mpr (hes pre (.set r) rest hsplit)
    · intro hlaw pre e rest hsplit
      -- Only setting a timer can go wrong.
      rcases e with r | i | _ | _
      · exact (setLaw_iff (begun_run pre) r).mp (hlaw pre r rest hsplit)
      · trivial
      · trivial
      · trivial

/-- A timer of one tick whose callback, in the second entry, sets one of two ticks in the
first. -/
theorem reentrant_timers_keep_schedule_behind :
    KeepsSchedule ([.set ⟨9, some 7, none⟩, .set ⟨1, some 8, none⟩, .del 0, .sigalrm, .next, .next,
      .set ⟨2, some 9, none⟩] ++ List.replicate 9 .next) :=
  (reentrant_timers_keep_schedule _).1 (by decide)

/-- A timer of one tick is called for the first time. -/
def firstCall : List Act := [.set ⟨1, some 7, none⟩, .sigalrm, .next]

/-- The walk goes on to the end of its tick, and through the next one. -/
def twoTicks : List Act := List.replicate 10 .next ++ .sigalrm :: List.replicate 12 .next

/-- A callback that sets a timer of two ticks: it gets the next entry, counts the tick that is
going on, and is called in the next one. -/
theorem callback_sets_timer_ahead : ¬ ∀ es, KeepsSchedule es := by
  intro hall
  have hlaw := (hall (firstCall ++ .set ⟨2, some 8, none⟩ :: twoTicks)).set firstCall
    ⟨2, some 8, none⟩ twoTicks rfl
  obtain ⟨i, hi, -, hcalls⟩ := hlaw (by decide) (by decide)
  have hhandle : (set_a_timer (run Handler.step .start firstCall).timers ⟨2, some 8, none⟩).2
      = ((1 : Fin MAX_TIMER_CNT) : ℕ) := by decide
  have hone : i = 1 := by
    rw [hhandle] at hi
    exact Fin.ext (by exact_mod_cast hi.symm)
  rw [hone] at hcalls
  have hfirst := hcalls (by decide) (by decide)
  revert hfirst
  decide

end TestCore.MulTimer
