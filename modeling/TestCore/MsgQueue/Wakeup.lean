/-
Waiting for a message: `put_msg_to_buffer` against `get_msg_from_buffer` and
`get_msg_from_buffer_timeout`.

A consumer that finds the buffer empty waits on `not_empty`. Its wait ends by a signal, by
itself (a condition variable may do that), or, for the timed call, at the deadline. From then
on it needs the mutex to go on, and others may come first: it is `woken` until it resumes. The
sections under the mutex are atomic.

Two things go wrong here. A put signals only if it finds the buffer empty, so a second put,
made before the consumer that was woken has come back, wakes nobody although there is a message
for another one (`no_lost_wakeup`). And the timed call looks at the buffer once after its wait,
where the other one looks in a loop, so a wait that ends too early is a call that returns
nothing too early (`timed_get_waits`).

Both results are about runs. Each has a condition on the steps under which all is well, and
shows that a step against the condition leads to the failure.
-/
import TestCore.MsgQueue.Buffer

set_option autoImplicit false

namespace TestCore.MsgQueue

open TestCore.Lib

/-! ## Consumers -/

/-- A caller of `get_msg_from_buffer`, or, if `timed`, of `get_msg_from_buffer_timeout`. -/
structure Consumer where
  id : ℕ
  timed : Bool
  deriving DecidableEq, Repr

/-- Why a wait ended. -/
inductive Wake where
  | signal
  | spurious
  | timeout
  deriving DecidableEq, Repr

/-- A call that has returned: what it returned, and why its last wait ended, if it has waited. -/
structure Return where
  who : Consumer
  elm : Ptr
  why : Option Wake
  deriving DecidableEq, Repr

/-- The buffer and the calls on it. -/
structure World where
  buf : MsgBuffer
  waiting : List Consumer
  woken : List (Consumer × Wake)
  returned : List Return

def World.init (next : Ptr → Ptr) : World := ⟨msg_buffer_init next, [], [], []⟩

/-- The wait of the `i`-th consumer ends. -/
def World.rouse (w : World) (i : ℕ) (why : Wake) : World :=
  match w.waiting[i]? with
  | none => w
  | some c => { w with waiting := w.waiting.eraseIdx i, woken := w.woken ++ [(c, why)] }

def World.wait (w : World) (c : Consumer) : World := { w with waiting := w.waiting ++ [c] }

/-- The last section of the call, after which it returns. -/
def World.leave (w : World) (c : Consumer) (why : Option Wake) : World :=
  let r := if c.timed then get_msg_from_buffer_timeout w.buf else get_msg_from_buffer w.buf
  { w with buf := r.1, returned := w.returned ++ [⟨c, r.2, why⟩] }

inductive Event where
  /-- A put. `pick` chooses whom a signal wakes. -/
  | put (elm : Ptr) (pick : ℕ)
  | get (c : Consumer)
  | spurious (i : ℕ)
  | timeout (i : ℕ)
  /-- The `i`-th of the woken consumers gets the mutex. -/
  | resume (i : ℕ)

def World.put (w : World) (elm : Ptr) (pick : ℕ) : World :=
  let r := put_msg_to_buffer w.buf elm
  if r.2 then { w with buf := r.1 }.rouse (pick % w.waiting.length) .signal else { w with buf := r.1 }

def World.get (w : World) (c : Consumer) : World :=
  if w.buf.num = 0 then w.wait c else w.leave c none

/-- Only the blocking call looks at `num` again before it goes on. -/
def World.resume (w : World) (i : ℕ) : World :=
  match w.woken[i]? with
  | none => w
  | some (c, why) =>
      let w' : World := { w with woken := w.woken.eraseIdx i }
      if c.timed = false ∧ w.buf.num = 0 then w'.wait c else w'.leave c (some why)

def World.timeout (w : World) (i : ℕ) : World :=
  match w.waiting[i]? with
  | none => w
  | some c => if c.timed then w.rouse i .timeout else w

def World.step (w : World) : Event → World
  | .put elm pick => w.put elm pick
  | .get c => w.get c
  | .spurious i => w.rouse i .spurious
  | .timeout i => w.timeout i
  | .resume i => w.resume i

/-! ## What the sections do to `num` -/

/-- The two tests for an empty buffer agree. -/
structure Counted (buf : MsgBuffer) : Prop where
  nonneg : 0 ≤ buf.num
  empty : buf.num = 0 → buf.first = buf.last

theorem Counted.put {buf : MsgBuffer} (h : Counted buf) {elm : Ptr} (hnull : elm ≠ NULL) :
    Counted (put_msg_to_buffer buf elm).1 ∧ (put_msg_to_buffer buf elm).1.num = buf.num + 1 ∧
      ((put_msg_to_buffer buf elm).2 = true ↔ buf.num = 0) := by
  have hnonneg := h.nonneg
  unfold put_msg_to_buffer
  rw [if_neg hnull]
  dsimp only
  by_cases hzero : buf.num = 0
  · rw [if_pos ⟨h.empty hzero, hzero⟩]
    exact ⟨⟨by dsimp only; omega, fun _ => rfl⟩, rfl, by simp [hzero]⟩
  · rw [if_neg (fun hc => hzero hc.2)]
    exact ⟨⟨by dsimp only; omega, fun hc => by dsimp only at hc; omega⟩, rfl, by simp [hzero]⟩

theorem put_null (buf : MsgBuffer) : put_msg_to_buffer buf NULL = (buf, false) := if_pos rfl

theorem Counted.takeFirst {buf : MsgBuffer} (h : Counted buf) (hpos : buf.num ≠ 0) :
    Counted (takeFirst buf).1 ∧ (takeFirst buf).1.num = buf.num - 1 := by
  have hnonneg := h.nonneg
  unfold MsgQueue.takeFirst
  by_cases hone : buf.num = 1
  · rw [if_pos hone, hone]
    exact ⟨⟨le_rfl, fun _ => rfl⟩, rfl⟩
  · rw [if_neg hone]
    exact ⟨⟨by dsimp only; omega, fun hc => by dsimp only at hc; omega⟩, rfl⟩

/-- Both calls take the first element if there is one. -/
theorem leave_of_pos (w : World) (h : Counted w.buf) (hpos : w.buf.num ≠ 0) (c : Consumer)
    (why : Option Wake) :
    w.leave c why = { w with
      buf := (takeFirst w.buf).1
      returned := w.returned ++ [⟨c, (takeFirst w.buf).2, why⟩] } := by
  have hnonneg := h.nonneg
  have htimeout : get_msg_from_buffer_timeout w.buf = takeFirst w.buf := if_pos (by omega)
  have hget : get_msg_from_buffer w.buf = takeFirst w.buf := if_neg hpos
  unfold World.leave
  rw [htimeout, hget, ite_self]

/-- And nothing otherwise. -/
theorem leave_of_empty (w : World) (hzero : w.buf.num = 0) (c : Consumer) (why : Option Wake) :
    w.leave c why = { w with returned := w.returned ++ [⟨c, NULL, why⟩] } := by
  have htimeout : get_msg_from_buffer_timeout w.buf = (w.buf, NULL) := if_neg (by omega)
  have hget : get_msg_from_buffer w.buf = (w.buf, NULL) := if_pos hzero
  unfold World.leave
  rw [htimeout, hget, ite_self]

theorem rouse_none (w : World) {i : ℕ} (h : w.waiting[i]? = none) (why : Wake) :
    w.rouse i why = w := by
  unfold World.rouse
  rw [h]

theorem rouse_some (w : World) {i : ℕ} {c : Consumer} (h : w.waiting[i]? = some c) (why : Wake) :
    w.rouse i why
      = { w with waiting := w.waiting.eraseIdx i, woken := w.woken ++ [(c, why)] } := by
  unfold World.rouse
  rw [h]

theorem resume_none {w : World} {i : ℕ} (h : w.woken[i]? = none) : w.resume i = w := by
  unfold World.resume
  rw [h]

theorem resume_some {w : World} {i : ℕ} {c : Consumer} {why : Wake}
    (h : w.woken[i]? = some (c, why)) :
    w.resume i = if c.timed = false ∧ w.buf.num = 0 then
      { w with woken := w.woken.eraseIdx i }.wait c
    else { w with woken := w.woken.eraseIdx i }.leave c (some why) := by
  unfold World.resume
  rw [h]

/-- A deadline is one more way to rouse a consumer. -/
theorem timeout_cases (w : World) (i : ℕ) :
    w.timeout i = w ∨ w.timeout i = w.rouse i .timeout := by
  unfold World.timeout
  split
  · exact Or.inl rfl
  · split_ifs
    · exact Or.inr rfl
    · exact Or.inl rfl

theorem put_world_null (w : World) (pick : ℕ) : w.put NULL pick = w := by
  unfold World.put
  rw [put_null]
  rfl

/-- What a put does: it wakes somebody if the buffer is empty and somebody waits. -/
theorem put_cases {w : World} (h : Counted w.buf) {elm : Ptr} (hnull : elm ≠ NULL) (pick : ℕ) :
    ((w.buf.num = 0 → w.waiting = []) ∧
        w.put elm pick = { w with buf := (put_msg_to_buffer w.buf elm).1 }) ∨
      ∃ i c, w.buf.num = 0 ∧ w.waiting[i]? = some c ∧
        w.put elm pick = { w with
          buf := (put_msg_to_buffer w.buf elm).1
          waiting := w.waiting.eraseIdx i
          woken := w.woken ++ [(c, .signal)] } := by
  obtain ⟨-, -, hsignal⟩ := h.put hnull
  unfold World.put
  dsimp only
  by_cases hzero : w.buf.num = 0
  · rw [if_pos (hsignal.mpr hzero)]
    rcases hi : w.waiting[pick % w.waiting.length]? with _ | c
    · refine Or.inl ⟨fun _ => ?_, rouse_none { w with buf := (put_msg_to_buffer w.buf elm).1 } hi .signal⟩
      by_contra hne
      have hlt := Nat.mod_lt pick (List.length_pos_iff.mpr hne)
      exact absurd hlt (not_lt.mpr (List.getElem?_eq_none_iff.mp hi))
    · exact Or.inr ⟨_, c, hzero, hi,
        rouse_some { w with buf := (put_msg_to_buffer w.buf elm).1 } hi .signal⟩
  · rw [if_neg (mt hsignal.mp hzero)]
    exact Or.inl ⟨fun hc => absurd hc hzero, rfl⟩

/-! ## Lost wake-ups -/

/-- There is a message and somebody waits for one, but nobody is on the way to take it. -/
def Stuck (w : World) : Prop := 0 < w.buf.num ∧ w.waiting ≠ [] ∧ w.woken = []

instance (w : World) : Decidable (Stuck w) :=
  inferInstanceAs (Decidable (0 < w.buf.num ∧ w.waiting ≠ [] ∧ w.woken = []))

/-- A message put behind others has somebody to take it: nobody waits, or there are more woken
consumers than messages. -/
def PutCovered (w : World) : Event → Prop
  | .put elm _ => elm ≠ NULL → w.buf.num ≠ 0 → w.waiting = [] ∨ w.buf.num < w.woken.length
  | _ => True

instance (w : World) (e : Event) : Decidable (PutCovered w e) :=
  match e with
  | .put elm _ => inferInstanceAs (Decidable
      (elm ≠ NULL → w.buf.num ≠ 0 → w.waiting = [] ∨ w.buf.num < w.woken.length))
  | .get _ => isTrue trivial
  | .spurious _ => isTrue trivial
  | .timeout _ => isTrue trivial
  | .resume _ => isTrue trivial

/-- As long as somebody waits, every message has a woken consumer. -/
structure Awake (w : World) : Prop where
  counted : Counted w.buf
  covered : w.waiting ≠ [] → w.buf.num ≤ w.woken.length

theorem Awake.not_stuck {w : World} (h : Awake w) : ¬ Stuck w := by
  rintro ⟨hpos, hwaiting, hwoken⟩
  have hle := h.covered hwaiting
  rw [hwoken, List.length_nil] at hle
  omega

theorem Awake.rouse {w : World} (h : Awake w) (i : ℕ) (why : Wake) : Awake (w.rouse i why) := by
  rcases hi : w.waiting[i]? with _ | c
  · rw [rouse_none w hi]
    exact h
  · rw [rouse_some w hi]
    refine ⟨h.counted, fun _ => ?_⟩
    have hle := h.covered (List.ne_nil_of_mem (List.mem_of_getElem? hi))
    dsimp only
    rw [List.length_append, List.length_singleton]
    push_cast
    omega

theorem Awake.put {w : World} (h : Awake w) (elm : Ptr) (pick : ℕ)
    (hcov : PutCovered w (.put elm pick)) : Awake (w.put elm pick) := by
  rcases eq_or_ne elm NULL with rfl | hnull
  · rw [put_world_null]
    exact h
  · obtain ⟨hcounted, hnum, -⟩ := h.counted.put hnull
    rcases put_cases h.counted hnull pick with ⟨hempty, hput⟩ | ⟨i, c, hzero, -, hput⟩
    · rw [hput]
      refine ⟨hcounted, fun hne => ?_⟩
      have hlt := (hcov hnull (mt hempty hne)).resolve_left hne
      dsimp only
      rw [hnum]
      omega
    · -- The message is the only one, and the consumer that was woken is for it.
      rw [hput]
      refine ⟨hcounted, fun _ => ?_⟩
      dsimp only
      rw [hnum, hzero, List.length_append, List.length_singleton]
      push_cast
      omega

/-- A call that returns takes a message away, if there is one. -/
theorem Awake.leave (w : World) (hcounted : Counted w.buf)
    (hcov : w.waiting ≠ [] → w.buf.num ≤ w.woken.length + 1) (c : Consumer) (why : Option Wake) :
    Awake (w.leave c why) := by
  by_cases hzero : w.buf.num = 0
  · rw [leave_of_empty w hzero]
    refine ⟨hcounted, fun _ => ?_⟩
    dsimp only
    omega
  · rw [leave_of_pos w hcounted hzero]
    obtain ⟨hcounted', hnum⟩ := hcounted.takeFirst hzero
    refine ⟨hcounted', fun hne => ?_⟩
    have hle := hcov hne
    dsimp only
    rw [hnum]
    omega

theorem Awake.wait (w : World) (hcounted : Counted w.buf) (hzero : w.buf.num = 0) (c : Consumer) :
    Awake (w.wait c) := by
  refine ⟨hcounted, fun _ => ?_⟩
  unfold World.wait
  dsimp only
  omega

theorem Awake.get {w : World} (h : Awake w) (c : Consumer) : Awake (w.get c) := by
  unfold World.get
  split_ifs with hzero
  · exact Awake.wait w h.counted hzero c
  · apply Awake.leave w h.counted
    intro hne
    have hle := h.covered hne
    omega

theorem Awake.resume {w : World} (h : Awake w) (i : ℕ) : Awake (w.resume i) := by
  rcases hi : w.woken[i]? with _ | ⟨c, why⟩
  · rw [resume_none hi]
    exact h
  · rw [resume_some hi]
    split_ifs with hwait
    · exact Awake.wait { w with woken := w.woken.eraseIdx i } h.counted hwait.2 c
    · apply Awake.leave { w with woken := w.woken.eraseIdx i } h.counted
      intro hne
      have hle := h.covered hne
      have hlt := (List.getElem?_eq_some_iff.mp hi).1
      dsimp only
      rw [List.length_eraseIdx_of_lt hlt]
      omega

theorem Awake.step {w : World} (h : Awake w) {e : Event} (he : PutCovered w e) :
    Awake (w.step e) := by
  cases e with
  | put elm pick => exact h.put elm pick he
  | get c => exact h.get c
  | spurious i => exact h.rouse i .spurious
  | timeout i =>
      rcases timeout_cases w i with hsame | hrouse
      · show Awake (w.timeout i)
        rw [hsame]
        exact h
      · show Awake (w.timeout i)
        rw [hrouse]
        exact h.rouse i .timeout
  | resume i => exact h.resume i

theorem awake_init (next : Ptr → Ptr) : Awake (World.init next) :=
  ⟨⟨le_rfl, fun _ => rfl⟩, fun hne => absurd rfl hne⟩

/-- If there is a message more than there are woken consumers, the last of them leaves it to
those that wait. -/
theorem stuck_of_uncovered {w : World} (hcounted : Counted w.buf) (hwaiting : w.waiting ≠ [])
    (hnum : w.buf.num = w.woken.length + 1) :
    ∃ fs : List Event, (∀ f ∈ fs, f = .resume 0) ∧ Stuck (run World.step w fs) := by
  -- By induction on the woken consumers: each of them takes a message.
  obtain ⟨n, hn⟩ : ∃ n, n = w.woken.length := ⟨_, rfl⟩
  induction n generalizing w with
  | zero =>
      have hwoken : w.woken = [] := List.length_eq_zero_iff.mp hn.symm
      refine ⟨[], nofun, ?_, hwaiting, hwoken⟩
      rw [run_nil, hnum]
      omega
  | succ n ih =>
      obtain ⟨⟨c, why⟩, rest, hrest⟩ := List.exists_of_length_succ w.woken hn.symm
      have hzero : w.buf.num ≠ 0 := by omega
      have hi : w.woken[0]? = some (c, why) := by rw [hrest]; rfl
      obtain ⟨hcounted', hnum'⟩ := hcounted.takeFirst hzero
      have hlen : (w.woken.eraseIdx 0).length = n := by
        rw [List.length_eraseIdx_of_lt (by omega), ← hn, Nat.add_sub_cancel]
      have hstep : w.step (.resume 0)
          = { w with woken := w.woken.eraseIdx 0 }.leave c (some why) := by
        show w.resume 0 = _
        rw [resume_some hi, if_neg (fun hc => hzero hc.2)]
      rw [leave_of_pos { w with woken := w.woken.eraseIdx 0 } hcounted hzero] at hstep
      obtain ⟨fs, hfs, hstuck⟩ := ih (w := w.step (.resume 0)) (by rw [hstep]; exact hcounted')
        (by rw [hstep]; exact hwaiting) (by rw [hstep]; dsimp only; rw [hnum', hlen]; omega)
        (by rw [hstep]; exact hlen.symm)
      refine ⟨.resume 0 :: fs, ?_, hstuck⟩
      intro f hf
      rcases List.mem_cons.mp hf with rfl | hf
      · rfl
      · exact hfs f hf

/-- **When no wake-up is lost.** In a run whose puts are covered nobody is ever stuck, and after
such a run any other put makes somebody stuck, once the woken consumers have come back. -/
theorem no_lost_wakeup (next : Ptr → Ptr) (es : List Event)
    (hes : Along World.step PutCovered (World.init next) es) :
    (∀ pre post, es = pre ++ post → ¬ Stuck (run World.step (World.init next) pre)) ∧
      ∀ e, ¬ PutCovered (run World.step (World.init next) es) e →
        ∃ fs : List Event, (∀ f ∈ fs, f = .resume 0) ∧
          Stuck (run World.step (World.init next) (es ++ e :: fs)) := by
  have hawake : ∀ es, Along World.step PutCovered (World.init next) es →
      Awake (run World.step (World.init next) es) := fun es hes =>
    run_invariant_along (I := Awake) (fun w e h he => Awake.step h he) (awake_init next) hes
  refine ⟨?_, ?_⟩
  · rintro pre post rfl
    exact (hawake pre ((along_append World.step PutCovered _ pre post).mp hes).1).not_stuck
  · intro e he
    obtain ⟨w, hw⟩ : ∃ w, w = run World.step (World.init next) es := ⟨_, rfl⟩
    have h : Awake w := hw ▸ hawake es hes
    rw [← hw] at he
    simp only [run_append, ← hw, run_cons]
    cases e with
    | put elm pick =>
        unfold PutCovered at he
        push Not at he
        obtain ⟨hnull, hzero, hwaiting, hle⟩ := he
        have hge := h.covered hwaiting
        obtain ⟨hcounted, hnum, -⟩ := h.counted.put hnull
        rcases put_cases h.counted hnull pick with ⟨-, hput⟩ | ⟨_, _, hc, -⟩
        · show ∃ fs : List Event, _ ∧ Stuck (run World.step (w.put elm pick) fs)
          rw [hput]
          apply stuck_of_uncovered
          · exact hcounted
          · exact hwaiting
          · dsimp only
            rw [hnum]
            omega
        · exact absurd hc hzero
    | get c => exact absurd trivial he
    | spurious i => exact absurd trivial he
    | timeout i => exact absurd trivial he
    | resume i => exact absurd trivial he

/-- Two consumers and two messages, the second one put after the first consumer has come back. -/
theorem no_lost_wakeup_in_turn :
    (run World.step (World.init fun _ => NULL)
      [.get ⟨1, false⟩, .get ⟨2, false⟩, .put 10 0, .resume 0, .put 20 0]).buf.num = 1 ∧
    ¬ Stuck (run World.step (World.init fun _ => NULL)
      [.get ⟨1, false⟩, .get ⟨2, false⟩, .put 10 0, .resume 0, .put 20 0]) :=
  ⟨by decide, (no_lost_wakeup _ _ (by decide)).1 _ [] (List.append_nil _).symm⟩

/-- Two consumers and two messages, the second one put before: the second consumer waits on. -/
theorem second_put_wakes_nobody :
    Stuck (run World.step (World.init fun _ => NULL)
      [.get ⟨1, false⟩, .get ⟨2, false⟩, .put 10 0, .put 20 0, .resume 0]) := by
  decide

/-! ## Early returns -/

/-- Some timed call is woken, and not by its deadline. -/
def early (woken : List (Consumer × Wake)) : Bool :=
  woken.any fun p => p.1.timed && p.2 != .timeout

/-- The element of a put is not in the buffer: the senders have just got it from `malloc`. -/
def Fresh (w : World) : Event → Prop
  | .put elm _ => elm ∉ w.buf.nodes
  | _ => True

/-- Nothing disturbs a timed call: it does not wake up by itself while the buffer is empty, and
nobody takes the last message while one is woken before its deadline. -/
def Undisturbed (w : World) : Event → Prop
  | .get _ => w.buf.num = 1 → early w.woken = false
  | .spurious i => ∀ c ∈ w.waiting[i]?, c.timed = true → w.buf.num ≠ 0
  | .resume i => i < w.woken.length → w.buf.num = 1 → early (w.woken.eraseIdx i) = false
  | _ => True

instance (w : World) (e : Event) : Decidable (Fresh w e) :=
  match e with
  | .put elm _ => inferInstanceAs (Decidable (elm ∉ w.buf.nodes))
  | .get _ => isTrue trivial
  | .spurious _ => isTrue trivial
  | .timeout _ => isTrue trivial
  | .resume _ => isTrue trivial

instance (w : World) (e : Event) : Decidable (Undisturbed w e) :=
  match e with
  | .put _ _ => isTrue trivial
  | .get _ => inferInstanceAs (Decidable (w.buf.num = 1 → early w.woken = false))
  | .spurious i =>
      inferInstanceAs (Decidable (∀ c ∈ w.waiting[i]?, c.timed = true → w.buf.num ≠ 0))
  | .timeout _ => isTrue trivial
  | .resume i => inferInstanceAs (Decidable
      (i < w.woken.length → w.buf.num = 1 → early (w.woken.eraseIdx i) = false))

theorem early_iff (woken : List (Consumer × Wake)) :
    early woken = true ↔ ∃ p ∈ woken, p.1.timed = true ∧ p.2 ≠ .timeout := by
  simp [early]

theorem early_append_timeout (woken : List (Consumer × Wake)) (c : Consumer) :
    early (woken ++ [(c, .timeout)]) = early woken := by
  simp [early]

theorem early_of_eraseIdx {woken : List (Consumer × Wake)} {i : ℕ}
    (h : early (woken.eraseIdx i) = true) : early woken = true := by
  rw [early_iff] at h ⊢
  obtain ⟨p, hp, hearly⟩ := h
  exact ⟨p, List.mem_of_mem_eraseIdx hp, hearly⟩

theorem Rep.counted {buf : MsgBuffer} {l : List Ptr} (h : Rep buf l) : Counted buf := by
  have hnum := h.num
  refine ⟨by omega, fun hzero => ?_⟩
  have hnil : l = [] := List.length_eq_zero_iff.mp (by omega)
  exact (h.empty_iff.mpr hnil).1

/-- A call that got nothing had its deadline. -/
def Return.Patient (r : Return) : Prop :=
  r.who.timed = true → r.elm = NULL → r.why = some .timeout

instance (r : Return) : Decidable r.Patient :=
  inferInstanceAs (Decidable (r.who.timed = true → r.elm = NULL → r.why = some .timeout))

/-- Timed calls that are woken before their deadline find a message. -/
structure Patient (w : World) : Prop where
  rep : ∃ l, Rep w.buf l
  full : early w.woken = true → w.buf.num ≠ 0
  returned : ∀ r ∈ w.returned, r.Patient

theorem Patient.put {w : World} (h : Patient w) (elm : Ptr) (pick : ℕ)
    (hfresh : Fresh w (.put elm pick)) : Patient (w.put elm pick) := by
  rcases eq_or_ne elm NULL with rfl | hnull
  · rw [put_world_null]
    exact h
  · obtain ⟨l, hl⟩ := h.rep
    have hnew : elm ∉ l := hl.nodes ▸ hfresh
    have hrep := (hl.put hnull hnew).1
    have hnum : (put_msg_to_buffer w.buf elm).1.num ≠ 0 := by
      have hnonneg := hl.counted.nonneg
      rw [(hl.counted.put hnull).2.1]
      omega
    rcases put_cases hl.counted hnull pick with ⟨-, hput⟩ | ⟨i, c, -, -, hput⟩
    · rw [hput]
      exact ⟨⟨_, hrep⟩, fun _ => hnum, h.returned⟩
    · rw [hput]
      exact ⟨⟨_, hrep⟩, fun _ => hnum, h.returned⟩

theorem Patient.spurious {w : World} (h : Patient w) (i : ℕ)
    (hquiet : Undisturbed w (.spurious i)) : Patient (w.rouse i .spurious) := by
  rcases hi : w.waiting[i]? with _ | c
  · rw [rouse_none w hi]
    exact h
  · rw [rouse_some w hi]
    refine ⟨h.rep, fun hearly => ?_, h.returned⟩
    dsimp only at hearly ⊢
    obtain ⟨p, hp, htimed, hwhy⟩ := (early_iff _).mp hearly
    rcases List.mem_append.mp hp with hold | hnew
    · exact h.full ((early_iff _).mpr ⟨p, hold, htimed, hwhy⟩)
    · rw [List.mem_singleton.mp hnew] at htimed
      exact hquiet c hi htimed

theorem Patient.timeout {w : World} (h : Patient w) (i : ℕ) : Patient (w.timeout i) := by
  rcases timeout_cases w i with hsame | hrouse
  · rw [hsame]
    exact h
  · rw [hrouse]
    rcases hi : w.waiting[i]? with _ | c
    · rw [rouse_none w hi]
      exact h
    · rw [rouse_some w hi]
      refine ⟨h.rep, fun hearly => ?_, h.returned⟩
      rw [early_append_timeout] at hearly
      exact h.full hearly

/-- A call returns: it finds a message, which is not the last one if another timed call counts
on it, or it had its deadline. -/
theorem Patient.leave (w : World) (h : Patient w) (c : Consumer) (why : Option Wake)
    (hlast : w.buf.num = 1 → early w.woken = false)
    (hwhy : w.buf.num = 0 → c.timed = true → why = some .timeout) : Patient (w.leave c why) := by
  obtain ⟨l, hl⟩ := h.rep
  by_cases hzero : w.buf.num = 0
  · rw [leave_of_empty w hzero]
    refine ⟨⟨l, hl⟩, h.full, fun r hr => ?_⟩
    rcases List.mem_append.mp hr with hold | hnew
    · exact h.returned r hold
    · rw [List.mem_singleton.mp hnew]
      exact fun htimed _ => hwhy hzero htimed
  · rw [leave_of_pos w hl.counted hzero]
    have hnum := hl.num
    obtain ⟨x, l, rfl⟩ : ∃ x l', l = x :: l' := by
      apply List.exists_cons_of_ne_nil
      rintro rfl
      exact hzero hnum
    obtain ⟨helm, hrep⟩ := hl.take
    refine ⟨⟨l, hrep⟩, fun hearly => ?_, fun r hr => ?_⟩
    · have hne : w.buf.num ≠ 1 := by
        intro hone
        rw [hlast hone] at hearly
        cases hearly
      dsimp only
      rw [(hl.counted.takeFirst hzero).2]
      omega
    · rcases List.mem_append.mp hr with hold | hnew
      · exact h.returned r hold
      · rw [List.mem_singleton.mp hnew]
        intro _ hnull
        exact absurd (helm.symm.trans hnull) (hl.ne_null (by simp))

theorem Patient.get {w : World} (h : Patient w) (c : Consumer)
    (hquiet : Undisturbed w (.get c)) : Patient (w.get c) := by
  unfold World.get
  split_ifs with hzero
  · exact ⟨h.rep, h.full, h.returned⟩
  · exact h.leave w c none hquiet (fun hc => absurd hc hzero)

theorem Patient.resume {w : World} (h : Patient w) (i : ℕ)
    (hquiet : Undisturbed w (.resume i)) : Patient (w.resume i) := by
  rcases hi : w.woken[i]? with _ | ⟨c, why⟩
  · rw [resume_none hi]
    exact h
  · have hgone : Patient { w with woken := w.woken.eraseIdx i } :=
      ⟨h.rep, fun hearly => h.full (early_of_eraseIdx hearly), h.returned⟩
    rw [resume_some hi]
    split_ifs with hwait
    · exact ⟨hgone.rep, hgone.full, hgone.returned⟩
    · refine hgone.leave _ c (some why) (hquiet (List.getElem?_eq_some_iff.mp hi).1) ?_
      intro hzero htimed
      -- Otherwise it would be one that counts on a message.
      by_contra hwhy
      refine h.full ((early_iff _).mpr ⟨(c, why), List.mem_of_getElem? hi, htimed, ?_⟩) hzero
      rintro rfl
      exact hwhy rfl

theorem Patient.step {w : World} (h : Patient w) {e : Event} (hfresh : Fresh w e)
    (hquiet : Undisturbed w e) : Patient (w.step e) := by
  cases e with
  | put elm pick => exact h.put elm pick hfresh
  | get c => exact h.get c hquiet
  | spurious i => exact h.spurious i hquiet
  | timeout i => exact h.timeout i
  | resume i => exact h.resume i hquiet

theorem patient_init (next : Ptr → Ptr) : Patient (World.init next) :=
  ⟨⟨[], rep_init next⟩, nofun, nofun⟩

/-- Woken before its deadline, with no message there, a timed call returns nothing. -/
theorem early_return {w : World} (hearly : early w.woken = true) (hzero : w.buf.num = 0) :
    ∃ i, ∃ r ∈ (w.resume i).returned, ¬ r.Patient := by
  obtain ⟨⟨c, why⟩, hp, htimed, hwhy⟩ := (early_iff _).mp hearly
  obtain ⟨i, hi⟩ := List.mem_iff_getElem?.mp hp
  have hblock : ¬ (c.timed = false ∧ w.buf.num = 0) := by
    rintro ⟨hf, -⟩
    exact Bool.noConfusion (hf.symm.trans htimed)
  refine ⟨i, ⟨c, NULL, some why⟩, ?_, ?_⟩
  · rw [resume_some hi, if_neg hblock, leave_of_empty { w with woken := w.woken.eraseIdx i } hzero]
    simp
  · intro hpatient
    exact hwhy (Option.some.inj (hpatient htimed rfl))

/-- A step that disturbs a timed call leaves it awake with an empty buffer. -/
theorem disturbed_step {w : World} (hcounted : Counted w.buf) {e : Event}
    (he : ¬ Undisturbed w e) : early (w.step e).woken = true ∧ (w.step e).buf.num = 0 := by
  cases e with
  | put elm pick => exact absurd trivial he
  | timeout i => exact absurd trivial he
  | get c =>
      unfold Undisturbed at he
      push Not at he
      obtain ⟨hone, hearly⟩ := he
      have hzero : w.buf.num ≠ 0 := by omega
      show early (w.get c).woken = true ∧ (w.get c).buf.num = 0
      unfold World.get
      rw [if_neg hzero, leave_of_pos w hcounted hzero]
      refine ⟨Bool.eq_true_of_not_eq_false hearly, ?_⟩
      dsimp only
      rw [(hcounted.takeFirst hzero).2, hone, sub_self]
  | spurious i =>
      unfold Undisturbed at he
      push Not at he
      obtain ⟨c, hi, htimed, hzero⟩ := he
      show early (w.rouse i .spurious).woken = true ∧ (w.rouse i .spurious).buf.num = 0
      rw [rouse_some w hi]
      exact ⟨(early_iff _).mpr ⟨(c, .spurious), by simp, htimed, nofun⟩, hzero⟩
  | resume i =>
      unfold Undisturbed at he
      push Not at he
      obtain ⟨hlt, hone, hearly⟩ := he
      have hzero : w.buf.num ≠ 0 := by omega
      show early (w.resume i).woken = true ∧ (w.resume i).buf.num = 0
      rw [resume_some (List.getElem?_eq_getElem hlt), if_neg (fun hc => hzero hc.2),
        leave_of_pos { w with woken := w.woken.eraseIdx i } hcounted hzero]
      refine ⟨Bool.eq_true_of_not_eq_false hearly, ?_⟩
      dsimp only
      rw [(hcounted.takeFirst hzero).2, hone, sub_self]

/-- **When a timed call gives up only at its deadline.** In an undisturbed run every timed call
that returned nothing had its deadline, and after such a run any step that disturbs one can be
followed by its early return. -/
theorem timed_get_waits (next : Ptr → Ptr) (es : List Event)
    (hfresh : Along World.step Fresh (World.init next) es)
    (hquiet : Along World.step Undisturbed (World.init next) es) :
    (∀ r ∈ (run World.step (World.init next) es).returned, r.Patient) ∧
      ∀ e, ¬ Undisturbed (run World.step (World.init next) es) e →
        ∃ i, ∃ r ∈ (run World.step (World.init next) (es ++ [e, .resume i])).returned,
          ¬ r.Patient := by
  have h : Patient (run World.step (World.init next) es) :=
    run_invariant_along (I := Patient) (fun w e h he => Patient.step h he.1 he.2)
      (patient_init next) (along_and World.step hfresh hquiet)
  refine ⟨h.returned, fun e he => ?_⟩
  obtain ⟨l, hl⟩ := h.rep
  obtain ⟨hearly, hzero⟩ := disturbed_step hl.counted he
  obtain ⟨i, hreturn⟩ := early_return hearly hzero
  refine ⟨i, ?_⟩
  rw [run_append]
  exact hreturn

/-- A timed call that is woken and finds its message, and one that waits until its deadline. -/
theorem timed_get_waits_once_each :
    (run World.step (World.init fun _ => NULL)
      [.get ⟨1, true⟩, .put 10 0, .resume 0, .get ⟨2, true⟩, .timeout 0, .resume 0]).returned
      = [⟨⟨1, true⟩, 10, some .signal⟩, ⟨⟨2, true⟩, NULL, some .timeout⟩] ∧
    ∀ r ∈ (run World.step (World.init fun _ => NULL)
      [.get ⟨1, true⟩, .put 10 0, .resume 0, .get ⟨2, true⟩, .timeout 0, .resume 0]).returned,
      r.Patient :=
  ⟨by decide, (timed_get_waits _ _ (by decide) (by decide)).1⟩

/-- The message that a timed call was woken for is taken by another consumer; and a timed call
wakes up by itself. Both return nothing, before their deadlines. -/
theorem timed_get_gives_up :
    (run World.step (World.init fun _ => NULL)
      [.get ⟨1, true⟩, .put 10 0, .get ⟨2, false⟩, .resume 0]).returned
      = [⟨⟨2, false⟩, 10, none⟩, ⟨⟨1, true⟩, NULL, some .signal⟩] ∧
    (run World.step (World.init fun _ => NULL)
      [.get ⟨1, true⟩, .spurious 0, .resume 0]).returned
      = [⟨⟨1, true⟩, NULL, some .spurious⟩] := by
  decide

end TestCore.MsgQueue
