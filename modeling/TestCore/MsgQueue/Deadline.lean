/-
The deadline of a timed wait (`get_msg_from_buffer_timeout`).

A call that finds its buffer empty reads the clock and adds the milliseconds it was given: the
seconds to the seconds, the rest as nanoseconds. The sum of the nanoseconds goes through
`timeout_ns`, a variable of the file. A call holds the mutex of its own buffer while it works, so
two calls on different buffers share the variable and nothing that keeps them apart. What one of
them has stored there, the other one may find when it reads twice: for the test whether a second is
full, and for the nanoseconds.

Here every assignment is one step, and so is the test, of any number of threads in any order. A
deadline is right exactly if both reads were as if the thread had been alone (`timed_deadlines`).
-/
import TestCore.Lib.Run

set_option autoImplicit false

namespace TestCore.MsgQueue

open TestCore.Lib

/-! ## Times -/

/-- `struct timespec`. -/
structure Timespec where
  tv_sec : ℕ
  tv_nsec : ℤ
  deriving DecidableEq, Repr

/-- What a time is to be like: the nanoseconds are less than a second. -/
def Timespec.Normal (t : Timespec) : Prop := 0 ≤ t.tv_nsec ∧ t.tv_nsec < 1000000000

instance (t : Timespec) : Decidable t.Normal :=
  inferInstanceAs (Decidable (0 ≤ t.tv_nsec ∧ t.tv_nsec < 1000000000))

/-- A time in nanoseconds. -/
def Timespec.nanos (t : Timespec) : ℤ := t.tv_sec * 1000000000 + t.tv_nsec

/-- What `clock_gettime` returns. -/
structure Reading extends Timespec where
  normal : toTimespec.Normal

/-! ## One call -/

/-- The place of a call: what it does next. -/
inductive Place where
  /-- `timeout.tv_sec = timeout.tv_sec + block/1000` -/
  | sec
  /-- `block %= 1000` -/
  | rest
  /-- `timeout_ns = timeout.tv_nsec + block*1000*1000` -/
  | sum
  /-- `if( timeout_ns >= 1000*1000*1000 )` -/
  | test
  /-- `timeout.tv_sec ++` -/
  | carry
  /-- `timeout.tv_nsec = timeout_ns - 1000*1000*1000` -/
  | above
  /-- `timeout.tv_nsec = timeout_ns` -/
  | below
  /-- `pthread_cond_timedwait` -/
  | wait
  deriving DecidableEq, Repr

/-- A call, from the return of `clock_gettime` on. -/
structure Call where
  start : Reading
  /-- The argument. -/
  ms : ℕ
  /-- The variable `block`, which starts as the argument. -/
  block : ℕ
  timeout : Timespec
  place : Place

def Call.enter (start : Reading) (ms : ℕ) : Call := ⟨start, ms, ms, start.toTimespec, .sec⟩

/-- The next step, on what the call has for itself. After its last step it is out of the way. -/
def Call.next (c : Call) (timeout_ns : ℕ) : Option Call :=
  match c.place with
  | .sec =>
      some { c with
        timeout := { c.timeout with tv_sec := c.timeout.tv_sec + c.block / 1000 }
        place := .rest }
  | .rest => some { c with block := c.block % 1000, place := .sum }
  | .sum => some { c with place := .test }
  | .test => some { c with place := if 1000000000 ≤ timeout_ns then .carry else .below }
  | .carry =>
      some { c with
        timeout := { c.timeout with tv_sec := c.timeout.tv_sec + 1 }
        place := .above }
  -- Below zero, the unsigned difference is that negative number again in a `long`.
  | .above =>
      some { c with
        timeout := { c.timeout with tv_nsec := timeout_ns - 1000000000 }
        place := .wait }
  | .below => some { c with timeout := { c.timeout with tv_nsec := timeout_ns }, place := .wait }
  | .wait => none

/-- What `timeout_ns` is after the step. -/
def Call.stored (c : Call) (timeout_ns : ℕ) : ℕ :=
  if c.place = .sum then (c.timeout.tv_nsec + c.block * 1000 * 1000).toNat else timeout_ns

/-- A timeout that was passed to `pthread_cond_timedwait`, and the call that it is from. -/
structure Passed where
  start : Reading
  ms : ℕ
  timeout : Timespec

def Call.passed (c : Call) : Passed := ⟨c.start, c.ms, c.timeout⟩

/-- The timeout is the start and the milliseconds after it. -/
def Passed.Right (p : Passed) : Prop :=
  p.timeout.Normal ∧ p.timeout.nanos = p.start.nanos + p.ms * 1000000

instance (p : Passed) : Decidable p.Right :=
  inferInstanceAs (Decidable (p.timeout.Normal ∧ p.timeout.nanos = p.start.nanos + p.ms * 1000000))

/-! ## Any number of threads -/

/-- The threads, each with the call it is in. Their buffers are different ones, so nobody waits for
a mutex. -/
structure Threads (n : ℕ) where
  timeout_ns : ℕ := 0
  call : Fin n → Option Call := fun _ => none
  passed : List Passed := []

inductive ThreadEvent (n : ℕ) where
  /-- A thread calls, finds its buffer empty, and reads the clock. -/
  | enter (i : Fin n) (start : Reading) (ms : ℕ)
  | step (i : Fin n)

def Threads.step {n : ℕ} (w : Threads n) : ThreadEvent n → Threads n
  | .enter i start ms =>
      if w.call i = none then { w with call := Function.update w.call i (some (Call.enter start ms)) }
      else w
  | .step i =>
      match w.call i with
      | none => w
      | some c =>
          { timeout_ns := c.stored w.timeout_ns
            call := Function.update w.call i (c.next w.timeout_ns)
            passed := if c.place = .wait then w.passed ++ [c.passed] else w.passed }

/-! ## What a call is to find -/

/-- The seconds of the deadline, before a full second is carried. -/
def Reading.seconds (start : Reading) (ms : ℕ) : ℕ := start.tv_sec + ms / 1000

/-- The sum of the nanoseconds. -/
def Reading.nanoseconds (start : Reading) (ms : ℕ) : ℤ := start.tv_nsec + (ms % 1000 : ℕ) * 1000000

/-- The test comes out as with the sum of this call, and the nanoseconds are taken from it. -/
def Call.ReadsOwn (c : Call) (timeout_ns : ℕ) : Prop :=
  match c.place with
  | .test => 1000000000 ≤ timeout_ns ↔ 1000000000 ≤ c.start.nanoseconds c.ms
  | .above => timeout_ns = c.start.nanoseconds c.ms
  | .below => timeout_ns = c.start.nanoseconds c.ms
  | _ => True

instance (c : Call) (timeout_ns : ℕ) : Decidable (c.ReadsOwn timeout_ns) := by
  unfold Call.ReadsOwn
  split <;> infer_instance

/-- A step that reads `timeout_ns` reads it as if the thread were alone. -/
def ReadsOwn {n : ℕ} (w : Threads n) : ThreadEvent n → Prop
  | .step i => ∀ c ∈ w.call i, c.ReadsOwn w.timeout_ns
  | .enter _ _ _ => True

instance {n : ℕ} (w : Threads n) (e : ThreadEvent n) : Decidable (ReadsOwn w e) :=
  match e with
  | .step i => inferInstanceAs (Decidable (∀ c ∈ w.call i, c.ReadsOwn w.timeout_ns))
  | .enter _ _ _ => isTrue trivial

/-! ## One step of a call -/

/-- What a call has for itself is as it computed it, whatever the others do. -/
def Call.Local (c : Call) : Prop :=
  match c.place with
  | .sec => c.block = c.ms ∧ c.timeout = c.start.toTimespec
  | .rest => c.block = c.ms ∧ c.timeout = ⟨c.start.seconds c.ms, c.start.tv_nsec⟩
  | .sum => c.block = c.ms % 1000 ∧ c.timeout = ⟨c.start.seconds c.ms, c.start.tv_nsec⟩
  | .test => c.timeout.tv_sec = c.start.seconds c.ms
  | .carry => c.timeout.tv_sec = c.start.seconds c.ms
  | .above => c.timeout.tv_sec = c.start.seconds c.ms + 1
  | .below => c.timeout.tv_sec = c.start.seconds c.ms
  | .wait => True

/-- The call is on the way to the right deadline. -/
def Call.OnTrack (c : Call) : Prop :=
  match c.place with
  | .carry => 1000000000 ≤ c.start.nanoseconds c.ms
  | .above => 1000000000 ≤ c.start.nanoseconds c.ms
  | .below => c.start.nanoseconds c.ms < 1000000000
  | .wait => c.passed.Right
  | _ => True

theorem Reading.nanoseconds_range (start : Reading) (ms : ℕ) :
    0 ≤ start.nanoseconds ms ∧ start.nanoseconds ms < 2000000000 := by
  obtain ⟨hlow, hhigh⟩ := start.normal
  have hmod := Nat.mod_lt ms (by norm_num : 0 < 1000)
  unfold Reading.nanoseconds
  omega

/-- The deadline is what the seconds and the sum make together. -/
theorem Passed.right_iff (start : Reading) (ms : ℕ) (timeout : Timespec) :
    (Passed.mk start ms timeout).Right ↔ timeout.Normal ∧
      timeout.nanos = start.seconds ms * 1000000000 + start.nanoseconds ms := by
  have hms := Nat.div_add_mod ms 1000
  have hsum : start.nanos + ms * 1000000 = start.seconds ms * 1000000000 + start.nanoseconds ms := by
    unfold Timespec.nanos Reading.seconds Reading.nanoseconds
    push_cast
    omega
  unfold Passed.Right
  rw [hsum]

theorem Call.local_enter (start : Reading) (ms : ℕ) : (Call.enter start ms).Local := ⟨rfl, rfl⟩

theorem Call.onTrack_enter (start : Reading) (ms : ℕ) : (Call.enter start ms).OnTrack := trivial

theorem Call.Local.next {c c' : Call} (h : c.Local) {timeout_ns : ℕ} (hc : c.next timeout_ns = some c') :
    c'.Local := by
  obtain ⟨start, ms, block, timeout, place⟩ := c
  cases place with
  | sec =>
      obtain ⟨hblock, htimeout⟩ := h
      cases hc
      dsimp only at hblock htimeout
      refine ⟨hblock, ?_⟩
      rw [hblock, htimeout]
      rfl
  | rest =>
      obtain ⟨hblock, htimeout⟩ := h
      cases hc
      dsimp only at hblock
      exact ⟨congrArg (· % 1000) hblock, htimeout⟩
  | sum =>
      cases hc
      exact congrArg Timespec.tv_sec h.2
  | test =>
      cases hc
      by_cases hfull : 1000000000 ≤ timeout_ns
      · rw [if_pos hfull]
        exact h
      · rw [if_neg hfull]
        exact h
  | carry =>
      cases hc
      exact congrArg (· + 1) h
  | above =>
      cases hc
      trivial
  | below =>
      cases hc
      trivial
  | wait => cases hc

/-- **A step leaves a call on its track exactly if it reads its own sum.** -/
theorem Call.onTrack_next {c c' : Call} (h : c.Local) {timeout_ns : ℕ}
    (hc : c.next timeout_ns = some c') : c'.OnTrack ↔ c.OnTrack ∧ c.ReadsOwn timeout_ns := by
  obtain ⟨start, ms, block, timeout, place⟩ := c
  obtain ⟨hlow, hhigh⟩ := start.nanoseconds_range ms
  cases place with
  | sec =>
      cases hc
      exact iff_of_true trivial ⟨trivial, trivial⟩
  | rest =>
      cases hc
      exact iff_of_true trivial ⟨trivial, trivial⟩
  | sum =>
      cases hc
      exact iff_of_true trivial ⟨trivial, trivial⟩
  | test =>
      cases hc
      by_cases hfull : 1000000000 ≤ timeout_ns
      · rw [if_pos hfull]
        show 1000000000 ≤ start.nanoseconds ms ↔
          True ∧ (1000000000 ≤ timeout_ns ↔ 1000000000 ≤ start.nanoseconds ms)
        tauto
      · rw [if_neg hfull]
        show start.nanoseconds ms < 1000000000 ↔
          True ∧ (1000000000 ≤ timeout_ns ↔ 1000000000 ≤ start.nanoseconds ms)
        rw [← not_le]
        tauto
  | carry =>
      cases hc
      exact (and_iff_left trivial).symm
  | above =>
      cases hc
      have hsec : timeout.tv_sec = start.seconds ms + 1 := h
      show (Passed.mk start ms ⟨timeout.tv_sec, timeout_ns - 1000000000⟩).Right ↔
        1000000000 ≤ start.nanoseconds ms ∧ timeout_ns = start.nanoseconds ms
      rw [Passed.right_iff, hsec]
      unfold Timespec.Normal Timespec.nanos
      push_cast
      omega
  | below =>
      cases hc
      have hsec : timeout.tv_sec = start.seconds ms := h
      show (Passed.mk start ms ⟨timeout.tv_sec, timeout_ns⟩).Right ↔
        start.nanoseconds ms < 1000000000 ∧ timeout_ns = start.nanoseconds ms
      rw [Passed.right_iff, hsec]
      unfold Timespec.Normal Timespec.nanos
      dsimp only
      omega
  | wait => cases hc

theorem Call.next_eq_none {c : Call} {timeout_ns : ℕ} : c.next timeout_ns = none ↔ c.place = .wait := by
  unfold Call.next
  cases c.place <;> simp

/-! ## One step of the threads -/

section Threads

variable {n : ℕ}

def AllLocal (w : Threads n) : Prop := ∀ i, ∀ c ∈ w.call i, c.Local

def AllOnTrack (w : Threads n) : Prop :=
  (∀ i, ∀ c ∈ w.call i, c.OnTrack) ∧ ∀ p ∈ w.passed, p.Right

/-- What the calls are like, and what that of one thread is like. -/
theorem forall_call_iff {P : Call → Prop} (w : Threads n) (i : Fin n) :
    (∀ j, ∀ c ∈ w.call j, P c) ↔
      (∀ c ∈ w.call i, P c) ∧ ∀ j, j ≠ i → ∀ c ∈ w.call j, P c := by
  have h := Function.forall_update_iff w.call (a := i) (b := w.call i) fun _ o => ∀ c ∈ o, P c
  rwa [Function.update_eq_self] at h

theorem forall_update_iff {P : Call → Prop} (w : Threads n) (i : Fin n) (o : Option Call) :
    (∀ j, ∀ c ∈ Function.update w.call i o j, P c) ↔
      (∀ c ∈ o, P c) ∧ ∀ j, j ≠ i → ∀ c ∈ w.call j, P c :=
  Function.forall_update_iff w.call fun _ o => ∀ c ∈ o, P c

theorem AllLocal.step {w : Threads n} (h : AllLocal w) (e : ThreadEvent n) : AllLocal (w.step e) := by
  cases e with
  | enter i start ms =>
      unfold Threads.step
      dsimp only
      split_ifs
      · refine (forall_update_iff w i _).mpr ⟨?_, ((forall_call_iff w i).mp h).2⟩
        rintro c ⟨⟩
        exact Call.local_enter start ms
      · exact h
  | step i =>
      unfold Threads.step
      dsimp only
      split
      · exact h
      · rename_i c hc
        refine (forall_update_iff w i _).mpr ⟨?_, ((forall_call_iff w i).mp h).2⟩
        intro c' hc'
        exact (h i c hc).next hc'

theorem allOnTrack_step {w : Threads n} (h : AllLocal w) (e : ThreadEvent n) :
    AllOnTrack (w.step e) ↔ AllOnTrack w ∧ ReadsOwn w e := by
  cases e with
  | enter i start ms =>
      unfold Threads.step ReadsOwn
      dsimp only
      rw [and_true]
      split_ifs with hidle
      · unfold AllOnTrack
        dsimp only
        have hnew := Call.onTrack_enter start ms
        rw [forall_update_iff, forall_call_iff w i, hidle]
        simp only [Option.mem_some_iff, forall_eq', Option.not_mem_none, false_imp_iff, implies_true]
        tauto
      · exact Iff.rfl
  | step i =>
      unfold Threads.step ReadsOwn
      dsimp only
      rcases hc : w.call i with _ | c
      · exact (and_iff_left fun c hc => absurd hc (Option.not_mem_none c)).symm
      · dsimp only
        unfold AllOnTrack
        dsimp only
        rw [forall_update_iff, forall_call_iff w i, hc]
        simp only [Option.mem_some_iff, forall_eq']
        by_cases hwait : c.place = .wait
        · have hright : c.OnTrack ↔ c.passed.Right := by
            unfold Call.OnTrack
            rw [hwait]
          have hreads : c.ReadsOwn w.timeout_ns := by
            unfold Call.ReadsOwn
            rw [hwait]
            trivial
          rw [Call.next_eq_none.mpr hwait, if_pos hwait, hright]
          simp only [Option.not_mem_none, false_imp_iff, implies_true, List.mem_append,
            List.mem_singleton, or_imp, forall_and, forall_eq]
          tauto
        · obtain ⟨c', hc'⟩ := Option.ne_none_iff_exists'.mp (mt Call.next_eq_none.mp hwait)
          have hone := Call.onTrack_next (h i c hc) hc'
          rw [hc', if_neg hwait]
          simp only [Option.mem_some_iff, forall_eq']
          rw [hone]
          tauto

end Threads

/-! ## Runs -/

theorem allLocal_init {n : ℕ} : AllLocal ({} : Threads n) := fun _ c hc =>
  absurd hc (Option.not_mem_none c)

theorem allOnTrack_init {n : ℕ} : AllOnTrack ({} : Threads n) :=
  ⟨fun _ c hc => absurd hc (Option.not_mem_none c), fun _ hp => absurd hp List.not_mem_nil⟩

/-- All is well with the calls and their timeouts exactly if every read was one's own. -/
theorem allOnTrack_run {n : ℕ} (es : List (ThreadEvent n)) :
    AllOnTrack (run Threads.step {} es) ↔ Along Threads.step ReadsOwn {} es := by
  rw [run_iff_along (I := AllLocal) (fun w e hw => hw.step e) (fun w e hw => allOnTrack_step hw e)
    allLocal_init]
  exact and_iff_right allOnTrack_init

/-- **Deadlines.** In a run in which every thread reads its own sum, each call waits until its start
and its milliseconds after it. A run that is over, and in which each call did so, is one of these.
And in no run does the product overflow, nor the sum. -/
theorem timed_deadlines {n : ℕ} (es : List (ThreadEvent n)) :
    (Along Threads.step ReadsOwn {} es → ∀ p ∈ (run Threads.step {} es).passed, p.Right) ∧
    ((∀ i, (run Threads.step {} es).call i = none) →
      (∀ p ∈ (run Threads.step {} es).passed, p.Right) → Along Threads.step ReadsOwn {} es) ∧
    ∀ i, ∀ c ∈ (run Threads.step {} es).call i, c.place = .sum →
      c.block * 1000 * 1000 < 2 ^ 31 ∧
        0 ≤ c.timeout.tv_nsec ∧ c.timeout.tv_nsec + c.block * 1000 * 1000 < 2 ^ 31 := by
  refine ⟨?_, ?_, ?_⟩
  · intro howns
    exact ((allOnTrack_run es).mpr howns).2
  · intro hidle hright
    refine (allOnTrack_run es).mp ⟨?_, hright⟩
    intro i c hc
    rw [hidle i] at hc
    exact absurd hc (Option.not_mem_none c)
  · intro i c hc hsum
    have hlocal : c.Local :=
      run_invariant (I := AllLocal) (fun w e hw => hw.step e) allLocal_init es i c hc
    unfold Call.Local at hlocal
    rw [hsum] at hlocal
    obtain ⟨hblock, htimeout⟩ := hlocal
    obtain ⟨hlow, hhigh⟩ := c.start.normal
    have hmod := Nat.mod_lt c.ms (by norm_num : 0 < 1000)
    rw [htimeout, hblock]
    dsimp only
    omega

/-- A reading of 10 s and some milliseconds. -/
def tenSeconds (ms : Fin 1000) : Reading where
  tv_sec := 10
  tv_nsec := ms.val * 1000000
  normal := by
    have h := ms.isLt
    constructor
    · positivity
    · show (ms.val : ℤ) * 1000000 < 1000000000
      omega

/-- The steps of one call. -/
def wholeCall (i : Fin 2) (start : Reading) (ms : ℕ) : List (ThreadEvent 2) :=
  .enter i start ms :: List.replicate 7 (.step i)

/-- One thread after the other. -/
def inTurn : List (ThreadEvent 2) :=
  wholeCall 0 (tenSeconds ⟨500, by decide⟩) 600 ++ wholeCall 1 (tenSeconds ⟨0, by decide⟩) 100

/-- They wait until 11.1 s and until 10.1 s. -/
theorem timed_deadlines_in_turn :
    Along Threads.step ReadsOwn {} inTurn ∧
      (run Threads.step {} inTurn).passed.map Passed.timeout = [⟨11, 100000000⟩, ⟨10, 100000000⟩] ∧
        ∀ p ∈ (run Threads.step {} inTurn).passed, p.Right := by
  have howns : Along Threads.step ReadsOwn {} inTurn := by decide
  exact ⟨howns, by decide, (timed_deadlines inTurn).1 howns⟩

/-- The second thread stores its sum before the first one reads. The first one is to wait until
11.1 s, and waits until 10.1 s: it started at 10.5 s. -/
theorem deadline_of_another_thread :
    ¬ ∀ (n : ℕ) (es : List (ThreadEvent n)), ∀ p ∈ (run Threads.step {} es).passed, p.Right := by
  intro hall
  have hright := hall 2
    [.enter 0 (tenSeconds 500) 600, .step 0, .step 0, .step 0,
      .enter 1 (tenSeconds 0) 100, .step 1, .step 1, .step 1,
      .step 0, .step 0, .step 0]
  exact absurd hright (by decide)

end TestCore.MsgQueue
