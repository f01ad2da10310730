/-
The lock on the login: how many wrong attempts it lets through, and how long it lasts.

`g_login_fail_count` is written from four places. A wrong attempt counts up, and only
below the limit; a successful login, a `Login_fail_time_count` thread that ends and the
recover timer when it runs out set it to zero. Between two resets the count is
therefore the number of wrong attempts, which bounds them by the limit. Attempts with
the right credentials are also compared and not counted: while somebody else holds the
session, any number of unforced ones is answered with `WEBS_LOGIN_OTHER`.

The duration is a matter of deadlines. Every thread and the recover timer has an
earliest moment at which it can set the count to zero, computed from where it is now
(`FailThread.due`, `recoverDue`), and no step moves such a moment forward in time. A
lock lasts until the first of them. The ones started by the lock itself leave it the
full time. One that is left over from an earlier lock may not, since neither mechanism
is ever cancelled; and there are left-overs only when both mechanisms are in use.
-/
import TestCore.Webs.System

set_option autoImplicit false

namespace TestCore.Webs

open TestCore.Lib

/-! ## The count -/

/-- The event is an attempt whose credentials were compared and found wrong. -/
def comparedWrong (pl : Platform) (st : Server) (e : Event) : Bool :=
  loginRet pl st e == some .failed

theorem failThreadStep_count (pl : Platform) (st : Server) (n : ℕ) :
    (failThreadStep pl st n).g_login_fail_count
      = if threadEnds pl st n then 0 else st.g_login_fail_count := by
  unfold failThreadStep threadEnds
  rcases st.fail_threads[n]? with _ | th
  · rfl
  · dsimp only
    split
    · next c th' hrun => simp [hrun]
    · next c hrun => simp [hrun]

theorem recover_count (pl : Platform) (st : Server) :
    (jrd_oem_webui_check_time pl st).g_login_fail_count
      = if recoverRunsOut st then 0 else st.g_login_fail_count := by
  unfold jrd_oem_webui_check_time recoverRunsOut
  rcases st.timer_check_login_time with _ | next
  · rfl
  · dsimp only
    by_cases hdue : st.now < next
    · have hnot : ¬ next ≤ st.now := by omega
      simp [hdue, hnot]
    · have hle : next ≤ st.now := by omega
      by_cases hout : st.g_webs_data.webs_recover_time < st.login_state_val + 1
      · simp [hdue, hle, hout]
      · simp [hdue, hle, hout]

theorem loginFailed_count (st : Server) :
    (loginFailed st).g_login_fail_count = st.g_login_fail_count + 1 := by
  unfold loginFailed
  dsimp only
  split_ifs <;> rfl

theorem startRecoverTimer_count (pl : Platform) (st : Server) :
    (startRecoverTimer pl st).g_login_fail_count = st.g_login_fail_count := by
  unfold startRecoverTimer
  split_ifs <;> rfl

/-- **The four writers of the count.** -/
theorem count_step (pl : Platform) (st : Server) (e : Event) :
    (step pl st e).g_login_fail_count =
      if comparedWrong pl st e then st.g_login_fail_count + 1
      else if loginRet pl st e = some .sucess ∨ unlocks pl st e = true then 0
      else st.g_login_fail_count := by
  have hview : ∀ s : Server, lockView (step pl st e) = lockView s →
      (step pl st e).g_login_fail_count = s.g_login_fail_count :=
    fun s h => of_lockView Server.g_login_fail_count (fun _ => rfl) h
  unfold comparedWrong
  cases lock_effect pl st e with
  | idle hret hun h =>
      have hno : (loginRet pl st e == some .failed) = false := by simpa using hret.1
      rw [hview _ h, hno, hun, if_neg (by decide), if_neg]
      rintro (hs | hs)
      · exact hret.2 hs
      · cases hs
  | failed hopen hret h =>
      rw [hview _ h, loginFailed_count, hret]
      rfl
  | sucess hopen hret h =>
      rw [hview _ h, hret]
      rfl
  | query hret hun h =>
      rw [hview _ h, startRecoverTimer_count, hret, hun]
      rfl
  | thread n he h =>
      subst he
      rw [hview _ h, failThreadStep_count]
      simp [loginRet, unlocks]
  | recover he h =>
      subst he
      rw [hview _ h, recover_count]
      simp [loginRet, unlocks]
  | wait d he h =>
      subst he
      rw [hview _ h]
      rfl

/-- A wrong attempt is compared on an unlocked interface, and takes the branch that
counts it. -/
theorem comparedWrong_step {pl : Platform} {st : Server} {e : Event}
    (h : comparedWrong pl st e = true) :
    loginLocked st = false ∧ lockView (step pl st e) = lockView (loginFailed st) := by
  have hret : loginRet pl st e = some .failed := by simpa [comparedWrong] using h
  cases lock_effect pl st e with
  | idle hno _ _ => exact absurd hret hno.1
  | failed hopen _ hv => exact ⟨hopen, hv⟩
  | sucess _ hno _ => rw [hno] at hret; cases hret
  | query hno _ _ => rw [hno] at hret; cases hret
  | thread n he _ => subst he; cases hret
  | recover he _ => subst he; cases hret
  | wait d he _ => subst he; cases hret

/-- Credentials are compared only below the limit. -/
theorem comparedWrong_lt {pl : Platform} {st : Server} {e : Event}
    (hlock : st.g_webs_data.lock_web_ui ≠ 0) (h : comparedWrong pl st e = true) :
    st.g_login_fail_count < st.g_webs_data.max_retry_times := by
  have hopen := (comparedWrong_step h).1
  unfold loginLocked at hopen
  simp only [Bool.and_eq_false_iff, bne_eq_false_iff_eq, decide_eq_false_iff_not] at hopen
  omega

/-- The count is in range, and the limit is one that can be reached. -/
structure CountInRange (st : Server) : Prop where
  lock : st.g_webs_data.lock_web_ui ≠ 0
  pos : 1 ≤ st.g_webs_data.max_retry_times
  nonneg : 0 ≤ st.g_login_fail_count
  le : st.g_login_fail_count ≤ st.g_webs_data.max_retry_times

theorem CountInRange.step {pl : Platform} {st : Server} (h : CountInRange st) (e : Event) :
    CountInRange (step pl st e) := by
  obtain ⟨hlock, hpos, hnonneg, hle⟩ := h
  have hcount := count_step pl st e
  refine ⟨?_, ?_, ?_, ?_⟩
  · rw [step_g_webs_data]
    exact hlock
  · rw [step_g_webs_data]
    exact hpos
  · rw [hcount]
    split_ifs <;> omega
  · rw [hcount, step_g_webs_data]
    split_ifs with hwrong hreset
    · have hlt := comparedWrong_lt hlock hwrong
      omega
    · omega
    · omega

/-- A step that neither logs somebody in nor is an unlock event. -/
def Quiet (pl : Platform) (st : Server) (e : Event) : Prop :=
  loginRet pl st e ≠ some .sucess ∧ unlocks pl st e = false

instance (pl : Platform) (st : Server) (e : Event) : Decidable (Quiet pl st e) :=
  inferInstanceAs (Decidable (_ ∧ _))

/-- Over a stretch of quiet steps the count grows by the wrong attempts. -/
theorem count_quiet (pl : Platform) (st : Server) {es : List Event}
    (hquiet : Along (step pl) (Quiet pl) st es) :
    (run (step pl) st es).g_login_fail_count
      = st.g_login_fail_count + countSteps (step pl) (comparedWrong pl) st es := by
  -- A quiet step has only one way to change the count.
  refine measure_run (step pl) (f := Server.g_login_fail_count) ?_ hquiet
  intro s e hq
  rw [count_step]
  by_cases hwrong : comparedWrong pl s e = true
  · rw [if_pos hwrong, if_pos hwrong]
  · have hreset : ¬ (loginRet pl s e = some .sucess ∨ unlocks pl s e = true) := by
      rintro (h | h)
      · exact hq.1 h
      · rw [hq.2] at h
        cases h
    rw [if_neg hwrong, if_neg hreset, if_neg hwrong, add_zero]

/-- At the limit every attempt is turned away, and nothing changes. -/
theorem webs_set_login_limit {st : Server} (hlock : st.g_webs_data.lock_web_ui ≠ 0)
    (hfull : st.g_webs_data.max_retry_times ≤ st.g_login_fail_count) (l : Layout) (wp : WebsRec)
    (params : LoginParams) (blForce : Bool) :
    webs_set_login l st wp params blForce = (st, .limit) := by
  unfold webs_set_login loginLocked
  rw [if_pos (by simp [hlock, hfull])]

/-- **The brute-force bound.** Whatever happens, the count stays between zero and the
limit. In a stretch of the run without a successful login and without an unlock event,
no more wrong attempts than the limit are compared with the stored credentials, and
once that many were, every further attempt is turned away and changes nothing. -/
theorem login_fail_count_bounds_wrong_attempts (pl : Platform) (st : Server)
    (hlock : st.g_webs_data.lock_web_ui ≠ 0) (hpos : 1 ≤ st.g_webs_data.max_retry_times)
    (hzero : st.g_login_fail_count = 0) (pre mid : List Event) :
    (0 ≤ (run (step pl) st pre).g_login_fail_count ∧
      (run (step pl) st pre).g_login_fail_count ≤ st.g_webs_data.max_retry_times) ∧
    (Along (step pl) (Quiet pl) (run (step pl) st pre) mid →
      (countSteps (step pl) (comparedWrong pl) (run (step pl) st pre) mid : ℤ)
          ≤ st.g_webs_data.max_retry_times ∧
      ((countSteps (step pl) (comparedWrong pl) (run (step pl) st pre) mid : ℤ)
          = st.g_webs_data.max_retry_times →
        ∀ l wp params blForce,
          webs_set_login l (run (step pl) st (pre ++ mid)) wp params blForce
            = (run (step pl) st (pre ++ mid), .limit))) := by
  have hstart : CountInRange st := ⟨hlock, hpos, by omega, by omega⟩
  have hrange : ∀ es, CountInRange (run (step pl) st es) :=
    run_invariant (fun s e h => h.step e) hstart
  have hpre := hrange pre
  have hall := hrange (pre ++ mid)
  have hdata := run_g_webs_data pl st
  refine ⟨⟨hpre.nonneg, hdata pre ▸ hpre.le⟩, fun hquiet => ?_⟩
  -- The count at the start of the stretch is not negative, and at its end not above the
  -- limit; the wrong attempts are what lies in between.
  have hgrow := count_quiet pl _ hquiet
  rw [← run_append] at hgrow
  have hle : (run (step pl) st (pre ++ mid)).g_login_fail_count ≤ st.g_webs_data.max_retry_times :=
    hdata (pre ++ mid) ▸ hall.le
  have hnonneg := hpre.nonneg
  refine ⟨by omega, fun hfull l wp params blForce => ?_⟩
  apply webs_set_login_limit hall.lock
  rw [hdata]
  omega

/-- A server that has just started, with `admin` and `secret` as credentials. -/
def lockServer (max_retry_times unlock_time webs_recover_time : Int) : Server :=
  Server.init
    { username := bytes "admin", password := bytes "secret", max_retry_times := max_retry_times,
      unlock_time := unlock_time, webs_recover_time := webs_recover_time }

/-- An attempt by the peer at `ip`. -/
def attempt (ip password : String) (blForce : Bool) : Event :=
  .login (.webs_set_login ⟨[], []⟩ (LoginParams.store (bytes "admin") (bytes password)) blForce)
    { ipaddr := bytes ip }

/-- A platform for the runs below; no request of them has a body. -/
def lockPlatform : Platform := loginPlatform (fun _ => none) ⟨[], []⟩

/-- Two wrong guesses use up a limit of two. -/
theorem login_fail_count_bounds_two_guesses :
    countSteps (step lockPlatform) (comparedWrong lockPlatform) (lockServer 2 60 0)
      [attempt "192.168.1.100" "12345" true, attempt "192.168.1.101" "admin" true,
        attempt "192.168.1.100" "secret" true] = 2 ∧
    ∀ l wp params blForce,
      (webs_set_login l (run (step lockPlatform) (lockServer 2 60 0)
        [attempt "192.168.1.100" "12345" true, attempt "192.168.1.101" "admin" true,
          attempt "192.168.1.100" "secret" true]) wp params blForce).2 = .limit := by
  have hcount : countSteps (step lockPlatform) (comparedWrong lockPlatform) (lockServer 2 60 0)
      [attempt "192.168.1.100" "12345" true, attempt "192.168.1.101" "admin" true,
        attempt "192.168.1.100" "secret" true] = 2 := by decide
  refine ⟨hcount, fun l wp params blForce => ?_⟩
  have hbound := (login_fail_count_bounds_wrong_attempts lockPlatform (lockServer 2 60 0)
    (by decide) (by decide) rfl []
    [attempt "192.168.1.100" "12345" true, attempt "192.168.1.101" "admin" true,
      attempt "192.168.1.100" "secret" true]).2 (by decide)
  exact congrArg Prod.snd (hbound.2 (congrArg Nat.cast hcount) l wp params blForce)

/-- The event is an attempt whose credentials were compared at all. -/
def compared (pl : Platform) (st : Server) (e : Event) : Bool :=
  match loginRet pl st e with
  | none => false
  | some ret => ret != .limit

/-- With a limit of one, two attempts are compared while somebody else is logged in:
both have the right credentials and are answered with `WEBS_LOGIN_OTHER`, which neither
counts nor logs in. -/
theorem compared_attempts_exceed_limit :
    ¬ ∀ (pl : Platform) (st : Server), st.g_webs_data.lock_web_ui ≠ 0 →
      1 ≤ st.g_webs_data.max_retry_times → st.g_login_fail_count = 0 →
      ∀ pre mid, Along (step pl) (Quiet pl) (run (step pl) st pre) mid →
        (countSteps (step pl) (compared pl) (run (step pl) st pre) mid : ℤ)
          ≤ st.g_webs_data.max_retry_times := by
  intro hall
  have h := hall lockPlatform (lockServer 1 60 0) (by decide) (by decide) rfl
    [attempt "192.168.1.100" "secret" true]
    [attempt "192.168.1.101" "secret" false, attempt "192.168.1.101" "secret" false]
    (by decide)
  have hcount : countSteps (step lockPlatform) (compared lockPlatform)
      (run (step lockPlatform) (lockServer 1 60 0) [attempt "192.168.1.100" "secret" true])
      [attempt "192.168.1.101" "secret" false, attempt "192.168.1.101" "secret" false] = 2 := by
    decide
  rw [hcount] at h
  exact absurd h (by decide)

/-! ## How long a lock lasts -/

/-- The seconds a lock is to last at least. -/
def lockSeconds (g : WebsData) : Int :=
  if g.webs_recover_time = 0 then g.unlock_time else min g.unlock_time (g.webs_recover_time + 1)

/-- The earliest moment at which the thread can end. -/
def FailThread.due (pl : Platform) (st : Server) : FailThread → Int
  | .created => st.now + st.g_webs_data.unlock_time * pl.second
  | .sleeping i wake => wake + (st.g_webs_data.unlock_time - 1 - i) * pl.second

/-- The earliest moment at which the recover timer can run out, when it goes off next at
`next`. -/
def recoverDue (pl : Platform) (st : Server) (next : ℕ) : Int :=
  next + (st.g_webs_data.webs_recover_time - st.login_state_val) * pl.second

/-- No thread and no timer that is running now can set the count to zero before `T`. -/
def NoneDueBefore (pl : Platform) (T : Int) (st : Server) : Prop :=
  (∀ th ∈ st.fail_threads, T ≤ th.due pl st) ∧
    ∀ next ∈ st.timer_check_login_time, T ≤ recoverDue pl st next

instance (pl : Platform) (T : Int) (st : Server) : Decidable (NoneDueBefore pl T st) :=
  inferInstanceAs (Decidable (_ ∧ _))

/-- Running does not bring the end of a thread forward. -/
theorem failThreadRun_due {pl : Platform} {st : Server} {th th' : FailThread} {c : Int}
    (h : failThreadRun pl st th = (c, some th')) : th.due pl st ≤ th'.due pl st := by
  cases th with
  | created =>
      simp only [failThreadRun, nextRound, Prod.mk.injEq] at h
      obtain ⟨-, hnext⟩ := h
      split_ifs at hnext with hmore
      rw [← Option.some.inj hnext]
      unfold FailThread.due
      push_cast
      linarith
  | sleeping i wake =>
      simp only [failThreadRun, nextRound] at h
      split_ifs at h with hearly hmore
      · simp only [Prod.mk.injEq, Option.some.injEq] at h
        rw [h.2]
      · simp only [Prod.mk.injEq, Option.some.injEq] at h
        rw [← h.2]
        -- Each round sleeps for a second, however late it begins.
        have hwake : (wake : ℤ) ≤ st.now := by omega
        unfold FailThread.due
        push_cast
        linarith
      · simp at h

/-- A thread does not end before it is due. -/
theorem failThreadRun_end {pl : Platform} {st : Server} {th : FailThread} {c : Int}
    (h : failThreadRun pl st th = (c, none)) : th.due pl st ≤ st.now := by
  have hsecond : (0 : ℤ) ≤ pl.second := Int.natCast_nonneg _
  cases th with
  | created =>
      simp only [failThreadRun, nextRound, Prod.mk.injEq] at h
      obtain ⟨-, hnext⟩ := h
      split_ifs at hnext with hmore
      have hU : st.g_webs_data.unlock_time ≤ 0 := by omega
      have hneg := mul_nonpos_of_nonpos_of_nonneg hU hsecond
      unfold FailThread.due
      linarith
  | sleeping i wake =>
      simp only [failThreadRun, nextRound] at h
      split_ifs at h with hearly hmore
      · simp at h
      · simp at h
      · have hU : st.g_webs_data.unlock_time - 1 - i ≤ 0 := by omega
        have hneg := mul_nonpos_of_nonpos_of_nonneg hU hsecond
        have hwake : (wake : ℤ) ≤ st.now := by omega
        unfold FailThread.due
        linarith

/-- The ways a thread can run. -/
theorem failThreadStep_cases (pl : Platform) (st : Server) (n : ℕ) :
    failThreadStep pl st n = st ∨
    ∃ th c, st.fail_threads[n]? = some th ∧
      ((∃ th', failThreadRun pl st th = (c, some th') ∧
        failThreadStep pl st n = { st with
          g_login_fail_time_count := c
          fail_threads := st.fail_threads.set n th' }) ∨
      (failThreadRun pl st th = (c, none) ∧
        failThreadStep pl st n = { st with
          g_login_fail_time_count := c
          fail_threads := st.fail_threads.eraseIdx n
          g_login_fail_count := 0 })) := by
  unfold failThreadStep
  rcases hth : st.fail_threads[n]? with _ | th
  · exact Or.inl rfl
  · right
    dsimp only
    split
    · next c th' hrun => exact ⟨th, c, rfl, Or.inl ⟨th', hrun, rfl⟩⟩
    · next c hrun => exact ⟨th, c, rfl, Or.inr ⟨hrun, rfl⟩⟩

/-- The recover timer is marked as started while it runs, and otherwise its ticks are
back at zero. -/
def RecoverSane (st : Server) : Prop :=
  (st.login_timer_start = false → st.timer_check_login_time = none) ∧
    (st.timer_check_login_time = none → st.login_state_val = 0)

/-- The interface is locked until `T`: that moment has passed, or the count is used up,
nothing that is running ends it before `T`, and neither would a recover timer that a
query started now. -/
def LockedUntil (pl : Platform) (T : Int) (st : Server) : Prop :=
  T ≤ st.now ∨
    (st.g_webs_data.max_retry_times ≤ st.g_login_fail_count ∧ NoneDueBefore pl T st ∧
      (st.g_webs_data.webs_recover_time ≠ 0 →
        T ≤ st.now + (st.g_webs_data.webs_recover_time + 1) * pl.second))

theorem lockedUntil_failThreadStep {pl : Platform} {T : Int} {st : Server}
    (h : LockedUntil pl T st) (n : ℕ) : LockedUntil pl T (failThreadStep pl st n) := by
  rcases failThreadStep_cases pl st n with heq | ⟨th, c, hth, ⟨th', hrun, heq⟩ | ⟨hrun, heq⟩⟩
  · rw [heq]
    exact h
  · rw [heq]
    rcases h with hpast | ⟨hfull, ⟨hthreads, htimer⟩, hquery⟩
    · exact Or.inl hpast
    · refine Or.inr ⟨hfull, ⟨?_, htimer⟩, hquery⟩
      intro x hx
      rcases List.mem_or_eq_of_mem_set hx with hold | hnew
      · exact hthreads x hold
      · -- The thread that ran is due no sooner than before.
        rw [hnew]
        exact (hthreads th (List.mem_of_getElem? hth)).trans (failThreadRun_due hrun)
  · rw [heq]
    rcases h with hpast | ⟨hfull, ⟨hthreads, htimer⟩, hquery⟩
    · exact Or.inl hpast
    · -- A thread that ends was due, so the lock has had its time.
      exact Or.inl ((hthreads th (List.mem_of_getElem? hth)).trans (failThreadRun_end hrun))

theorem lockedUntil_recover {pl : Platform} {T : Int} {st : Server} (h : LockedUntil pl T st) :
    LockedUntil pl T (jrd_oem_webui_check_time pl st) := by
  have hsecond : (0 : ℤ) ≤ pl.second := Int.natCast_nonneg _
  unfold jrd_oem_webui_check_time
  rcases hnext : st.timer_check_login_time with _ | next
  · exact h
  · dsimp only
    rcases h with hpast | ⟨hfull, ⟨hthreads, htimer⟩, hquery⟩
    · split_ifs <;> exact Or.inl hpast
    · have hdue := htimer next hnext
      unfold recoverDue at hdue
      split_ifs with hearly hout
      · exact Or.inr ⟨hfull, ⟨hthreads, htimer⟩, hquery⟩
      · -- The timer runs out, so its deadline has passed.
        left
        have hneg : st.g_webs_data.webs_recover_time - st.login_state_val ≤ 0 := by omega
        have hzero := mul_nonpos_of_nonpos_of_nonneg hneg hsecond
        have hle : (next : ℤ) ≤ st.now := by omega
        show T ≤ (st.now : ℤ)
        linarith
      · refine Or.inr ⟨hfull, ⟨hthreads, ?_⟩, hquery⟩
        intro next' hnext'
        rw [Option.mem_def, Option.some.injEq] at hnext'
        rw [← hnext']
        unfold recoverDue
        push_cast
        linarith

theorem lockedUntil_startRecoverTimer {pl : Platform} {T : Int} {st : Server}
    (hsane : RecoverSane st) (h : LockedUntil pl T st) :
    LockedUntil pl T (startRecoverTimer pl st) := by
  unfold startRecoverTimer
  split_ifs with hstart
  · rcases h with hpast | ⟨hfull, ⟨hthreads, htimer⟩, hquery⟩
    · exact Or.inl hpast
    · refine Or.inr ⟨hfull, ⟨hthreads, ?_⟩, hquery⟩
      intro next hnext
      rw [Option.mem_def, Option.some.injEq] at hnext
      have hval : st.login_state_val = 0 := hsane.2 (hsane.1 hstart.2.2)
      have hT := hquery hstart.2.1
      rw [← hnext]
      unfold recoverDue
      dsimp only
      rw [hval]
      push_cast
      linarith
  · exact h

theorem lockedUntil_wait {pl : Platform} {T : Int} {st : Server} (h : LockedUntil pl T st)
    (d : ℕ) : LockedUntil pl T { st with now := st.now + d } := by
  rcases h with hpast | ⟨hfull, ⟨hthreads, htimer⟩, hquery⟩
  · left
    push_cast
    omega
  · refine Or.inr ⟨hfull, ⟨?_, htimer⟩, ?_⟩
    · intro th hth
      have hdue := hthreads th hth
      cases th with
      | created =>
          unfold FailThread.due at hdue ⊢
          push_cast
          linarith
      | sleeping i wake => exact hdue
    · intro hR
      have hT := hquery hR
      push_cast
      linarith

/-- **A lock holds.** Whatever happens until then, it is not undone before `T`. -/
theorem lockedUntil_step {pl : Platform} {T : Int} {st : Server}
    (hlock : st.g_webs_data.lock_web_ui ≠ 0) (hsane : RecoverSane st) (h : LockedUntil pl T st)
    (e : Event) : LockedUntil pl T (step pl st e) := by
  -- An attempt is compared only when the interface is not locked.
  have hpast : loginLocked st = false → T ≤ st.now := by
    intro hopen
    rcases h with hpast | ⟨hfull, -⟩
    · exact hpast
    · simp [loginLocked, hlock, hfull] at hopen
  apply lock_rule (fun _ => rfl) pl st h
  · intro hopen
    left
    have hnow : (loginFailed st).now = st.now := by
      unfold loginFailed
      dsimp only
      split_ifs <;> rfl
    rw [hnow]
    exact hpast hopen
  · intro hopen
    exact Or.inl (hpast hopen)
  · exact lockedUntil_startRecoverTimer hsane h
  · intro n
    exact lockedUntil_failThreadStep h n
  · exact lockedUntil_recover h
  · intro d
    exact lockedUntil_wait h d

theorem recoverSane_step {pl : Platform} {st : Server} (h : RecoverSane st) (e : Event) :
    RecoverSane (step pl st e) := by
  apply lock_rule (fun _ => rfl) pl st h
  · intro _
    unfold loginFailed
    dsimp only
    split_ifs <;> exact h
  · intro _
    exact h
  · unfold startRecoverTimer
    split_ifs
    · refine ⟨fun hstart => ?_, fun hnone => ?_⟩
      · cases hstart
      · cases hnone
    · exact h
  · intro n
    rcases failThreadStep_cases pl st n with heq | ⟨th, c, -, ⟨th', -, heq⟩ | ⟨-, heq⟩⟩
    · rw [heq]
      exact h
    · rw [heq]
      exact h
    · rw [heq]
      exact h
  · unfold jrd_oem_webui_check_time
    rcases hnext : st.timer_check_login_time with _ | next
    · exact h
    · dsimp only
      split_ifs
      · exact h
      · exact ⟨fun _ => rfl, fun _ => rfl⟩
      · -- The timer goes on, so it is still marked as started.
        refine ⟨fun hstart => ?_, fun hnone => ?_⟩
        · have hnone := h.1 hstart
          rw [hnext] at hnone
          cases hnone
        · cases hnone
  · intro d
    exact h

/-- The count reaches the limit in this step. -/
def locks (pl : Platform) (st : Server) (e : Event) : Prop :=
  st.g_login_fail_count < st.g_webs_data.max_retry_times ∧
    (step pl st e).g_login_fail_count = st.g_webs_data.max_retry_times

instance (pl : Platform) (st : Server) (e : Event) : Decidable (locks pl st e) :=
  inferInstanceAs (Decidable (_ ∧ _))

/-- The moment until which a lock that begins now is to last. -/
def lockEnd (pl : Platform) (st : Server) : Int :=
  st.now + lockSeconds st.g_webs_data * pl.second

/-- The step that locks is a wrong attempt. -/
theorem locks_comparedWrong {pl : Platform} {st : Server} {e : Event}
    (hnonneg : 0 ≤ st.g_login_fail_count) (h : locks pl st e) : comparedWrong pl st e = true := by
  obtain ⟨hbelow, hfull⟩ := h
  rw [count_step] at hfull
  split_ifs at hfull with hwrong hreset
  · exact hwrong
  · omega
  · omega

/-- A lock that begins while nothing is due before its end lasts until then. -/
theorem lockedUntil_of_locks {pl : Platform} {st : Server} {e : Event}
    (hnonneg : 0 ≤ st.g_login_fail_count) (h : locks pl st e)
    (hdue : NoneDueBefore pl (lockEnd pl st) st) :
    LockedUntil pl (lockEnd pl st) (step pl st e) := by
  have hsecond : (0 : ℤ) ≤ pl.second := Int.natCast_nonneg _
  have hview := (comparedWrong_step (locks_comparedWrong hnonneg h)).2
  have hcount : st.g_webs_data.max_retry_times = st.g_login_fail_count + 1 := by
    rw [← h.2, of_lockView Server.g_login_fail_count (fun _ => rfl) hview, loginFailed_count]
  -- Both mechanisms give a lock that begins now its full time.
  have hU : lockSeconds st.g_webs_data ≤ st.g_webs_data.unlock_time := by
    unfold lockSeconds
    split_ifs
    · exact le_refl _
    · exact min_le_left _ _
  have hR : st.g_webs_data.webs_recover_time ≠ 0 →
      lockSeconds st.g_webs_data ≤ st.g_webs_data.webs_recover_time + 1 := by
    intro hR
    unfold lockSeconds
    rw [if_neg hR]
    exact min_le_right _ _
  have hquery : st.g_webs_data.webs_recover_time ≠ 0 →
      lockEnd pl st ≤ st.now + (st.g_webs_data.webs_recover_time + 1) * pl.second := by
    intro hne
    have hmul := mul_le_mul_of_nonneg_right (hR hne) hsecond
    unfold lockEnd
    linarith
  refine (of_lockView (LockedUntil pl (lockEnd pl st)) (fun _ => rfl) hview).mpr (Or.inr ?_)
  unfold loginFailed
  dsimp only
  split_ifs with hthread
  · refine ⟨by dsimp only; omega, ⟨?_, hdue.2⟩, hquery⟩
    intro th hth
    rcases List.mem_append.mp hth with hold | hnew
    · exact hdue.1 th hold
    · -- The thread of this lock runs for the full unlock time.
      have hmul := mul_le_mul_of_nonneg_right hU hsecond
      rw [List.mem_singleton.mp hnew]
      unfold FailThread.due lockEnd
      dsimp only
      linarith
  · exact ⟨by dsimp only; omega, hdue, hquery⟩

/-- What holds in every state of a server with the lock on. -/
structure LockInv (st : Server) : Prop where
  lock : st.g_webs_data.lock_web_ui ≠ 0
  nonneg : 0 ≤ st.g_login_fail_count
  recover : RecoverSane st

theorem LockInv.step {pl : Platform} {st : Server} (h : LockInv st) (e : Event) :
    LockInv (step pl st e) := by
  refine ⟨?_, ?_, recoverSane_step h.recover e⟩
  · rw [step_g_webs_data]
    exact h.lock
  · have hnonneg := h.nonneg
    rw [count_step]
    split_ifs <;> omega

theorem LockInv.init {g : WebsData} (hlock : g.lock_web_ui ≠ 0) : LockInv (Server.init g) :=
  ⟨hlock, le_refl _, ⟨fun _ => rfl, fun _ => rfl⟩⟩

/-- A lock that begins while nothing is due before its end holds in every state reached
before that moment. -/
theorem lock_run {pl : Platform} {st : Server} (hinv : LockInv st) {e : Event}
    (h : locks pl st e) (hdue : NoneDueBefore pl (lockEnd pl st) st) (mid : List Event)
    (hnow : (run (step pl) st (e :: mid)).now < lockEnd pl st) :
    loginLocked (run (step pl) st (e :: mid)) = true := by
  have hstart := lockedUntil_of_locks hinv.nonneg h hdue
  rw [run_cons] at hnow ⊢
  have hend : LockInv (run (step pl) (step pl st e) mid) ∧
      LockedUntil pl (lockEnd pl st) (run (step pl) (step pl st e) mid) := by
    apply run_invariant (I := fun s => LockInv s ∧ LockedUntil pl (lockEnd pl st) s)
    · intro s e' hs
      exact ⟨hs.1.step e', lockedUntil_step hs.1.lock hs.1.recover hs.2 e'⟩
    · exact ⟨hinv.step e, hstart⟩
  rcases hend.2 with hpast | ⟨hfull, -⟩
  · omega
  · simp [loginLocked, hend.1.lock, hfull]

/-- Without a recover time there is one thread at most, it runs only during a lock, and
the recover timer never runs. -/
def OneThread (st : Server) : Prop :=
  st.timer_check_login_time = none ∧
    (st.fail_threads = [] ∨
      st.fail_threads.length = 1 ∧ st.g_webs_data.max_retry_times ≤ st.g_login_fail_count)

theorem oneThread_step {pl : Platform} {st : Server} (hR : st.g_webs_data.webs_recover_time = 0)
    (hlock : st.g_webs_data.lock_web_ui ≠ 0) (h : OneThread st) (e : Event) :
    OneThread (step pl st e) := by
  have hnone : loginLocked st = false → st.fail_threads = [] := by
    intro hopen
    rcases h.2 with hnil | ⟨-, hfull⟩
    · exact hnil
    · simp [loginLocked, hlock, hfull] at hopen
  apply lock_rule (fun _ => rfl) pl st h
  · intro hopen
    unfold loginFailed
    dsimp only
    split_ifs with hthread
    · refine ⟨h.1, Or.inr ⟨?_, le_of_eq hthread.2.1⟩⟩
      dsimp only
      rw [hnone hopen]
      rfl
    · exact ⟨h.1, Or.inl (hnone hopen)⟩
  · intro hopen
    exact ⟨h.1, Or.inl (hnone hopen)⟩
  · unfold startRecoverTimer
    rw [if_neg (fun hstart => hstart.2.1 hR)]
    exact h
  · intro n
    rcases failThreadStep_cases pl st n with heq | ⟨th, c, hth, ⟨th', -, heq⟩ | ⟨-, heq⟩⟩
    · rw [heq]
      exact h
    · rw [heq]
      refine ⟨h.1, ?_⟩
      rcases h.2 with hnil | ⟨hone, hfull⟩
      · left
        dsimp only
        rw [hnil]
        rfl
      · right
        refine ⟨?_, hfull⟩
        dsimp only
        rw [List.length_set, hone]
    · -- The thread that ends was the only one.
      rw [heq]
      refine ⟨h.1, Or.inl ?_⟩
      have hn : n < st.fail_threads.length := (List.getElem?_eq_some_iff.mp hth).1
      rcases h.2 with hnil | ⟨hone, -⟩
      · rw [hnil] at hn
        simp at hn
      · apply List.length_eq_zero_iff.mp
        rw [List.length_eraseIdx_of_lt hn]
        omega
  · unfold jrd_oem_webui_check_time
    rw [h.1]
    exact h
  · intro d
    exact h

theorem oneThread_run (pl : Platform) {g : WebsData} (hR : g.webs_recover_time = 0)
    (hlock : g.lock_web_ui ≠ 0) (es : List Event) :
    OneThread (run (step pl) (Server.init g) es) := by
  have hall : (run (step pl) (Server.init g) es).g_webs_data = g ∧
      OneThread (run (step pl) (Server.init g) es) := by
    apply run_invariant (I := fun s : Server => s.g_webs_data = g ∧ OneThread s)
    · rintro s e ⟨hdata, hone⟩
      refine ⟨(step_g_webs_data pl s e).trans hdata, oneThread_step ?_ ?_ hone e⟩
      · rw [hdata]
        exact hR
      · rw [hdata]
        exact hlock
    · exact ⟨rfl, rfl, Or.inl rfl⟩
  exact hall.2

/-- Every lock of the run lasts its time: no state reached before its end is unlocked. -/
def LocksLast (pl : Platform) (st : Server) (es : List Event) : Prop :=
  ∀ pre e mid, es = pre ++ e :: mid → locks pl (run (step pl) st pre) e →
    (run (step pl) st es).now < lockEnd pl (run (step pl) st pre) →
    loginLocked (run (step pl) st es) = true

/-- **A lock lasts its time if nothing older is due before its end.** This is always so
without a recover time. -/
theorem locks_last_of_none_due (pl : Platform) (g : WebsData) (hlock : g.lock_web_ui ≠ 0)
    (es : List Event)
    (hdue : g.webs_recover_time = 0 ∨
      Along (step pl) (fun st e => locks pl st e → NoneDueBefore pl (lockEnd pl st) st)
        (Server.init g) es) :
    LocksLast pl (Server.init g) es := by
  rintro pre e mid rfl hlocks hnow
  have hinv : LockInv (run (step pl) (Server.init g) pre) :=
    run_invariant (fun s e h => h.step e) (LockInv.init hlock) pre
  have hnone : NoneDueBefore pl (lockEnd pl (run (step pl) (Server.init g) pre))
      (run (step pl) (Server.init g) pre) := by
    rcases hdue with hR | hdue
    · obtain ⟨htimer, hnil | ⟨-, hfull⟩⟩ := oneThread_run pl hR hlock pre
      · unfold NoneDueBefore
        rw [hnil, htimer]
        simp
      · exact absurd hfull (not_le.mpr hlocks.1)
    · exact (along_iff _ _ _ _).mp hdue pre e mid rfl hlocks
  rw [run_append] at hnow ⊢
  exact lock_run hinv hlocks hnone mid hnow

/-- A limit of one, three seconds for the thread, two for the recover timer. -/
def shortLock : WebsData := (lockServer 1 3 1).g_webs_data

/-- A query by some peer. -/
def stateQuery : Event := .json_webs_get_login_state { ipaddr := bytes "192.168.1.100" }

/-- One lock, a query that starts the recover timer, and a second of both. -/
theorem locks_last_first_second :
    loginLocked (run (step lockPlatform) (Server.init shortLock)
      [attempt "192.168.1.100" "12345" true, .failThread 0, stateQuery, .wait 1, .failThread 0,
        .recoverTick]) = true := by
  refine locks_last_of_none_due lockPlatform shortLock (by decide)
    [attempt "192.168.1.100" "12345" true, .failThread 0, stateQuery, .wait 1, .failThread 0,
      .recoverTick] (Or.inr (by decide)) [] (attempt "192.168.1.100" "12345" true)
    [.failThread 0, stateQuery, .wait 1, .failThread 0, .recoverTick] rfl (by decide)
    (by decide)

/-- The recover timer ends the first lock after two seconds. The thread of that lock goes
on, and a second after the next lock has begun it ends it. -/
theorem stale_thread_ends_later_lock :
    ¬ ∀ (pl : Platform) (g : WebsData), g.lock_web_ui ≠ 0 → 0 < g.unlock_time →
      ∀ es, LocksLast pl (Server.init g) es := by
  intro hall
  have h := hall lockPlatform shortLock (by decide) (by decide)
    ([attempt "192.168.1.100" "12345" true, .failThread 0, stateQuery,
        .wait 1, .failThread 0, .recoverTick, .wait 1, .failThread 0, .recoverTick]
      ++ attempt "192.168.1.100" "12345" true :: [.wait 1, .failThread 0])
    _ _ _ rfl (by decide) (by decide)
  revert h
  decide

end TestCore.Webs
